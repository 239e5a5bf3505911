import ApueFormal.Rot13.Steps

/-!
# The asynchronous copy is the synchronous one

Whatever the order in which the operations end, every block is written once, and the output
is that of the synchronous program.  The input file may be as long as the offset of the
block behind it can be stored.
-/

namespace ApueFormal.Rot13

open Libc Program

variable {input : Bytes} {ghost : Ghost} {state : State}

/-- No operation is pending, and every block has been written once, at its own offset. -/
structure Finished (input : Bytes) (state : State) : Prop where
  idle : ∀ i, (state.bufs i).op = .unused
  writes : state.writes.Perm (blockWrites input)
  output : state.output = input.map translate

theorem Inv.finished (hinv : Inv input ghost state) (hpc : state.pc = .done) :
    Finished input state := by
  have hok := hinv.pc
  rw [hpc] at hok
  obtain ⟨hnumop, hoff⟩ := hok
  have hidle := hinv.idle hnumop
  have hstarted : ghost.started = blockCount input := by
    refine Nat.le_antisymm hinv.started (Nat.not_lt.mp fun hlt => ?_)
    rw [hinv.off] at hoff
    exact Nat.not_lt.mpr (Int.ofNat_le.mp hoff) (lt_blockCount.mp hlt)
  have hperm := hinv.tickets.perm_range fun i => (hinv.bufs i).held_none (hidle i)
  rw [hstarted] at hperm
  refine ⟨hidle, ?_, ?_⟩
  · rw [hinv.writes]
    exact hperm.map _
  · exact hinv.copied.all fun b hb => hperm.mem_iff.mpr (List.mem_range.mpr hb)

/-- No thread and no operation can go on. -/
def State.Stuck (input : Bytes) (state : State) : Prop :=
  ∀ event : Event, event.IsGood → state.next input event = none

theorem BufOk.offset_nonneg {buf : Buf} {held : Option Nat} (hbuf : BufOk input buf held)
    (hpending : buf.Pending) : 0 ≤ buf.aiocb.offset := by
  obtain ⟨hop, hstatus⟩ := hpending
  cases hbuf with
  | unused hunused => exact absurd hunused hop
  | reading _ haiocb _ | writing _ haiocb _ => rw [haiocb]; exact Int.natCast_nonneg _
  | read _ haiocb _ _ | wrote _ haiocb => rw [haiocb] at hstatus; cases hstatus

/-- In `aio_suspend` there is an operation that has ended or can end. -/
theorem Inv.not_suspended (hinv : Inv input ghost state) (hstuck : state.Stuck input) :
    state.pc ≠ .suspend := by
  intro hpc
  have hnumop := hinv.pc
  rw [hpc] at hnumop
  have hmain := hstuck (.main true) rfl
  simp only [State.next, State.main, hpc, if_true] at hmain
  split at hmain
  · cases hmain
  · rename_i hnone
    have hunused : ∀ i, (state.bufs i).op = .unused := by
      intro i
      by_contra hop
      have hstatus : (state.bufs i).aiocb.status = .inProgress := by
        by_contra hended
        exact hnone ⟨i, (hinv.aiolist i).mpr hop, hended⟩
      have hpending : (state.bufs i).Pending := ⟨hop, hstatus⟩
      have hcomplete := hstuck (.complete i) trivial
      simp only [State.next] at hcomplete
      rw [if_pos ⟨hpending, (hinv.bufs i).offset_nonneg hpending⟩] at hcomplete
      cases hcomplete
    refine hnumop ?_
    rw [hinv.numop, Finset.sum_eq_zero fun i _ => Buf.busy_unused (hunused i)]
    rfl

theorem Inv.stuck_done (hinv : Inv input ghost state) (hstuck : state.Stuck input) :
    state.pc = .done := by
  have hmain := hstuck (.main true) rfl
  cases hpc : state.pc with
  | done => rfl
  | suspend => exact absurd hpc (hinv.not_suspended hstuck)
  | scan i | check => simp only [State.next, State.main, hpc] at hmain; cases hmain
  | failed exit =>
    have hok := hinv.pc
    rw [hpc] at hok
    exact hok.elim

theorem next_advances (hsize : input.length + bsz ≤ 2 ^ 63) {event : Event}
    (hgood : event.IsGood) (state after : State) (hinv : ∃ ghost, Inv input ghost state)
    (hnext : state.next input event = some after) : Advances input state after :=
  hinv.choose_spec.next hsize hgood hnext

variable {events : List Event}

theorem inv_of_run (hsize : input.length + bsz ≤ 2 ^ 63) (hgood : ∀ event ∈ events, event.IsGood)
    (hrun : start.run input events = some state) : ∃ ghost, Inv input ghost state :=
  @schedule_invariant _ _ _ (fun state => ∃ ghost, Inv input ghost state) _ _ _
    (fun event hmem before after hinv hnext =>
      (next_advances hsize (hgood event hmem) before after hinv hnext).1)
    ⟨_, start_inv input⟩ hrun

/-- A run without errors of the operations takes no error exit.  The main loop ends only
when it should, and then the output is that of the synchronous program; it does end, since
the number of steps is bounded and only the end stops it. -/
theorem async_copies (hsize : input.length + bsz ≤ 2 ^ 63) {events : List Event}
    (hgood : ∀ event ∈ events, event.IsGood) (hrun : start.run input events = some state) :
    (∀ exit, state.pc ≠ .failed exit) ∧
      (state.pc = .done → Finished input state ∧
        syncLoop .full input (input.length + 1) 0 [] = some (.ok state.output)) ∧
      events.length ≤ start.left input ∧ (state.Stuck input → state.pc = .done) := by
  have hlength := schedule_length_le (State.left input)
    (fun event hmem => next_advances hsize (hgood event hmem)) ⟨_, start_inv input⟩ hrun
  obtain ⟨ghost, hinv⟩ := inv_of_run hsize hgood hrun
  refine ⟨?_, ?_, ?_, hinv.stuck_done⟩
  · intro exit hpc
    have hok := hinv.pc
    rw [hpc] at hok
    exact hok
  · intro hpc
    have hfinished := hinv.finished hpc
    refine ⟨hfinished, ?_⟩
    rw [hfinished.output]
    exact sync_copies input
  · omega

theorem exists_good_run (hsize : input.length + bsz ≤ 2 ^ 63) : ∃ events state,
    (∀ event ∈ events, event.IsGood) ∧ start.run input events = some state ∧
      state.Stuck input :=
  exists_exhausted (State.left input) (fun _ hgood => next_advances hsize hgood)
    ⟨_, start_inv input⟩

/-- A file of two blocks, of which the second one has a single byte. -/
def twoBlocks : Bytes := List.replicate (bsz + 1) 97

theorem async_copies_two_blocks : ∃ events state, (∀ event ∈ events, event.IsGood) ∧
    start.run twoBlocks events = some state ∧ state.pc = .done ∧
      state.output = List.replicate (bsz + 1) 110 := by
  have hsize : twoBlocks.length + bsz ≤ 2 ^ 63 := by
    rw [twoBlocks, List.length_replicate]
    decide
  obtain ⟨events, state, hgood, hrun, hstuck⟩ := exists_good_run hsize
  obtain ⟨_, hfinished, _, hends⟩ := async_copies hsize hgood hrun
  refine ⟨events, state, hgood, hrun, hends hstuck, ?_⟩
  rw [(hfinished (hends hstuck)).1.output, twoBlocks, List.map_replicate]
  rfl

theorem output_of_done (hsize : input.length + bsz ≤ 2 ^ 63)
    (hgood : ∀ event ∈ events, event.IsGood) (hrun : start.run input events = some state)
    (hdone : state.pc = .done) : state.output = input.map translate := by
  obtain ⟨ghost, hinv⟩ := inv_of_run hsize hgood hrun
  exact (hinv.finished hdone).output

theorem translate_translate (c : Byte) : translate (translate c) = c := by
  have hall : ∀ n < 256, translate (translate (UInt8.ofNat n)) = UInt8.ofNat n := by
    decide +kernel
  have hbyte := hall c.toNat c.toNat_lt
  rwa [UInt8.ofNat_toNat] at hbyte

/-- The program undoes itself: on its own output it writes the file that it has read first,
whatever the order of the operations in both runs. -/
theorem async_restores (hsize : input.length + bsz ≤ 2 ^ 63) {events events' : List Event}
    {state' : State} (hgood : ∀ event ∈ events ++ events', event.IsGood)
    (hrun : start.run input events = some state) (hdone : state.pc = .done)
    (hrun' : start.run state.output events' = some state') (hdone' : state'.pc = .done) :
    state'.output = input := by
  have houtput := output_of_done hsize (fun event hmem => hgood event (by simp [hmem])) hrun hdone
  rw [houtput] at hrun'
  have hback := output_of_done (by rwa [List.length_map])
    (fun event hmem => hgood event (by simp [hmem])) hrun' hdone'
  rw [hback, List.map_map, show translate ∘ translate = id from funext translate_translate,
    List.map_id]

def pass : List Event := List.replicate nbuf (.main true)

def wait : List Event := [.main true, .complete 0, .main true]

def shortRun : List Event := pass ++ wait ++ pass ++ wait ++ pass ++ [.main true]

theorem async_restores_short : ∃ state state', start.run [97, 65, 48] shortRun = some state ∧
    start.run state.output shortRun = some state' ∧ state'.output = [97, 65, 48] := by
  obtain ⟨state, state', hrun, hdone, hrun', hdone'⟩ : ∃ state state',
      start.run [97, 65, 48] shortRun = some state ∧ state.pc = .done ∧
      start.run state.output shortRun = some state' ∧ state'.pc = .done :=
    ⟨_, _, rfl, rfl, rfl, rfl⟩
  exact ⟨state, state', hrun, hrun', async_restores (by decide) (by decide) hrun hdone hrun' hdone'⟩

/-- Main starts reads at multiples of the block size. -/
def Aligned (off : Int) : Prop := (bsz : Int) ∣ off ∧ off < 2 ^ 63

theorem Aligned.le {off : Int} (haligned : Aligned off) : off + bsz ≤ 2 ^ 63 := by
  obtain ⟨⟨k, rfl⟩, hlt⟩ := haligned
  unfold bsz at hlt ⊢
  omega

theorem Aligned.wrap {off : Int} (haligned : Aligned off) : Aligned (wrap 64 (off + bsz)) := by
  refine ⟨?_, Int.bmod_lt (by decide)⟩
  obtain ⟨⟨k, rfl⟩, _⟩ := haligned
  unfold Libc.wrap bsz
  rw [Int.bmod_def]
  split
  · omega
  · omega

/-- The main loop has not ended. -/
structure Unending (state : State) : Prop where
  aligned : Aligned state.off
  pc : state.pc ≠ .done

theorem next_ne_done (i : Fin nbuf) : next i ≠ .done := by
  unfold next
  split
  · nofun
  · nofun

namespace Unending

variable {i : Fin nbuf} {size : Int} {accepted : Bool}
variable (hunending : Unending state)
include hunending

theorem startRead : Unending (state.startRead size accepted i) := by
  unfold State.startRead
  dsimp only
  split
  · split
    · exact ⟨hunending.aligned.wrap, next_ne_done i⟩
    · exact ⟨hunending.aligned.wrap, nofun⟩
  · exact ⟨hunending.aligned, next_ne_done i⟩

theorem endRead : Unending (state.endRead accepted i) := by
  unfold State.endRead
  dsimp only
  split
  · exact ⟨hunending.aligned, next_ne_done i⟩
  · exact ⟨hunending.aligned, nofun⟩
  · split
    · exact ⟨hunending.aligned, nofun⟩
    · refine ⟨hunending.aligned, ?_⟩
      dsimp only
      split
      · exact next_ne_done i
      · nofun

theorem endWrite : Unending (state.endWrite i) := by
  unfold State.endWrite
  dsimp only
  split
  · exact ⟨hunending.aligned, next_ne_done i⟩
  · exact ⟨hunending.aligned, nofun⟩
  · split
    · exact ⟨hunending.aligned, nofun⟩
    · exact ⟨hunending.aligned, next_ne_done i⟩

theorem main (hsize : 2 ^ 63 < size + bsz) {after : State}
    (hstep : state.main size accepted = some after) : Unending after := by
  unfold State.main at hstep
  split at hstep
  · cases hstep
    unfold State.scan
    split
    · exact hunending.startRead
    · exact hunending.endRead
    · exact hunending.endWrite
  · cases hstep
    refine ⟨hunending.aligned, ?_⟩
    -- The offset does not get past the end of the file.
    have hoff : ¬size ≤ state.off := by
      have hle := hunending.aligned.le
      omega
    dsimp only
    rw [if_neg hoff]
    split
    · nofun
    · nofun
  · split at hstep
    · split at hstep
      · cases hstep
        exact ⟨hunending.aligned, nofun⟩
      · cases hstep
    · cases hstep
      exact ⟨hunending.aligned, nofun⟩
  · cases hstep
  · cases hstep

theorem finish (err ret : Int) : Unending (state.finish input i err ret) := by
  unfold State.finish
  dsimp only
  split
  · exact ⟨hunending.aligned, hunending.pc⟩
  · exact ⟨hunending.aligned, hunending.pc⟩

theorem next (hsize : 2 ^ 63 < input.length + bsz) {event : Event}
    {after : State} (hstep : state.next input event = some after) : Unending after := by
  cases event with
  | main accepted => exact hunending.main (by exact_mod_cast hsize) hstep
  | complete i | fault i err ret =>
    simp only [State.next] at hstep
    split at hstep
    · cases hstep
      exact hunending.finish ..
    · cases hstep

end Unending

/-- The offset of a file that is too long wraps, and main never gets behind its loop. -/
theorem never_done (hsize : 2 ^ 63 < input.length + bsz) :
    ¬∃ events state, start.run input events = some state ∧ state.pc = .done := by
  rintro ⟨events, state, hrun, hdone⟩
  have hstart : Unending start := ⟨⟨⟨0, rfl⟩, by decide⟩, nofun⟩
  have hunending : Unending state :=
    schedule_invariant (fun _ _ _ _ hunending hstep => hunending.next hsize hstep) hstart hrun
  exact hunending.pc hdone

theorem sync_copies_letters (n : Nat) :
    syncLoop .full (List.replicate n 97) (n + 1) 0 [] = some (.ok (List.replicate n 110)) := by
  have hcopy := sync_copies (List.replicate n 97)
  rw [List.length_replicate, List.map_replicate] at hcopy
  exact hcopy

/-- The synchronous program copies a file of 2^63 - 1 bytes, and the asynchronous one does
not end. -/
theorem longest_file_never_done :
    syncLoop .full (List.replicate (2 ^ 63 - 1) 97) (2 ^ 63 - 1 + 1) 0 [] =
        some (.ok (List.replicate (2 ^ 63 - 1) 110)) ∧
      ¬∃ events state, start.run (List.replicate (2 ^ 63 - 1) 97) events = some state ∧
        state.pc = .done := by
  refine ⟨sync_copies_letters (2 ^ 63 - 1), never_done ?_⟩
  rw [List.length_replicate]
  decide

end ApueFormal.Rot13
