import ApueFormal.Rot13.Invariant

/-!
# Steps of the asynchronous copy

Every event without an error keeps the invariant and makes less what is left to do.
-/

namespace ApueFormal.Rot13

open Libc Program

variable {input : Bytes} {ghost : Ghost} {state : State} {i : Fin nbuf}

/-- The invariant holds behind a step, which has brought the end nearer. -/
def Advances (input : Bytes) (state after : State) : Prop :=
  (∃ ghost, Inv input ghost after) ∧ after.left input < state.left input

variable (hinv : Inv input ghost state)
include hinv

theorem Inv.skip (hpc : state.pc = .scan i)
    (hready : ¬(state.bufs i).Ready input.length state.off) :
    Advances input state { state with pc := Rot13.next i } :=
  ⟨⟨ghost, hinv.move (next_ok ..)⟩, State.left_skip hpc hready⟩

omit hinv in
theorem BufOk.held_none {buf : Buf} {held : Option Nat} (hbuf : BufOk input buf held)
    (hop : buf.op = .unused) : held = none := by
  cases hbuf with
  | unused _ | wrote _ _ => rfl
  | reading hread _ _ | read hread _ _ _ => rw [hread] at hop; cases hop
  | writing hwrite _ _ => rw [hwrite] at hop; cases hop

theorem Inv.wrap_off (hsize : input.length + bsz ≤ 2 ^ 63) (hmore : state.off < input.length) :
    wrap 64 (state.off + bsz) = ((ghost.started + 1) * bsz : Nat) := by
  rw [hinv.off] at hmore ⊢
  have hsum : ((ghost.started * bsz : Nat) : Int) + bsz = ((ghost.started + 1) * bsz : Nat) := by
    rw [Nat.succ_mul]
    rfl
  rw [hsum]
  refine wrap_of_lt ?_ ?_
  · omega
  · rw [Nat.succ_mul]
    omega

theorem Inv.startRead (hsize : input.length + bsz ≤ 2 ^ 63)
    (hpc : state.pc = .scan i) (hop : (state.bufs i).op = .unused) :
    Advances input state (state.startRead input.length true i) := by
  unfold State.startRead
  dsimp only
  split
  · rename_i hmore
    rw [hinv.wrap_off hsize hmore, if_pos rfl]
    rw [hinv.off] at hmore
    have hlt : ghost.started < blockCount input := lt_blockCount.mpr (Int.ofNat_lt.mp hmore)
    refine ⟨⟨⟨ghost.started + 1, ghost.written,
      Function.update ghost.held i (some ghost.started)⟩, ?_⟩, ?_⟩
    constructor
    · rfl
    · exact hlt
    · exact hinv.tickets.give ((hinv.bufs i).held_none hop)
    · refine update_related hinv.bufs i (.reading rfl ?_ ?_)
      · rw [hinv.off]
      · -- The read of the last block reaches the end of the file.
        intro hlast
        have hnot : ¬ghost.started + 1 < blockCount input := by omega
        rw [lt_blockCount, Nat.not_lt] at hnot
        exact if_pos (Int.ofNat_le.mpr hnot)
    · exact hinv.copied
    · exact hinv.writes
    · exact update_related hinv.aiolist i (by simp [Listed])
    · refine hinv.numop_update ?_
      rw [Buf.busy_unused hop]
      exact Int.add_zero (state.numop + 1)
    · exact next_ok ..
    · refine State.left_of_work ?_
      rw [hinv.off]
      exact work_start hlt (Buf.weight_unused hop) rfl
  · rename_i hmore
    refine hinv.skip hpc ?_
    rintro (⟨_, hless⟩ | ⟨hne, _⟩)
    · exact hmore hless
    · exact hne hop

omit hinv in
theorem not_short {b : Nat} {buf : Buf} (hlast : b + 1 = blockCount input → buf.last = true)
    (hlt : b < blockCount input) :
    ¬(((block input b).length : Int) ≠ bsz ∧ buf.last = false) := by
  rintro ⟨hshort, hfalse⟩
  by_cases heq : b + 1 = blockCount input
  · rw [hlast heq] at hfalse
    cases hfalse
  · exact hshort (congrArg _ (length_block_of_lt (Nat.lt_of_le_of_ne hlt heq)))

theorem Inv.held_lt {b : Nat} (hheld : ghost.held i = some b) : b < blockCount input :=
  Nat.lt_of_lt_of_le (hinv.tickets.held_lt hheld) hinv.started

theorem Inv.endRead (hpc : state.pc = .scan i) (hop : (state.bufs i).op = .readPending) :
    Advances input state (state.endRead true i) := by
  have hbuf := hinv.bufs i
  generalize hheld : ghost.held i = held at hbuf
  unfold State.endRead
  cases hbuf with
  | reading _ haiocb _ =>
    simp only [haiocb, aioResult]
    exact hinv.skip hpc (Buf.not_ready (by rw [hop]; nofun) (by rw [haiocb]))
  | @read b _ haiocb hlast hdata =>
    simp only [haiocb, aioResult_ended, if_neg (not_short hlast (hinv.held_lt hheld)),
      Int.toNat_natCast, hdata]
    refine ⟨⟨ghost, (hinv.set ?_ ?_).move (next_ok ..)⟩, State.left_of_work (work_update ?_)⟩
    · rw [hheld]
      refine .writing rfl rfl ?_
      exact List.take_left' (List.length_map _)
    · rw [hop]
      exact ⟨nofun, nofun⟩
    · rw [show (state.bufs i).weight = 3 by simp only [Buf.weight, hop, haiocb]]
      exact Nat.lt_succ_self 2
  | unused hunused => rw [hunused] at hop; cases hop
  | writing hwrite _ _ | wrote hwrite _ => rw [hwrite] at hop; cases hop

theorem Inv.endWrite (hpc : state.pc = .scan i) (hop : (state.bufs i).op = .writePending) :
    Advances input state (state.endWrite i) := by
  have hbuf := hinv.bufs i
  generalize hheld : ghost.held i = held at hbuf
  unfold State.endWrite
  cases hbuf with
  | writing _ haiocb _ =>
    simp only [haiocb, aioResult]
    exact hinv.skip hpc (Buf.not_ready (by rw [hop]; nofun) (by rw [haiocb]))
  | @wrote offset n _ haiocb =>
    simp only [haiocb, aioResult_ended, ne_eq, not_true_eq_false, if_false]
    refine ⟨⟨ghost, hinv.off, hinv.started, hinv.tickets,
      hinv.bufs_kept (hheld ▸ .unused rfl), hinv.copied, hinv.writes,
      update_related hinv.aiolist i (by simp [Listed]), hinv.numop_update ?_, next_ok ..⟩,
      State.left_of_work (work_update ?_)⟩
    · rw [Buf.busy_of_ne (by rw [hop]; nofun)]
      exact (Int.sub_add_cancel state.numop 1).trans (Int.add_zero _).symm
    · rw [show (state.bufs i).weight = 1 by simp only [Buf.weight, hop, haiocb]]
      exact Nat.lt_succ_self 0
  | unused hunused => rw [hunused] at hop; cases hop
  | reading hread _ _ | read hread _ _ _ => rw [hread] at hop; cases hop

theorem Inv.scan (hsize : input.length + bsz ≤ 2 ^ 63)
    (hpc : state.pc = .scan i) : Advances input state (state.scan input.length true i) := by
  unfold State.scan
  cases hop : (state.bufs i).op with
  | unused => exact hinv.startRead hsize hpc hop
  | readPending => exact hinv.endRead hpc hop
  | writePending => exact hinv.endWrite hpc hop

/-- No operation has been started and not been looked at since it ended. -/
theorem Inv.idle (hnumop : state.numop = 0) (j : Fin nbuf) : (state.bufs j).op = .unused := by
  have hsum : ∑ j, (state.bufs j).busy = 0 := Int.ofNat_inj.mp (hinv.numop.symm.trans hnumop)
  have hbusy := Finset.sum_eq_zero_iff.mp hsum j (Finset.mem_univ j)
  by_contra hne
  rw [Buf.busy_of_ne hne] at hbusy
  cases hbusy

theorem Inv.check (hpc : state.pc = .check) :
    Advances input state { state with
      pc := if state.numop = 0 then if (input.length : Int) ≤ state.off then .done else .scan 0
        else .suspend } := by
  have hless : ∀ {pc : Pc},
      (pc.left fun j => (state.bufs j).Ready input.length state.off) < nbuf + 2 →
      State.left input { state with pc } < state.left input := by
    intro pc hless
    unfold State.left
    rw [hpc]
    exact Nat.add_lt_add_left hless _
  by_cases hnumop : state.numop = 0
  · rw [if_pos hnumop]
    by_cases hoff : (input.length : Int) ≤ state.off
    · rw [if_pos hoff]
      exact ⟨⟨ghost, hinv.move ⟨hnumop, hoff⟩⟩, hless (Nat.succ_pos _)⟩
    · rw [if_neg hoff]
      refine ⟨⟨ghost, hinv.move trivial⟩, hless ?_⟩
      -- The next loop starts a read at once.
      dsimp only [Pc.left]
      rw [scanCost_ready (Nat.le_refl _) (.inl ⟨hinv.idle hnumop 0, Int.not_le.mp hoff⟩)]
      exact Nat.lt_add_of_pos_right (Nat.succ_pos 1)
  · rw [if_neg hnumop]
    exact ⟨⟨ghost, hinv.move hnumop⟩, hless (Nat.lt_succ_self _)⟩

theorem Inv.resume (hpc : state.pc = .suspend) {j : Fin nbuf}
    (hlisted : state.aiolist j = true) (hended : (state.bufs j).aiocb.status ≠ .inProgress) :
    Advances input state { state with pc := .scan 0 } := by
  refine ⟨⟨ghost, hinv.move trivial⟩, ?_⟩
  unfold State.left
  rw [hpc]
  refine Nat.add_lt_add_left ?_ _
  have hle : ((0 : Fin nbuf) : Nat) ≤ j := Nat.zero_le j
  dsimp only [Pc.left]
  rw [scanCost_ready hle (.inr ⟨(hinv.aiolist j).mp hlisted, hended⟩)]
  exact Nat.lt_succ_self _

theorem Inv.main (hsize : input.length + bsz ≤ 2 ^ 63)
    {after : State} (hstep : state.main input.length true = some after) :
    Advances input state after := by
  cases hpc : state.pc with
  | scan i =>
    simp only [State.main, hpc, Option.some.injEq] at hstep
    subst hstep
    exact hinv.scan hsize hpc
  | check =>
    simp only [State.main, hpc, Option.some.injEq] at hstep
    subst hstep
    exact hinv.check hpc
  | suspend =>
    simp only [State.main, hpc, if_true] at hstep
    split at hstep
    · rename_i hended
      cases hstep
      obtain ⟨j, hlisted, hended⟩ := hended
      exact hinv.resume hpc hlisted hended
    · cases hstep
  | done | failed exit => simp only [State.main, hpc] at hstep; cases hstep

/-! ## Ends of operations -/

theorem Inv.complete (hpending : (state.bufs i).Pending) :
    Advances input state (state.finish input i 0 ((state.bufs i).aiocb.available input)) := by
  have hbuf := hinv.bufs i
  generalize hheld : ghost.held i = held at hbuf
  obtain ⟨hop, hstatus⟩ := hpending
  cases hbuf with
  | unused hunused => exact absurd hunused hop
  | @reading b hread haiocb hlast =>
    simp only [State.finish, Aiocb.available, haiocb, Int.toNat_natCast, List.take_length]
    refine ⟨⟨ghost, hinv.set ?_ Iff.rfl⟩, State.left_of_work (work_update ?_)⟩
    · rw [hheld]
      exact .read hread rfl hlast (List.take_left' rfl)
    · simp only [Buf.weight, hread, haiocb]
      exact Nat.lt_succ_self 3
  | @writing b hwrite haiocb hdata =>
    have hlt := hinv.held_lt hheld
    simp only [State.finish, Aiocb.available, haiocb, Int.toNat_natCast, hdata]
    refine ⟨⟨⟨ghost.started, ghost.written ++ [b], Function.update ghost.held i none⟩, ?_⟩, ?_⟩
    constructor
    · exact hinv.off
    · exact hinv.started
    · exact hinv.tickets.finish hheld
    · exact update_related hinv.bufs i (.wrote hwrite rfl)
    · exact hinv.copied.write hlt (hinv.tickets.fresh i b hheld)
    · rw [List.map_append, ← hinv.writes]
      rfl
    · exact hinv.aiolist_kept Iff.rfl
    · exact hinv.numop_kept Iff.rfl
    · exact hinv.pc
    · refine State.left_of_work (work_update ?_)
      simp only [Buf.weight, hwrite, haiocb]
      exact Nat.lt_succ_self 1
  | read _ haiocb _ _ | wrote _ haiocb => rw [haiocb] at hstatus; cases hstatus

theorem Inv.next (hsize : input.length + bsz ≤ 2 ^ 63) {event : Event} (hgood : event.IsGood)
    {after : State} (hstep : state.next input event = some after) : Advances input state after := by
  cases event with
  | main accepted =>
    obtain rfl : accepted = true := hgood
    exact hinv.main hsize hstep
  | complete i =>
    simp only [State.next] at hstep
    split at hstep
    · rename_i hpending
      cases hstep
      exact hinv.complete hpending.1
    · cases hstep
  | fault i err ret => exact hgood.elim

end ApueFormal.Rot13
