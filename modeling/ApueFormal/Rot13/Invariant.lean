import ApueFormal.Program.Schedule
import ApueFormal.Program.Tickets
import ApueFormal.Rot13.Blocks

/-!
# The invariant of the asynchronous copy

Every block whose read has been started has been written or is in one buffer.
-/

namespace ApueFormal.Rot13

open Function Libc Program

def Event.IsGood : Event → Prop
  | .main accepted => accepted = true
  | .complete _ => True
  | .fault _ _ _ => False

instance : DecidablePred Event.IsGood
  | .main accepted => inferInstanceAs (Decidable (accepted = true))
  | .complete _ => inferInstanceAs (Decidable True)
  | .fault _ _ _ => inferInstanceAs (Decidable False)

/-- What a buffer has to do with a block that has not been written. -/
inductive BufOk (input : Bytes) (buf : Buf) : Option Nat → Prop where
  | unused (hop : buf.op = .unused) : BufOk input buf none
  | reading {b : Nat} (hop : buf.op = .readPending)
      (haiocb : buf.aiocb = ⟨.ifd, (b * bsz : Nat), bsz, .inProgress⟩)
      (hlast : b + 1 = blockCount input → buf.last = true) : BufOk input buf (some b)
  | read {b : Nat} (hop : buf.op = .readPending)
      (haiocb : buf.aiocb = ⟨.ifd, (b * bsz : Nat), bsz, .ended 0 (block input b).length⟩)
      (hlast : b + 1 = blockCount input → buf.last = true)
      (hdata : buf.data.take (block input b).length = block input b) : BufOk input buf (some b)
  | writing {b : Nat} (hop : buf.op = .writePending)
      (haiocb : buf.aiocb = ⟨.ofd, (b * bsz : Nat), (block input b).length, .inProgress⟩)
      (hdata : buf.data.take (block input b).length = (block input b).map translate) :
      BufOk input buf (some b)
  | wrote {offset : Int} {n : Nat} (hop : buf.op = .writePending)
      (haiocb : buf.aiocb = ⟨.ofd, offset, n, .ended 0 n⟩) : BufOk input buf none

/-- An operation has been started and not been looked at since it ended. -/
def Buf.busy (buf : Buf) : Nat := if buf.op = .unused then 0 else 1

/-- The list has the control blocks of the operations that have been started. -/
def Listed (entry : Bool) (buf : Buf) : Prop := entry = true ↔ buf.op ≠ .unused

/-! ## What is left to do -/

/-- The number of steps of the operations of a buffer until it is unused. -/
def Buf.weight (buf : Buf) : Nat :=
  match buf.op, buf.aiocb.status with
  | .unused, _ => 0
  | .readPending, .inProgress => 4
  | .readPending, .ended _ _ => 3
  | .writePending, .inProgress => 2
  | .writePending, .ended _ _ => 1

variable {buf : Buf}

theorem Buf.weight_unused (hop : buf.op = .unused) : buf.weight = 0 := by
  simp only [Buf.weight, hop]

/-- The steps of all operations, with those that have not been started. -/
def work (input : Bytes) (off : Int) (bufs : Fin nbuf → Buf) : Nat :=
  5 * (blockCount input - off.toNat / bsz) + ∑ i, (bufs i).weight

def Buf.Ready (size off : Int) (buf : Buf) : Prop :=
  (buf.op = .unused ∧ off < size) ∨ (buf.op ≠ .unused ∧ buf.aiocb.status ≠ .inProgress)

instance (size off : Int) : DecidablePred (Buf.Ready size off) := fun _ =>
  inferInstanceAs (Decidable (_ ∨ _))

theorem Buf.not_ready {size off : Int} (hop : buf.op ≠ .unused)
    (hstatus : buf.aiocb.status = .inProgress) : ¬buf.Ready size off := by
  rintro (⟨hunused, _⟩ | ⟨_, hended⟩)
  · exact hop hunused
  · exact hended hstatus

/-- A bound of the steps of main until it is at a buffer where it has something to do. -/
def Pc.left (ready : Fin nbuf → Prop) [DecidablePred ready] : Pc → Nat
  | .scan i => scanCost ready (nbuf + 2) i
  | .check => nbuf + 2
  | .suspend => nbuf + 1
  | .done => 0
  | .failed _ => 0

def State.left (input : Bytes) (state : State) : Nat :=
  32 * work input state.off state.bufs +
    state.pc.left fun i => (state.bufs i).Ready input.length state.off

theorem left_next (ready : Fin nbuf → Prop) [DecidablePred ready] (i : Fin nbuf) :
    (next i).left ready = scanCost ready (nbuf + 2) (i + 1) := by
  unfold next
  split
  · rfl
  · rename_i hend
    rw [scanCost_end (Nat.not_lt.mp hend)]
    rfl

theorem Pc.left_lt (ready : Fin nbuf → Prop) [DecidablePred ready] (pc : Pc) :
    pc.left ready < 32 := by
  cases pc with
  | scan i =>
    refine Nat.lt_of_le_of_lt scanCost_le ?_
    unfold nbuf
    omega
  | check | suspend | done | failed exit => exact Nat.lt_of_sub_eq_succ rfl

variable {input : Bytes} {state : State}

theorem State.left_of_work {after : State}
    (hwork : work input after.off after.bufs < work input state.off state.bufs) :
    after.left input < state.left input := by
  have hlt := after.pc.left_lt fun i => (after.bufs i).Ready input.length after.off
  unfold State.left
  omega

variable {i : Fin nbuf}

theorem State.left_skip (hpc : state.pc = .scan i)
    (hready : ¬(state.bufs i).Ready input.length state.off) :
    State.left input { state with pc := Rot13.next i } < state.left input := by
  unfold State.left
  rw [hpc]
  refine Nat.add_lt_add_left ?_ _
  rw [left_next]
  exact scanCost_skip i.isLt hready

variable {bufs : Fin nbuf → Buf}

theorem work_update {off : Int} (hweight : buf.weight < (bufs i).weight) :
    work input off (update bufs i buf) < work input off bufs := by
  have hsum := sum_update Buf.weight bufs i buf
  unfold work
  omega

theorem work_start {started : Nat} (hlt : started < blockCount input) (hold : (bufs i).weight = 0)
    (hnew : buf.weight = 4) :
    work input ((started + 1) * bsz : Nat) (update bufs i buf) <
      work input (started * bsz : Nat) bufs := by
  have hsum := sum_update Buf.weight bufs i buf
  have hbsz : 0 < bsz := by decide
  unfold work
  rw [Int.toNat_natCast, Int.toNat_natCast, Nat.mul_div_cancel _ hbsz, Nat.mul_div_cancel _ hbsz]
  omega

/-- What the state does not say: the blocks that have been started, those that have been
written, in their order, and the blocks in the buffers. -/
structure Ghost where
  started : Nat
  written : List Nat
  held : Fin nbuf → Option Nat

/-- Main is in `aio_suspend` or at the end only when it should. -/
def Pc.Ok (size off numop : Int) : Pc → Prop
  | .suspend => numop ≠ 0
  | .done => numop = 0 ∧ size ≤ off
  | .failed _ => False
  | _ => True

theorem next_ok (size off numop : Int) (i : Fin nbuf) : (next i).Ok size off numop := by
  unfold next
  split
  · trivial
  · trivial

structure Inv (input : Bytes) (ghost : Ghost) (state : State) : Prop where
  off : state.off = (ghost.started * bsz : Nat)
  started : ghost.started ≤ blockCount input
  tickets : Tickets ghost.started ghost.written ghost.held
  bufs : ∀ i, BufOk input (state.bufs i) (ghost.held i)
  copied : Copied input ghost.written state.output
  writes : state.writes = ghost.written.map (blockWrite input)
  aiolist : ∀ i, Listed (state.aiolist i) (state.bufs i)
  numop : state.numop = (∑ i, (state.bufs i).busy : Nat)
  pc : state.pc.Ok input.length state.off state.numop

theorem start_inv (input : Bytes) : Inv input ⟨0, [], fun _ => none⟩ start where
  off := rfl
  started := Nat.zero_le _
  tickets := Tickets.start _
  bufs _ := .unused rfl
  copied := Copied.nil input
  writes := rfl
  aiolist _ := by simp [Listed, start]
  numop := by simp [start, Buf.busy]
  pc := trivial

theorem Inv.move {ghost : Ghost} (hinv : Inv input ghost state) {pc : Pc}
    (hpc : pc.Ok input.length state.off state.numop) : Inv input ghost { state with pc } :=
  ⟨hinv.off, hinv.started, hinv.tickets, hinv.bufs, hinv.copied, hinv.writes, hinv.aiolist,
    hinv.numop, hpc⟩

variable {ghost : Ghost}

theorem Buf.busy_unused (hop : buf.op = .unused) : buf.busy = 0 := if_pos hop

theorem Buf.busy_of_ne (hop : buf.op ≠ .unused) : buf.busy = 1 := if_neg hop

variable (hinv : Inv input ghost state)
include hinv

theorem Inv.numop_update {numop : Int}
    (hnumop : numop + (state.bufs i).busy = state.numop + buf.busy) :
    numop = (∑ j, (update state.bufs i buf j).busy : Nat) := by
  have hsum := sum_update Buf.busy state.bufs i buf
  have hold := hinv.numop
  omega

theorem Inv.bufs_kept (hbuf : BufOk input buf (ghost.held i))
    (j : Fin nbuf) : BufOk input (update state.bufs i buf j) (ghost.held j) := by
  have hbufs := update_related hinv.bufs i hbuf
  rw [update_eq_self] at hbufs
  exact hbufs j

theorem Inv.aiolist_kept (hop : buf.op = .unused ↔ (state.bufs i).op = .unused) (j : Fin nbuf) :
    Listed (state.aiolist j) (update state.bufs i buf j) := by
  have haiolist := update_related hinv.aiolist i ((hinv.aiolist i).trans (not_congr hop.symm))
  rw [update_eq_self] at haiolist
  exact haiolist j

theorem Inv.numop_kept (hop : buf.op = .unused ↔ (state.bufs i).op = .unused) :
    state.numop = (∑ j, (update state.bufs i buf j).busy : Nat) := by
  refine hinv.numop_update ?_
  simp only [Buf.busy, hop]

theorem Inv.set (hbuf : BufOk input buf (ghost.held i))
    (hop : buf.op = .unused ↔ (state.bufs i).op = .unused) :
    Inv input ghost (state.set i buf) :=
  ⟨hinv.off, hinv.started, hinv.tickets, hinv.bufs_kept hbuf, hinv.copied, hinv.writes,
    hinv.aiolist_kept hop, hinv.numop_kept hop, hinv.pc⟩

end ApueFormal.Rot13
