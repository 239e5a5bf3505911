import ApueFormal.Popen.Parent

/-!
# The descriptors of the child

What the child of `popen` has open when it calls `execl`, for any descriptors of the parent
and any earlier calls.
-/

namespace ApueFormal.Popen

open Libc Program

def Mode.target : Mode → Nat
  | .r => stdoutFileno
  | .w => stdinFileno

def Mode.side : Mode → Side
  | .r => .write
  | .w => .read

/-- The child has its end of the new pipe in the right place, and no other descriptor on the
new pipe or on the pipe of an earlier stream. -/
structure RightDescriptors (parent : Parent) (mode : Mode) (child : Table Desc) : Prop where
  target : child mode.target = some (.pipe parent.pipes mode.side)
  sole : ∀ fd side, child fd = some (.pipe parent.pipes side) → fd = mode.target
  earlier : ∀ stream id side, parent.pid stream ≠ 0 → parent.fds stream = some (.pipe id side) →
    ∀ fd side', child fd ≠ some (.pipe id side')

theorem moved {fds : Table Desc} {fd : Nat} (hfree : fds fd = none) (target : Nat) (desc : Desc) :
    (if fd ≠ target then ((fds.opened fd desc).dup2 fd target).close fd
      else fds.opened fd desc) = fds.opened target desc := by
  split
  · rename_i hne
    rw [Table.dup2_of_open (Table.opened_self ..), Table.opened_close_comm hne,
      Table.close_opened hfree]
  · rename_i heq
    rw [not_ne_iff.mp heq]

theorem runChild_eq {fds : Table Desc} {pfd : Nat × Nat} (hne : pfd.1 ≠ pfd.2)
    (hread : fds pfd.1 = none) (hwrite : fds pfd.2 = none) (maxfd id : Nat) (mode : Mode)
    (childpid : Nat → Nat) :
    runChild maxfd mode pfd childpid (openPipe fds pfd id) =
      (fds.opened mode.target (.pipe id mode.side)).closeMarked (fun fd => childpid fd > 0)
        maxfd := by
  cases mode with
  | r =>
    simp only [runChild, openPipe_close_read hread id hne]
    rw [moved hwrite]
    rfl
  | w =>
    simp only [runChild, openPipe_close_write hwrite id hne]
    rw [moved hread]
    rfl

theorem popenPipe_child {maxfd : Nat} {calls : PopenCalls} {parent : Parent}
    (hpossible : calls.Possible parent) {mode : Mode} {childpid : Nat → Nat} {fd : Nat}
    (hresult : (popenPipe maxfd mode calls childpid parent).result = .ok fd) :
    (popenPipe maxfd mode calls childpid parent).child =
      some ((parent.fds.opened mode.target (.pipe parent.pipes mode.side)).closeMarked
        (fun fd => childpid fd > 0) maxfd) := by
  unfold popenPipe at hresult ⊢
  cases hpipe : calls.pipe with
  | none =>
    rw [hpipe] at hresult
    cases hresult
  | some pfd =>
    obtain ⟨hne, hread, hwrite⟩ := hpossible.pipe pfd hpipe
    rw [hpipe] at hresult
    dsimp only at hresult ⊢
    split at hresult
    · cases hresult
    · rename_i hbound
      rw [if_neg hbound]
      split at hresult
      · cases hresult
      · exact congrArg some (runChild_eq hne hread hwrite ..)

variable {maxfd : Nat} {parent : Parent}

theorem popen_child {type : CString} {calls : PopenCalls} (hpossible : calls.Possible parent)
    {mode : Mode} (hmode : modeOf type = some mode) {fd : Nat}
    (hresult : (popen maxfd type calls parent).result = .ok fd) :
    (popen maxfd type calls parent).child =
      some ((parent.fds.opened mode.target (.pipe parent.pipes mode.side)).closeMarked
        (fun fd => parent.pid fd > 0) maxfd) := by
  unfold popen at hresult ⊢
  rw [hmode] at hresult ⊢
  cases hchildpid : parent.childpid with
  | some childpid =>
    rw [hchildpid] at hresult
    have hpid : parent.pid = childpid := by
      funext fd
      rw [Parent.pid, hchildpid]
    rw [hpid]
    exact popenPipe_child hpossible hresult
  | none =>
    rw [hchildpid] at hresult
    have hpid : parent.pid = fun _ => 0 := by
      funext fd
      rw [Parent.pid, hchildpid]
    dsimp only at hresult ⊢
    rw [hpid]
    split at hresult
    · rw [if_pos ‹_›]
      exact @popenPipe_child _ _ { parent with childpid := some fun _ => 0 }
        ⟨hpossible.pipe, hpossible.fork⟩ _ _ _ hresult
    · cases hresult

/-- Only entries of the array are set. -/
def Bounded (maxfd : Nat) (parent : Parent) : Prop := ∀ fd, parent.pid fd ≠ 0 → fd < maxfd

theorem Bounded.popen {calls : PopenCalls} {after : Parent} {result : Except PopenError Nat}
    (hbounded : Bounded maxfd parent) (hends : PopenEnds maxfd calls parent after result) :
    Bounded maxfd after := by
  intro fd hchild
  cases hends with
  | unchanged hfds hpid hpipes | forkFailed hfork hfree hfds hpid hpipes
  | fdopenFailed hfdopen hfree hfds hpid hpipes =>
    rw [hpid] at hchild
    exact hbounded fd hchild
  | @stream new pid side hpos hbound hfree hfds hpid hpipes =>
    rw [hpid] at hchild
    by_cases heq : fd = new
    · rw [heq]
      exact hbound
    · rw [Function.update_of_ne heq] at hchild
      exact hbounded fd hchild

theorem Bounded.pclose (hbounded : Bounded maxfd parent) (closed : Nat) (calls : PcloseCalls) :
    Bounded maxfd (Popen.pclose maxfd closed calls parent).1 := by
  intro fd hchild
  rcases pclose_cases maxfd closed calls parent with hsame | ⟨_, _, hpid, _⟩
  · rw [hsame] at hchild
    exact hbounded fd hchild
  · rw [hpid] at hchild
    by_cases heq : fd = closed
    · rw [heq, Function.update_self] at hchild
      exact absurd rfl hchild
    · rw [Function.update_of_ne heq] at hchild
      exact hbounded fd hchild

theorem bounded_reachable {allowed : Call → Prop}
    (hreaches : Reaches Initial (Step maxfd allowed) parent) : Bounded maxfd parent := by
  refine hreaches.invariant ?_ ?_
  · rintro parent ⟨hchildpid, _⟩ fd hchild
    rw [Parent.pid, hchildpid] at hchild
    exact absurd rfl hchild
  · rintro parent after hbounded ⟨call, _, hpossible, rfl⟩
    cases call with
    | popen type calls => exact hbounded.popen (popen_ends hpossible type)
    | pclose fd calls => exact hbounded.pclose fd calls

theorem swept_right_iff (hstreams : Streams parent) (hbounded : Bounded maxfd parent)
    (mode : Mode) :
    RightDescriptors parent mode
        ((parent.fds.opened mode.target (.pipe parent.pipes mode.side)).closeMarked
          (fun fd => parent.pid fd > 0) maxfd) ↔
      parent.pid mode.target = 0 := by
  constructor
  · intro hright
    by_contra hchild
    have htarget := hright.target
    rw [Table.closeMarked_apply,
      if_pos ⟨hbounded _ hchild, Nat.pos_of_ne_zero hchild⟩] at htarget
    cases htarget
  · intro hnone
    -- What the child has open was not swept away.
    have hopen : ∀ {fd : Nat} {desc : Desc},
        (parent.fds.opened mode.target (.pipe parent.pipes mode.side)).closeMarked
          (fun fd => parent.pid fd > 0) maxfd fd = some desc →
        parent.pid fd = 0 ∧ ((fd = mode.target ∧ desc = .pipe parent.pipes mode.side) ∨
          parent.fds fd = some desc) := by
      intro fd desc hsome
      rw [Table.closeMarked_apply] at hsome
      split at hsome
      · cases hsome
      · rename_i hswept
        refine ⟨?_, Table.opened_eq_some hsome⟩
        by_contra hchild
        exact hswept ⟨hbounded fd hchild, Nat.pos_of_ne_zero hchild⟩
    constructor
    · rw [Table.closeMarked_apply, if_neg (by omega), Table.opened_self]
    · intro fd side hsome
      rcases (hopen hsome).2 with ⟨hfd, _⟩ | hbefore
      · exact hfd
      · exact absurd (hstreams.old fd _ side hbefore) (Nat.lt_irrefl _)
    · intro stream id side hchild hstream fd side' hsome
      have hold := hstreams.old stream id side hstream
      obtain ⟨id', side'', hstream', hsole⟩ := hstreams.sole stream hchild
      rw [hstream] at hstream'
      cases hstream'
      obtain ⟨hfd, hplace⟩ := hopen hsome
      rcases hplace with ⟨_, heq⟩ | hbefore
      · cases heq
        exact absurd hold (Nat.lt_irrefl _)
      · rw [hsole fd side' hbefore] at hfd
        exact hchild hfd

/-- After any earlier calls, the child of a `popen` that returns a stream has the right
descriptors exactly when its standard descriptor is not that of an earlier stream. -/
theorem popen_child_right_iff {maxfd : Nat} {parent : Parent}
    (hreaches : Reaches Initial (Step maxfd fun _ => True) parent) {type : CString}
    {calls : PopenCalls} (hpossible : calls.Possible parent) {mode : Mode}
    (hmode : modeOf type = some mode) {fd : Nat}
    (hresult : (popen maxfd type calls parent).result = .ok fd) :
    ∃ child, (popen maxfd type calls parent).child = some child ∧
      (RightDescriptors parent mode child ↔ parent.pid mode.target = 0) :=
  ⟨_, popen_child hpossible hmode hresult,
    swept_right_iff (streams_reachable hreaches) (bounded_reachable hreaches) mode⟩

def LowestFree (fds : Table Desc) (pfd : Nat × Nat) : Prop :=
  pfd.1 < pfd.2 ∧ fds pfd.2 = none ∧ ∀ fd < pfd.2, fds fd = none ↔ fd = pfd.1

instance (fds : Table Desc) (pfd : Nat × Nat) : Decidable (LowestFree fds pfd) :=
  inferInstanceAs (Decidable (_ ∧ _ ∧ _))

/-- A program without standard input that has opened a stream for reading. -/
def oneStream : Parent :=
  (Call.popen typeR (pipeCalls (0, 3) (some 100) true)).exec 256 (startFrom 1)

theorem oneStream_reachable : Reaches Initial (Step 256 fun _ => True) oneStream := by
  refine .step (.start (initial_startFrom 1))
    ⟨.popen typeR (pipeCalls (0, 3) (some 100) true), trivial, ?_, rfl⟩
  refine possible_pipeCalls _ _ ⟨by decide, rfl, rfl⟩ ?_
  rintro _ ⟨rfl⟩
  decide

theorem possible_next : (pipeCalls (3, 4) (some 101) true).Possible oneStream := by
  refine possible_pipeCalls _ _ (by decide +kernel) ?_
  rintro _ ⟨rfl⟩
  decide

theorem popen_child_right_r :
    ∃ child, (popen 256 typeR (pipeCalls (3, 4) (some 101) true) oneStream).child = some child ∧
      oneStream.pid Mode.r.target = 0 ∧
      (RightDescriptors oneStream .r child ↔ oneStream.pid Mode.r.target = 0) := by
  have hresult : (popen 256 typeR (pipeCalls (3, 4) (some 101) true) oneStream).result = .ok 3 := by
    rfl
  obtain ⟨child, hchild, hright⟩ := popen_child_right_iff oneStream_reachable possible_next
    (show modeOf typeR = some .r by decide +kernel) hresult
  exact ⟨child, hchild, by decide +kernel, hright⟩

/-- The stream of an earlier `popen` is on descriptor 0, and the child of the next one, for
writing, starts with its standard input closed. -/
theorem child_input_closed : Reaches Initial (Step 256 fun _ => True) oneStream ∧
      LowestFree (startFrom 1).fds (0, 3) ∧ LowestFree oneStream.fds (3, 4) ∧
      (popen 256 typeW (pipeCalls (3, 4) (some 101) true) oneStream).result = .ok 4 ∧
      ((popen 256 typeW (pipeCalls (3, 4) (some 101) true) oneStream).child.map fun child =>
        child 0) = some none := by
  refine ⟨oneStream_reachable, by decide +kernel, by decide +kernel, rfl, by decide +kernel⟩

end ApueFormal.Popen
