import ApueFormal.Popen.Model
import ApueFormal.Program.System

/-!
# The descriptors of the parent

Which descriptors `popen` and `pclose` leave open, after any run of calls.
-/

namespace ApueFormal.Popen

open Function Libc Program

/-- How `popen` leaves the parent. -/
inductive PopenEnds (maxfd : Nat) (calls : PopenCalls) (parent : Parent) :
    Parent → Except PopenError Nat → Prop where
  /-- No pipe was made, or it was closed. -/
  | unchanged {after : Parent} {error : PopenError} (hfds : after.fds = parent.fds)
      (hpid : after.pid = parent.pid) (hpipes : parent.pipes ≤ after.pipes) :
      PopenEnds maxfd calls parent after (.error error)
  /-- Both ends of the pipe stay open. -/
  | forkFailed {after : Parent} {pfd : Nat × Nat} (hfork : calls.fork = none)
      (hfree : pfd.1 ≠ pfd.2 ∧ parent.fds pfd.1 = none ∧ parent.fds pfd.2 = none)
      (hfds : after.fds = openPipe parent.fds pfd parent.pipes) (hpid : after.pid = parent.pid)
      (hpipes : after.pipes = parent.pipes + 1) : PopenEnds maxfd calls parent after (.error .fork)
  /-- One end of the pipe stays open. -/
  | fdopenFailed {after : Parent} {fd : Nat} {side : Side} (hfdopen : calls.fdopen = false)
      (hfree : parent.fds fd = none)
      (hfds : after.fds = parent.fds.opened fd (.pipe parent.pipes side))
      (hpid : after.pid = parent.pid) (hpipes : after.pipes = parent.pipes + 1) :
      PopenEnds maxfd calls parent after (.error .fdopen)
  | stream {after : Parent} {fd pid : Nat} {side : Side} (hpos : 0 < pid)
      (hbound : fd < maxfd) (hfree : parent.fds fd = none)
      (hfds : after.fds = parent.fds.opened fd (.pipe parent.pipes side))
      (hpid : after.pid = Function.update parent.pid fd pid)
      (hpipes : after.pipes = parent.pipes + 1) : PopenEnds maxfd calls parent after (.ok fd)

variable {result : Except PopenError Nat}

section

variable {maxfd : Nat} {calls : PopenCalls} {parent : Parent} {pfd : Nat × Nat}

theorem openPipe_close_write {fds : Table Desc} (hfree : fds pfd.2 = none) (id : Nat)
    (hne : pfd.1 ≠ pfd.2) : (openPipe fds pfd id).close pfd.2 = fds.opened pfd.1 (.pipe id .read) :=
  Table.close_opened ((Table.opened_of_ne hne.symm fds _).trans hfree) _

theorem openPipe_close_read {fds : Table Desc} (hfree : fds pfd.1 = none) (id : Nat)
    (hne : pfd.1 ≠ pfd.2) :
    (openPipe fds pfd id).close pfd.1 = fds.opened pfd.2 (.pipe id .write) := by
  rw [openPipe, Table.opened_close_comm hne, Table.close_opened hfree]

variable {childpid : Nat → Nat}

theorem runParent_ends {mode : Mode} {pid : Nat} (hpos : 0 < pid)
    (hchildpid : parent.childpid = some childpid) (hne : pfd.1 ≠ pfd.2)
    (hread : parent.fds pfd.1 = none) (hwrite : parent.fds pfd.2 = none)
    (hbound : pfd.1 < maxfd ∧ pfd.2 < maxfd) {after : Parent}
    (hrun : runParent mode pfd childpid pid calls.fdopen
      { parent with fds := openPipe parent.fds pfd parent.pipes, pipes := parent.pipes + 1 } =
        (after, result)) :
    PopenEnds maxfd calls parent after result := by
  have hpid : parent.pid = childpid := by
    funext fd
    rw [Parent.pid, hchildpid]
  cases mode with
  | r =>
    simp only [runParent, openPipe_close_write hwrite _ hne] at hrun
    split at hrun
    · cases hrun
      exact .stream hpos hbound.1 hread rfl (by rw [hpid]; rfl) rfl
    · rename_i hfdopen
      cases hrun
      exact .fdopenFailed (Bool.eq_false_iff.mpr hfdopen) hread rfl rfl rfl
  | w =>
    simp only [runParent, openPipe_close_read hread _ hne] at hrun
    split at hrun
    · cases hrun
      exact .stream hpos hbound.2 hwrite rfl (by rw [hpid]; rfl) rfl
    · rename_i hfdopen
      cases hrun
      exact .fdopenFailed (Bool.eq_false_iff.mpr hfdopen) hwrite rfl rfl rfl

theorem popenPipe_ends (hpossible : calls.Possible parent) {mode : Mode}
    (hchildpid : parent.childpid = some childpid) :
    PopenEnds maxfd calls parent (popenPipe maxfd mode calls childpid parent).parent
      (popenPipe maxfd mode calls childpid parent).result := by
  unfold popenPipe
  cases hpipe : calls.pipe with
  | none => exact .unchanged rfl rfl (Nat.le_refl _)
  | some pfd =>
    obtain ⟨hne, hread, hwrite⟩ := hpossible.pipe pfd hpipe
    dsimp only
    split
    · refine .unchanged ?_ rfl (Nat.le_succ _)
      dsimp only
      rw [openPipe_close_read hread _ hne, Table.close_opened hwrite]
    · rename_i hbound
      cases hfork : calls.fork with
      | none => exact .forkFailed hfork ⟨hne, hread, hwrite⟩ rfl rfl rfl
      | some pid =>
        exact runParent_ends (hpossible.fork pid hfork) hchildpid hne hread hwrite
          (by omega) rfl

theorem PopenEnds.of_alloc (hchildpid : parent.childpid = none) {after : Parent}
    (hends : PopenEnds maxfd calls { parent with childpid := some fun _ => 0 } after result) :
    PopenEnds maxfd calls parent after result := by
  have hpid : ({ parent with childpid := some fun _ => 0 } : Parent).pid = parent.pid := by
    funext fd
    simp only [Parent.pid, hchildpid]
  cases hends with
  | unchanged hfds hsame hpipes => exact .unchanged hfds (hsame.trans hpid) hpipes
  | forkFailed hfork hfree hfds hsame hpipes =>
    exact .forkFailed hfork hfree hfds (hsame.trans hpid) hpipes
  | fdopenFailed hfdopen hfree hfds hsame hpipes =>
    exact .fdopenFailed hfdopen hfree hfds (hsame.trans hpid) hpipes
  | stream hpos hbound hfree hfds hstream hpipes =>
    rw [hpid] at hstream
    exact .stream hpos hbound hfree hfds hstream hpipes

theorem popen_ends (hpossible : calls.Possible parent) (type : CString) :
    PopenEnds maxfd calls parent (popen maxfd type calls parent).parent
      (popen maxfd type calls parent).result := by
  unfold popen
  cases modeOf type with
  | none => exact .unchanged rfl rfl (Nat.le_refl _)
  | some mode =>
    cases hchildpid : parent.childpid with
    | some childpid => exact popenPipe_ends hpossible hchildpid
    | none =>
      dsimp only
      split
      · refine PopenEnds.of_alloc hchildpid (popenPipe_ends ?_ rfl)
        exact ⟨hpossible.pipe, hpossible.fork⟩
      · exact .unchanged rfl rfl (Nat.le_refl _)

theorem pclose_cases (maxfd fd : Nat) (calls : PcloseCalls) (parent : Parent) :
    (pclose maxfd fd calls parent).1 = parent ∨
      (parent.pid fd ≠ 0 ∧
        (pclose maxfd fd calls parent).1.fds = parent.fds.close fd ∧
        (pclose maxfd fd calls parent).1.pid = update parent.pid fd 0 ∧
        (pclose maxfd fd calls parent).1.pipes = parent.pipes) := by
  unfold pclose
  cases hchildpid : parent.childpid with
  | none => exact .inl rfl
  | some childpid =>
    have hpid : parent.pid = childpid := by
      funext fd
      rw [Parent.pid, hchildpid]
    dsimp only
    split
    · exact .inl rfl
    · split
      · exact .inl rfl
      · rename_i hchild
        rw [hpid]
        split
        · exact .inr ⟨hchild, rfl, rfl, rfl⟩
        · exact .inr ⟨hchild, rfl, rfl, rfl⟩

end

/-- Every descriptor with a child is the only one that is open on its pipe. -/
structure Streams (parent : Parent) : Prop where
  sole : ∀ fd, parent.pid fd ≠ 0 → ∃ id side, parent.fds fd = some (.pipe id side) ∧
    ∀ other side', parent.fds other = some (.pipe id side') → other = fd
  old : ∀ fd id side, parent.fds fd = some (.pipe id side) → id < parent.pipes

theorem Streams.add {parent after : Parent} (hstreams : Streams parent)
    (hpid : ∀ fd, after.pid fd ≠ 0 → parent.pid fd ≠ 0)
    (hkept : ∀ fd desc, parent.fds fd = some desc → after.fds fd = some desc)
    (hnew : ∀ fd id side, after.fds fd = some (.pipe id side) →
      parent.fds fd = some (.pipe id side) ∨ id = parent.pipes)
    (hpipes : parent.pipes < after.pipes) : Streams after := by
  constructor
  · intro fd hchild
    obtain ⟨id, side, hopen, hsole⟩ := hstreams.sole fd (hpid fd hchild)
    refine ⟨id, side, hkept fd _ hopen, fun other side' hother => ?_⟩
    rcases hnew other id side' hother with hbefore | hfresh
    · exact hsole other side' hbefore
    · have hold := hstreams.old fd id side hopen
      omega
  · intro fd id side hopen
    rcases hnew fd id side hopen with hbefore | hfresh
    · exact Nat.lt_trans (hstreams.old fd id side hbefore) hpipes
    · omega

variable {fds : Table Desc} {pfd : Nat × Nat} {fd : Nat} {after : Parent}

theorem openPipe_of_some (hne : pfd.1 ≠ pfd.2) (hread : fds pfd.1 = none)
    (hwrite : fds pfd.2 = none) {desc : Desc} (hopen : fds fd = some desc) (id : Nat) :
    openPipe fds pfd id fd = some desc := by
  refine Table.opened_of_some ?_ (Table.opened_of_some hread hopen _) _
  rw [Table.opened_of_ne hne.symm, hwrite]

theorem openPipe_eq_some {new id : Nat} {side : Side}
    (hopen : openPipe fds pfd new fd = some (.pipe id side)) :
    fds fd = some (.pipe id side) ∨ id = new := by
  rcases Table.opened_eq_some hopen with ⟨_, heq⟩ | hopen
  · cases heq
    exact .inr rfl
  · rcases Table.opened_eq_some hopen with ⟨_, heq⟩ | hopen
    · cases heq
      exact .inr rfl
    · exact .inl hopen

theorem opened_pipe {new id pipes : Nat} {side side' : Side}
    (hopen : fds.opened new (.pipe pipes side') fd = some (.pipe id side)) :
    fds fd = some (.pipe id side) ∨ (id = pipes ∧ fd = new) := by
  rcases Table.opened_eq_some hopen with ⟨hfd, heq⟩ | hopen
  · cases heq
    exact .inr ⟨rfl, hfd⟩
  · exact .inl hopen

variable {parent : Parent} {maxfd : Nat}

theorem Streams.popen {calls : PopenCalls} (hstreams : Streams parent)
    (hends : PopenEnds maxfd calls parent after result) : Streams after := by
  cases hends with
  | unchanged hfds hpid hpipes =>
    constructor
    · rw [hfds, hpid]
      exact hstreams.sole
    · intro fd id side hopen
      rw [hfds] at hopen
      exact Nat.lt_of_lt_of_le (hstreams.old fd id side hopen) hpipes
  | forkFailed hfork hfree hfds hpid hpipes =>
    obtain ⟨hne, hread, hwrite⟩ := hfree
    refine hstreams.add (fun fd hchild => hpid ▸ hchild) ?_ ?_ (by omega)
    · intro fd desc hopen
      rw [hfds]
      exact openPipe_of_some hne hread hwrite hopen _
    · intro fd id side hopen
      rw [hfds] at hopen
      exact openPipe_eq_some hopen
  | fdopenFailed hfdopen hfree hfds hpid hpipes =>
    refine hstreams.add (fun fd hchild => hpid ▸ hchild) ?_ ?_ (by omega)
    · intro fd desc hopen
      rw [hfds]
      exact Table.opened_of_some hfree hopen _
    · intro fd id side hopen
      rw [hfds] at hopen
      exact (opened_pipe hopen).imp_right And.left
  | @stream new pid side hpos hbound hfree hfds hpid hpipes =>
    constructor
    · intro fd hchild
      rw [hpid] at hchild
      rw [hfds]
      by_cases heq : fd = new
      · subst heq
        refine ⟨parent.pipes, side, Table.opened_self .., fun other side' hother => ?_⟩
        rcases opened_pipe hother with hbefore | ⟨_, hnew⟩
        · exact absurd (hstreams.old other _ _ hbefore) (Nat.lt_irrefl _)
        · exact hnew
      · rw [update_of_ne heq] at hchild
        obtain ⟨id, side', hopen, hsole⟩ := hstreams.sole fd hchild
        refine ⟨id, side', Table.opened_of_some hfree hopen _, fun other side hother => ?_⟩
        rcases opened_pipe hother with hbefore | ⟨hid, _⟩
        · exact hsole other side hbefore
        · exact absurd (hstreams.old fd id side' hopen) (by omega)
    · intro fd id side hopen
      rw [hfds] at hopen
      rcases opened_pipe hopen with hbefore | ⟨hid, _⟩
      · have hold := hstreams.old fd id side hbefore
        omega
      · omega

theorem Streams.pclose (hstreams : Streams parent) (maxfd fd : Nat) (calls : PcloseCalls) :
    Streams (Popen.pclose maxfd fd calls parent).1 := by
  rcases pclose_cases maxfd fd calls parent with
    hsame | ⟨_, hfds, hpid, hpipes⟩
  · rw [hsame]
    exact hstreams
  · constructor
    · intro other hchild
      rw [hpid] at hchild
      have hne : other ≠ fd := by
        rintro rfl
        exact hchild (update_self ..)
      rw [update_of_ne hne] at hchild
      obtain ⟨id, side, hopen, hsole⟩ := hstreams.sole other hchild
      rw [hfds]
      refine ⟨id, side, (Table.close_of_ne hne _).trans hopen, fun third side' hthird => ?_⟩
      exact hsole third side' (Table.close_eq_some hthird).2
    · intro other id side hopen
      rw [hfds] at hopen
      rw [hpipes]
      exact hstreams.old other id side (Table.close_eq_some hopen).2

theorem streams_reachable {allowed : Call → Prop}
    (hreaches : Reaches Initial (Step maxfd allowed) parent) : Streams parent := by
  refine hreaches.invariant ?_ ?_
  · rintro parent ⟨hchildpid, hnone⟩
    constructor
    · intro fd hchild
      rw [Parent.pid, hchildpid] at hchild
      exact absurd rfl hchild
    · intro fd id side hopen
      exact absurd hopen (hnone fd id side)
  · rintro parent after hstreams ⟨call, _, hpossible, rfl⟩
    cases call with
    | popen type calls => exact hstreams.popen (popen_ends hpossible type)
    | pclose fd calls => exact hstreams.pclose maxfd fd calls

def NoFailure : Call → Prop
  | .popen _ calls => calls.fork ≠ none ∧ calls.fdopen = true
  | .pclose _ _ => True

/-- Every pipe that is open belongs to a stream. -/
def Accounted (parent : Parent) : Prop :=
  ∀ fd id side, parent.fds fd = some (.pipe id side) → parent.pid fd ≠ 0

theorem popen_ends_noFailure {calls : PopenCalls} {type : CString}
    (hfine : NoFailure (.popen type calls)) (hends : PopenEnds maxfd calls parent after result) :
    (after.fds = parent.fds ∧ after.pid = parent.pid) ∨ ∃ fd pid side, result = .ok fd ∧ 0 < pid ∧
        after.fds = parent.fds.opened fd (.pipe parent.pipes side) ∧
        after.pid = update parent.pid fd pid := by
  cases hends with
  | unchanged hfds hpid hpipes => exact .inl ⟨hfds, hpid⟩
  | forkFailed hfork => exact absurd hfork hfine.1
  | fdopenFailed hfdopen =>
    rw [hfine.2] at hfdopen
    cases hfdopen
  | stream hpos hbound hfree hfds hpid hpipes => exact .inr ⟨_, _, _, rfl, hpos, hfds, hpid⟩

theorem accounted_step (haccounted : Accounted parent) (hstep : Step maxfd NoFailure parent after) :
    Accounted after := by
  obtain ⟨call, hfine, hpossible, rfl⟩ := hstep
  intro fd id side hopen
  cases call with
  | popen type calls =>
    dsimp only [Call.exec] at hopen ⊢
    rcases popen_ends_noFailure hfine (popen_ends hpossible type) with
      ⟨hfds, hpid⟩ | ⟨new, pid, _, _, hpos, hfds, hpid⟩
    · rw [hfds] at hopen
      rw [hpid]
      exact haccounted fd id side hopen
    · rw [hfds] at hopen
      rw [hpid]
      by_cases heq : fd = new
      · rw [heq, update_self]
        omega
      · rw [update_of_ne heq]
        rw [Table.opened_of_ne heq] at hopen
        exact haccounted fd id side hopen
  | pclose closed calls =>
    dsimp only [Call.exec] at hopen ⊢
    rcases pclose_cases maxfd closed calls parent with hsame | ⟨_, hfds, hpid, _⟩
    · rw [hsame] at hopen ⊢
      exact haccounted fd id side hopen
    · rw [hfds] at hopen
      obtain ⟨hne, hopen⟩ := Table.close_eq_some hopen
      rw [hpid, update_of_ne hne]
      exact haccounted fd id side hopen

theorem accounted_reachable (hreaches : Reaches Initial (Step maxfd NoFailure) parent) :
    Accounted parent := by
  refine hreaches.invariant ?_ ?_
  · rintro parent ⟨_, hnone⟩ fd id side hopen
    exact absurd hopen (hnone fd id side)
  · intro parent after haccounted hstep
    exact accounted_step haccounted hstep

/-- In every run in which `fork` and `fdopen` do not fail, the pipe descriptors of the parent
are those with a child, and a `popen` that returns a null pointer changes nothing. -/
theorem popen_descriptors_accounted {maxfd : Nat} {parent : Parent}
    (hreaches : Reaches Initial (Step maxfd NoFailure) parent) :
    (∀ fd, (∃ id side, parent.fds fd = some (.pipe id side)) ↔ parent.pid fd ≠ 0) ∧
      ∀ type calls, NoFailure (.popen type calls) → calls.Possible parent → ∀ error,
        (popen maxfd type calls parent).result = .error error →
          (popen maxfd type calls parent).parent.fds = parent.fds ∧
            (popen maxfd type calls parent).parent.pid = parent.pid := by
  constructor
  · intro fd
    constructor
    · rintro ⟨id, side, hopen⟩
      exact accounted_reachable hreaches fd id side hopen
    · intro hchild
      obtain ⟨id, side, hopen, _⟩ := (streams_reachable hreaches).sole fd hchild
      exact ⟨id, side, hopen⟩
  · intro type calls hfine hpossible error herror
    rcases popen_ends_noFailure hfine (popen_ends hpossible type) with
      hsame | ⟨fd, pid, side, hresult, _⟩
    · exact hsame
    · rw [hresult] at herror
      cases herror

/-- A program with its standard descriptors from some one on. -/
def startFrom (lowest : Nat) : Parent :=
  ⟨fun fd => if lowest ≤ fd ∧ fd < 3 then some (.other fd) else none, none, 0⟩

theorem initial_startFrom (lowest : Nat) : Initial (startFrom lowest) := by
  refine ⟨rfl, fun fd id side => ?_⟩
  dsimp only [startFrom]
  split
  · intro heq
    cases heq
  · intro heq
    cases heq

def typeR : CString := ⟨ascii "r", by decide +kernel⟩

def typeW : CString := ⟨ascii "w", by decide +kernel⟩

def pipeCalls (pfd : Nat × Nat) (fork : Option Nat) (fdopen : Bool) : PopenCalls :=
  ⟨true, some pfd, fork, fdopen⟩

theorem possible_pipeCalls (fork : Option Nat) (fdopen : Bool)
    (hfree : pfd.1 ≠ pfd.2 ∧ parent.fds pfd.1 = none ∧ parent.fds pfd.2 = none)
    (hfork : ∀ pid, fork = some pid → 0 < pid) : (pipeCalls pfd fork fdopen).Possible parent := by
  constructor
  · rintro _ ⟨rfl⟩
    exact hfree
  · exact hfork

theorem popen_descriptors_accounted_once :
    ∃ parent : Parent, Reaches Initial (Step 256 NoFailure) parent ∧ parent.pid 3 = 100 ∧
      ∀ fd, (∃ id side, parent.fds fd = some (.pipe id side)) ↔ parent.pid fd ≠ 0 := by
  have hreaches : Reaches Initial (Step 256 NoFailure)
      ((Call.popen typeR (pipeCalls (3, 4) (some 100) true)).exec 256 (startFrom 0)) := by
    refine .step (.start (initial_startFrom 0))
      ⟨.popen typeR (pipeCalls (3, 4) (some 100) true), ⟨by simp [pipeCalls], rfl⟩, ?_, rfl⟩
    refine possible_pipeCalls _ _ ⟨by decide, rfl, rfl⟩ ?_
    rintro _ ⟨rfl⟩
    decide
  exact ⟨_, hreaches, by decide +kernel, (popen_descriptors_accounted hreaches).1⟩

/-- When `fork` fails both ends of the pipe stay open in the parent, and when `fdopen` fails
one of them, with no entry in `childpid`. -/
theorem failed_popen_leaks :
    Initial (startFrom 0) ∧ (pipeCalls (3, 4) none true).Possible (startFrom 0) ∧
      (pipeCalls (3, 4) (some 100) false).Possible (startFrom 0) ∧
      (popen 256 typeR (pipeCalls (3, 4) none true) (startFrom 0)).result = .error .fork ∧
      (popen 256 typeR (pipeCalls (3, 4) none true) (startFrom 0)).parent.fds 3 =
        some (.pipe 0 .read) ∧
      (popen 256 typeR (pipeCalls (3, 4) none true) (startFrom 0)).parent.fds 4 =
        some (.pipe 0 .write) ∧
      (popen 256 typeR (pipeCalls (3, 4) none true) (startFrom 0)).parent.pid 3 = 0 ∧
      (popen 256 typeR (pipeCalls (3, 4) (some 100) false) (startFrom 0)).result = .error .fdopen ∧
      (popen 256 typeR (pipeCalls (3, 4) (some 100) false) (startFrom 0)).parent.fds 3 =
        some (.pipe 0 .read) ∧
      (popen 256 typeR (pipeCalls (3, 4) (some 100) false) (startFrom 0)).parent.pid 3 = 0 := by
  refine ⟨initial_startFrom 0, possible_pipeCalls _ _ ⟨by decide, rfl, rfl⟩ ?_,
    possible_pipeCalls _ _ ⟨by decide, rfl, rfl⟩ ?_, ?_⟩
  · intro pid hnone
    cases hnone
  · rintro _ ⟨rfl⟩
    decide
  · decide +kernel

end ApueFormal.Popen
