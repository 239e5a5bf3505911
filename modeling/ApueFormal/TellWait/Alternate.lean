import ApueFormal.Program.Schedule
import ApueFormal.TellWait.Turns

/-!
# Strict alternation

Signals and pipes are both batons.  A signal is pending, then in `sigflag`, then
only in the progress of the wait; a byte is in the pipe, then in the variable
that `read` has filled.
-/

namespace ApueFormal.TellWait

open Function Libc Program

/-- A notification is pending, or the handler has run and the wait has not ended. -/
def Notified (point : Option SigWait) (proc : SigState) : Prop :=
  (∃ sig, proc.pending sig = true) ∨ proc.sigflag = true ∨ point = some .setmask

/-- What holds of the signals of a side: no notification is counted twice. -/
structure SigInv (side : Side) (point : Option SigWait) (proc : SigState) : Prop where
  only : ∀ sig, proc.pending sig = true → sig = signalFor side
  flag : proc.sigflag = true → ∀ sig, proc.pending sig = false
  clear : point = some .clear → proc.sigflag = true
  setmask : point = some .setmask → proc.sigflag = false ∧ ∀ sig, proc.pending sig = false

namespace SigInv

variable {side : Side} {point : Option SigWait} {proc : SigState}
variable (hinv : SigInv side point proc)
include hinv

theorem of_pending {sig : Signal} (hpending : proc.pending sig = true) :
    proc.sigflag = false ∧ point ≠ some .clear ∧ point ≠ some .setmask := by
  have hflag : proc.sigflag = false := by
    cases hset : proc.sigflag with
    | false => rfl
    | true =>
      have hnone := hinv.flag hset sig
      rw [hpending] at hnone
      cases hnone
  refine ⟨hflag, ?_, ?_⟩
  · intro hclear
    have hset := hinv.clear hclear
    rw [hflag] at hset
    cases hset
  · intro hset
    have hnone := (hinv.setmask hset).2 sig
    rw [hpending] at hnone
    cases hnone

theorem caught {sig : Signal} (hpending : proc.pending sig = true) {point' : Option SigWait}
    (hclear : point' ≠ some .clear) (hset : point' ≠ some .setmask) :
    SigInv side point' (proc.caught sig) := by
  have hnone : ∀ sig', (proc.caught sig).pending sig' = false := by
    intro sig'
    by_cases hsame : sig' = sig
    · rw [hsame]
      exact update_self ..
    · refine (update_of_ne hsame ..).trans ?_
      by_contra hother
      have hfirst := hinv.only sig hpending
      have hsecond := hinv.only sig' (Bool.eq_true_of_not_eq_false hother)
      exact hsame (hsecond.trans hfirst.symm)
  refine ⟨?_, fun _ => hnone, fun h => absurd h hclear, fun h => absurd h hset⟩
  intro sig' hsig'
  rw [hnone] at hsig'
  cases hsig'

theorem tell (hnot : ¬ Notified point proc) :
    SigInv side point (signals.tell side proc) ∧ Notified point (signals.tell side proc) := by
  have hnone : proc.sigflag ≠ true := fun hset => hnot (.inr (.inl hset))
  refine ⟨⟨?_, fun hset => absurd hset hnone, hinv.clear, ?_⟩, .inl ⟨signalFor side, ?_⟩⟩
  · intro sig hsig
    by_contra hne
    exact hne (hinv.only sig ((update_of_ne hne ..).symm.trans hsig))
  · exact fun hset => absurd (.inr (.inr hset)) hnot
  · exact update_self ..

end SigInv

def signalsBaton : Baton signals where
  sent := Notified
  inv := SigInv
  start := by
    intro side proc hinv hnot
    refine ⟨⟨hinv.only, hinv.flag, nofun, nofun⟩, ?_⟩
    rintro (hpending | hset | hpoint)
    · exact hnot (.inl hpending)
    · exact hnot (.inr (.inl hset))
    · cases hpoint
  tell := SigInv.tell
  goes := by
    intro side point proc point' proc' hinv hwait
    cases point with
    | test =>
      dsimp only [signals] at hwait
      cases hset : proc.sigflag with
      | true =>
        rw [hset] at hwait
        cases hwait
        refine ⟨⟨hinv.only, hinv.flag, fun _ => hset, nofun⟩, ?_⟩
        exact iff_of_true (.inr (.inl hset)) (.inr (.inl hset))
      | false =>
        rw [hset] at hwait
        cases hwait
        exact ⟨⟨hinv.only, hinv.flag, nofun, nofun⟩, by simp [Notified]⟩
    | suspend =>
      cases hwait
      exact ⟨⟨hinv.only, hinv.flag, nofun, nofun⟩, by simp [Notified]⟩
    | suspended => cases hwait
    | clear =>
      cases hwait
      have hset := hinv.clear rfl
      refine ⟨⟨hinv.only, nofun, nofun, fun _ => ⟨rfl, hinv.flag hset⟩⟩, ?_⟩
      exact iff_of_true (.inr (.inr rfl)) (.inr (.inl hset))
    | setmask => cases hwait
  ends := by
    intro side point proc proc' hinv hwait
    cases point with
    | test | suspend | suspended | clear => cases hwait
    | setmask =>
      cases hwait
      obtain ⟨hflag, hnone⟩ := hinv.setmask rfl
      refine ⟨⟨hinv.only, hinv.flag, nofun, nofun⟩, .inr (.inr rfl), ?_⟩
      simp [Notified, hflag, hnone]
  interrupt := by
    intro side sig proc proc' hinv hinterrupt
    dsimp only [signals] at hinterrupt
    split at hinterrupt
    · rename_i hsig
      cases hinterrupt
      obtain ⟨hpending, _⟩ := Bool.and_eq_true_iff.mp hsig
      refine ⟨hinv.caught hpending nofun nofun, ?_⟩
      exact iff_of_true (.inr (.inl rfl)) (.inl ⟨sig, hpending⟩)
    · cases hinterrupt
  awaken := by
    intro side sig point proc point' proc' hinv hawaken
    dsimp only [signals] at hawaken
    split at hawaken
    · split at hawaken
      · rename_i hpending
        cases hawaken
        refine ⟨hinv.caught hpending nofun nofun, ?_⟩
        exact iff_of_true (.inr (.inl rfl)) (.inl ⟨sig, hpending⟩)
      · cases hawaken
    · split at hawaken
      · rename_i hsig
        cases hawaken
        obtain ⟨hpending, _⟩ := Bool.and_eq_true_iff.mp hsig
        obtain ⟨_, hclear, hset⟩ := hinv.of_pending hpending
        refine ⟨hinv.caught hpending hclear hset, ?_⟩
        exact iff_of_true (.inr (.inl rfl)) (.inl ⟨sig, hpending⟩)
      · cases hawaken

/-! ## The baton of the pipes -/

/-- A byte is in the pipe, or it has been read and the wait has not ended. -/
def Written (point : Option PipeWait) (pipe : Bytes) : Prop :=
  pipe ≠ [] ∨ ∃ byte, point = some (.compare byte)

/-- What holds of the pipe of a side: there is at most the byte that the side expects. -/
def PipeInv (side : Side) (point : Option PipeWait) (pipe : Bytes) : Prop :=
  match point with
  | some (.compare byte) => byte = byteFor side ∧ pipe = []
  | some .quit => False
  | _ => pipe = [] ∨ pipe = [byteFor side]

theorem PipeInv.tell {side : Side} {point : Option PipeWait} {pipe : Bytes}
    (hinv : PipeInv side point pipe) (hnot : ¬ Written point pipe) :
    PipeInv side point (pipes.tell side pipe) ∧ Written point (pipes.tell side pipe) := by
  have hempty : pipe = [] := by
    by_contra hne
    exact hnot (.inl hne)
  subst hempty
  refine ⟨?_, .inl (List.cons_ne_nil _ _)⟩
  match point with
  | some (.compare byte) => exact absurd (.inr ⟨byte, rfl⟩) hnot
  | some .quit => exact hinv
  | some .read => exact .inr rfl
  | none => exact .inr rfl

def pipesBaton : Baton pipes where
  sent := Written
  inv := PipeInv
  start := by
    intro side pipe hinv hnot
    refine ⟨hinv, ?_⟩
    rintro (hne | ⟨byte, hpoint⟩)
    · exact hnot (.inl hne)
    · cases hpoint
  tell := PipeInv.tell
  goes := by
    intro side point pipe point' pipe' hinv hwait
    match point, pipe with
    | .read, [] => cases hwait
    | .read, byte :: rest =>
      cases hwait
      rcases hinv with hnil | hone
      · cases hnil
      · cases hone
        exact ⟨⟨rfl, rfl⟩, iff_of_true (.inr ⟨_, rfl⟩) (.inl (List.cons_ne_nil _ _))⟩
    | .compare byte, pipe =>
      obtain ⟨rfl, rfl⟩ := hinv
      dsimp only [pipes] at hwait
      rw [if_neg (not_not.mpr rfl)] at hwait
      cases hwait
    | .quit, pipe => cases hwait
  ends := by
    intro side point pipe pipe' hinv hwait
    match point, pipe with
    | .read, [] => cases hwait
    | .read, byte :: rest => cases hwait
    | .compare byte, pipe =>
      obtain ⟨rfl, rfl⟩ := hinv
      dsimp only [pipes] at hwait
      rw [if_neg (not_not.mpr rfl)] at hwait
      cases hwait
      refine ⟨.inl rfl, .inr ⟨_, rfl⟩, ?_⟩
      rintro (hne | ⟨byte, hpoint⟩)
      · exact hne rfl
      · cases hpoint
    | .quit, pipe => cases hwait
  interrupt := by
    intro side ev
    exact ev.elim
  awaken := by
    intro side ev
    exact ev.elim

/-- The two processes are not both between a completed wait and the next tell, and no
process gets another counter than the one it expects. -/
structure Alternates {W M : Type} (sys : System W M) : Prop where
  not_both : ¬ ((sys.pc .parent).Active ∧ (sys.pc .child).Active)
  counter : ∀ side i counter, sys.pc side = .check i counter → counter = i
  no_mismatch : ∀ side i counter, sys.pc side ≠ .mismatch i counter

variable {nloops : Nat}

theorem Turns.alternates {W M Ev : Type} {mech : Mechanism W M Ev} {baton : Baton mech}
    {sys : System W M} (hturns : Turns baton nloops sys) :
    Alternates sys where
  not_both := hturns.phase.not_both
  counter := by
    intro side i counter hpc
    obtain ⟨j, hbusy⟩ := @Phase.busy _ _ _ _ _ _ _ side hturns.phase (by rw [hpc]; trivial)
    rw [hpc] at hbusy
    obtain ⟨rfl, rfl, _⟩ := hbusy
    rfl
  no_mismatch := by
    intro side i counter hpc
    cases hturns.phase with
    | parent j hj hbusy hchild _ _ =>
      obtain ⟨point, hchild⟩ := hchild
      cases side with
      | parent =>
        rw [hpc] at hbusy
        exact hbusy
      | child => cases hchild.symm.trans hpc
    | toChild j hj harea hparent hchild _ _ =>
      obtain ⟨point, hparent⟩ := hparent
      obtain ⟨point', hchild⟩ := hchild
      cases side with
      | parent => cases hparent.symm.trans hpc
      | child => cases hchild.symm.trans hpc
    | child j hj hbusy hparent _ _ =>
      obtain ⟨point, hparent⟩ := hparent
      cases side with
      | parent => cases hparent.symm.trans hpc
      | child =>
        rw [hpc] at hbusy
        exact hbusy
    | toParent j hj harea hparent hchild _ _ =>
      obtain ⟨point, hparent⟩ := hparent
      cases side with
      | parent => cases hparent.symm.trans hpc
      | child =>
        split at hchild
        · obtain ⟨point', hchild⟩ := hchild
          cases hchild.symm.trans hpc
        · cases hchild.symm.trans hpc
    | ended hparent hchild =>
      cases side with
      | parent => cases hparent.symm.trans hpc
      | child => cases hchild.symm.trans hpc

theorem signals_turns {mask : Signal → Bool} {sys : System SigWait SigState}
    (hreached : Reached signals nloops (fun _ => tellWait mask) sys) :
    Turns signalsBaton nloops sys := by
  refine hreached.turns ?_ ?_
  · intro side
    exact ⟨nofun, fun _ _ => rfl, nofun, nofun⟩
  · rintro side (⟨sig, hpending⟩ | hset | hpoint)
    · cases hpending
    · cases hset
    · cases hpoint

theorem pipes_turns {sys : System PipeWait Bytes}
    (hreached : Reached pipes nloops (fun _ => []) sys) : Turns pipesBaton nloops sys := by
  refine hreached.turns ?_ ?_
  · intro side
    exact .inl rfl
  · rintro side (hne | ⟨byte, hpoint⟩)
    · exact hne rfl
    · cases hpoint

/-- The loops of `devzero` alternate with the signals of `lib/tellwait.c`, whatever the
signal mask is at the start, and with the pipes of `ipc1/tellwait.c`, where moreover no
process reads a wrong byte. -/
theorem tell_wait_alternates (nloops : Nat) :
    (∀ mask sys, Reached signals nloops (fun _ => tellWait mask) sys → Alternates sys) ∧
      ∀ sys, Reached pipes nloops (fun _ => []) sys →
        Alternates sys ∧ ∀ side i, sys.pc side ≠ .wait i .quit := by
  refine ⟨fun mask sys hreached => (signals_turns hreached).alternates, ?_⟩
  intro sys hreached
  have hturns := pipes_turns hreached
  refine ⟨hturns.alternates, ?_⟩
  intro side i hpc
  have hinv := hturns.mail side
  rw [hpc] at hinv
  exact hinv

section Acts

variable {W M Ev : Type} {mech : Mechanism W M Ev}

def acts (mech : Mechanism W M Ev) (nloops : Nat) (actions : List (Action Ev))
    (sys : System W M) : Option (System W M) :=
  actions.foldlM (fun sys action => act mech nloops action sys) sys

theorem reached_of_acts {mail : Side → M} {actions : List (Action Ev)} {sys : System W M}
    (hacts : acts mech nloops actions (forked mech nloops mail) = some sys) :
    Reached mech nloops mail sys :=
  reaches_schedule (fun _ action _ hact => ⟨action, hact⟩) (.start rfl) hacts

def steps (side : Side) (count : Nat) : List (Action Ev) := List.replicate count (.run side)

end Acts

/-- A wait in which the signal comes while the process is suspended, and the update and the
tell of the next round. -/
def turn (side : Side) : List (Action Signal) :=
  steps side 2 ++ .deliver side (signalFor side) :: steps side 7

/-- Both processes have waited once, and the parent has told the child again. -/
def secondRound : List (Action Signal) :=
  steps .parent 4 ++ turn .child ++ turn .parent

theorem tell_wait_alternates_second_round :
    (∃ sys, Reached signals 1000 (fun _ => tellWait fun _ => false) sys ∧ sys.area = 3 ∧
      Alternates sys) ∧
    ∃ sys, Reached pipes 1000 (fun _ => []) sys ∧ sys.area = 3 ∧ Alternates sys := by
  obtain ⟨hsignals, hpipes⟩ := tell_wait_alternates 1000
  constructor
  · have hreached := @reached_of_acts 1000 _ _ _ signals (fun _ => tellWait fun _ => false)
      secondRound _ rfl
    exact ⟨_, hreached, rfl, hsignals _ _ hreached⟩
  · have hreached := @reached_of_acts 1000 _ _ _ pipes (fun _ => [])
      (steps .parent 4 ++ steps .child 6 ++ steps .parent 6) _ rfl
    exact ⟨_, hreached, rfl, (hpipes _ hreached).1⟩

/-! ## Pipes never get stuck -/

section Stuck

variable {side : Side} {sys : System PipeWait Bytes}

/-- A byte stays in its pipe until it is read, so that a process that has been told goes on. -/
theorem told_runs (hturns : Turns pipesBaton nloops sys) {i : Nat}
    (hwaits : ∃ point, sys.pc side = .wait i point) (htold : pipesBaton.Told sys side) :
    run pipes nloops side sys ≠ none := by
  obtain ⟨point, hpc⟩ := hwaits
  have hinv := hturns.mail side
  rw [Baton.Told, hpc] at htold
  rw [hpc] at hinv
  unfold run
  rw [hpc]
  cases point with
  | read =>
    cases hmail : sys.mail side with
    | nil =>
      rw [hmail] at htold
      rcases htold with hne | ⟨byte, hpoint⟩
      · exact absurd rfl hne
      · cases hpoint
    | cons byte rest => simp [pipes]
  | compare byte => simp [pipes]
  | quit => exact hinv.elim

theorem active_runs (hactive : (sys.pc side).Active) : run pipes nloops side sys ≠ none := by
  unfold run
  cases hpc : sys.pc side <;> rw [hpc] at hactive <;> first | exact hactive.elim | simp

/-- With the pipes of `ipc1/tellwait.c` no wakeup is lost: in every run, where neither process
can go on, both have ended. -/
theorem pipes_never_stuck (hreached : Reached pipes nloops (fun _ => []) sys)
    (hstuck : ∀ side, run pipes nloops side sys = none) : ∀ side, sys.pc side = .done := by
  have hturns := pipes_turns hreached
  cases hturns.phase with
  | parent i hi hbusy => exact absurd (hstuck .parent) (active_runs hbusy.active)
  | toChild i hi harea hparent hchild hnot hsent =>
    exact absurd (hstuck .child) (told_runs hturns hchild hsent)
  | child i hi hbusy => exact absurd (hstuck .child) (active_runs hbusy.active)
  | toParent i hi harea hparent hchild hsent =>
    exact absurd (hstuck .parent) (told_runs hturns hparent hsent)
  | ended hparent hchild =>
    intro side
    cases side with
    | parent => exact hparent
    | child => exact hchild

theorem pipes_never_stuck_one : ∃ sys, Reached pipes 1 (fun _ => []) sys ∧
    ∀ side, sys.pc side = .done := by
  obtain ⟨sys, hrun, hstuck⟩ : ∃ sys, (List.replicate 4 .parent ++ List.replicate 6 .child ++
      List.replicate 2 .parent : List Side).foldlM (fun sys side => run pipes 1 side sys)
        (forked pipes 1 fun _ => []) = some sys ∧ ∀ side, run pipes 1 side sys = none := by
    refine ⟨_, rfl, fun side => ?_⟩
    cases side <;> rfl
  have hreached : Reached pipes 1 (fun _ => []) sys :=
    schedule_invariant (fun side _ _ _ hreached hstep => .step hreached ⟨.run side, hstep⟩)
      (.start rfl) hrun
  exact ⟨sys, hreached, pipes_never_stuck hreached hstuck⟩

end Stuck

end ApueFormal.TellWait
