import ApueFormal.Program.Schedule
import ApueFormal.TellWait.Alternate

/-!
# Lost wakeups

The test of `sigflag` and `sigsuspend` are two steps.  In its first wait a process
has the two signals blocked, and a notification can only arrive inside of
`sigsuspend`.  Each wait ends with the mask that was there before `TELL_WAIT`, and
with that mask the later waits are made.
-/

namespace ApueFormal.TellWait

open Libc Program

/-- No process is suspended whose notification has been delivered. -/
def NoLostWakeup (sys : System SigWait SigState) : Prop :=
  ∀ side i, sys.pc side = .wait i .suspended → (sys.mail side).sigflag = false

/-- Neither process can go on, and one of them has not come to its end. -/
def Deadlocked (nloops : Nat) (sys : System SigWait SigState) : Prop :=
  (∀ action, act signals nloops action sys = none) ∧ ∃ side, sys.pc side ≠ .done

/-- A process does not wait again. -/
def NoWaitAhead (nloops : Nat) : Side → Pc SigWait → Prop
  | .parent, .mismatch _ _ => True
  | .parent, .done => True
  | .parent, _ => False
  | .child, .load i => nloops < i + 2
  | .child, .store i _ => nloops < i + 2
  | .child, .check i _ => nloops < i + 2
  | .child, .mismatch _ _ => True
  | .child, .tell i => nloops < i + 2
  | .child, .wait _ _ => False
  | .child, .done => True

/-- A process waits only with its signals blocked, and tests `sigflag` before it is
suspended. -/
structure Shielded (nloops : Nat) (mask : Signal → Bool) (side : Side) (pc : Pc SigWait)
    (proc : SigState) : Prop where
  oldmask : proc.oldmask = mask
  shield : (∀ sig, proc.blocked sig = true) ∨ NoWaitAhead nloops side pc
  suspend : pc.point = some .suspend → proc.sigflag = false
  suspended : pc.point = some .suspended → proc.sigflag = false

variable {sig : Signal}

section Shield

variable {nloops : Nat} {mask : Signal → Bool} {sys sys' : System SigWait SigState}
variable {side : Side} {i : Nat} {point : SigWait} {pc : Pc SigWait} {proc proc' : SigState}

theorem not_noWaitAhead_wait : ¬ NoWaitAhead nloops side (.wait i point) := by
  cases side <;> exact not_false

theorem Shielded.blocked (hshield : Shielded nloops mask side (.wait i point) proc) (sig : Signal) :
    proc.blocked sig = true :=
  hshield.shield.elim (fun hblocked => hblocked sig) fun hno => absurd hno not_noWaitAhead_wait

theorem Shielded.goto {pc' : Pc SigWait} (hshield : Shielded nloops mask side pc proc)
    (hpoint : pc'.point ≠ some .suspend) (hpoint' : pc'.point ≠ some .suspended)
    (hahead : NoWaitAhead nloops side pc → NoWaitAhead nloops side pc') :
    Shielded nloops mask side pc' proc where
  oldmask := hshield.oldmask
  shield := hshield.shield.imp_right hahead
  suspend h := absurd h hpoint
  suspended h := absurd h hpoint'

theorem Shielded.told (hshield : Shielded nloops mask side pc proc) :
    Shielded nloops mask side pc (signals.tell side proc) :=
  ⟨hshield.oldmask, hshield.shield, hshield.suspend, hshield.suspended⟩

/-- The condition under which the shield stays up: there is one wait for each process, or
the signals were blocked from the start. -/
def OneWaitOrBlocked (nloops : Nat) (mask : Signal → Bool) : Prop :=
  nloops ≤ 2 ∨ ∀ sig, mask sig = true

theorem shield_after_wait (hcond : OneWaitOrBlocked nloops mask) (hi : side = .child → 0 < i) :
    (∀ sig, mask sig = true) ∨ NoWaitAhead nloops side (afterWait signals nloops side i) := by
  rcases hcond with hone | hmask
  · right
    cases side with
    | parent =>
      dsimp only [afterWait, head]
      rw [if_neg (by omega)]
      trivial
    | child =>
      have hpos := hi rfl
      show nloops < i + 2
      omega
  · exact .inl hmask

theorem afterTell_shielded (hshield : Shielded nloops mask side (.tell i) proc) :
    Shielded nloops mask side (afterTell signals nloops side i) proc := by
  cases side with
  | parent => exact hshield.goto nofun nofun False.elim
  | child =>
    dsimp only [afterTell, head]
    split
    · rename_i hmore
      refine hshield.goto nofun nofun fun hno => ?_
      exact absurd hno (by simp only [NoWaitAhead]; omega)
    · exact hshield.goto nofun nofun fun _ => trivial

section

variable (hshield : Shielded nloops mask side (.wait i point) proc)
include hshield

theorem Shielded.goes {next : SigWait}
    (hwait : signals.wait side point proc = some (some next, proc')) :
    Shielded nloops mask side (.wait i next) proc' := by
  have hblocked := hshield.blocked
  cases point with
  | test =>
    dsimp only [signals] at hwait
    cases hset : proc.sigflag with
    | true =>
      rw [hset] at hwait
      cases hwait
      exact ⟨hshield.oldmask, .inl hblocked, nofun, nofun⟩
    | false =>
      rw [hset] at hwait
      cases hwait
      exact ⟨hshield.oldmask, .inl hblocked, fun _ => hset, nofun⟩
  | suspend =>
    cases hwait
    exact ⟨hshield.oldmask, .inl hblocked, nofun, fun _ => hshield.suspend rfl⟩
  | suspended => cases hwait
  | clear =>
    cases hwait
    exact ⟨hshield.oldmask, .inl hblocked, nofun, nofun⟩
  | setmask => cases hwait

theorem Shielded.ends (hcond : OneWaitOrBlocked nloops mask) (hi : side = .child → 0 < i)
    (hwait : signals.wait side point proc = some (none, proc')) :
    Shielded nloops mask side (afterWait signals nloops side i) proc' := by
  have hpoint : (afterWait signals nloops side i).point = none := point_afterWait side i
  cases point with
  | test | suspend | suspended | clear => cases hwait
  | setmask =>
    cases hwait
    refine ⟨hshield.oldmask, ?_, ?_, ?_⟩
    · rw [hshield.oldmask]
      exact shield_after_wait hcond hi
    · rw [hpoint]
      nofun
    · rw [hpoint]
      nofun

theorem Shielded.awaken {next : SigWait}
    (hawaken : signals.awaken sig point proc = some (next, proc')) :
    Shielded nloops mask side (.wait i next) proc' := by
  dsimp only [signals] at hawaken
  rw [hshield.blocked sig, Bool.not_true, Bool.and_false] at hawaken
  split at hawaken
  · split at hawaken
    · cases hawaken
      exact ⟨hshield.oldmask, .inl hshield.blocked, nofun, nofun⟩
    · cases hawaken
  · cases hawaken

end

theorem Shielded.interrupt (hshield : Shielded nloops mask side pc proc) (hpoint : pc.point = none)
    (hinterrupt : signals.interrupt sig proc = some proc') :
    Shielded nloops mask side pc proc' := by
  dsimp only [signals] at hinterrupt
  split at hinterrupt
  · cases hinterrupt
    refine ⟨hshield.oldmask, hshield.shield, ?_, ?_⟩
    · rw [hpoint]
      nofun
    · rw [hpoint]
      nofun
  · cases hinterrupt

/-- Both processes are shielded. -/
def AllShielded (nloops : Nat) (mask : Signal → Bool) (sys : System SigWait SigState) : Prop :=
  ∀ side, Shielded nloops mask side (sys.pc side) (sys.mail side)

theorem Moves.shielded (hmoves : Moves sys side pc proc sys') (hall : AllShielded nloops mask sys)
    (hside : Shielded nloops mask side pc proc) : AllShielded nloops mask sys' := by
  refine side.both ?_ ?_
  · rw [hmoves.pc_self, hmoves.mail_self]
    exact hside
  · rw [hmoves.pc_other, hmoves.mail_other]
    exact hall side.other

theorem Turns.child_round (hturns : Turns signalsBaton nloops sys)
    (hpc : sys.pc side = .wait i point) : side = .child → 0 < i := by
  rintro rfl
  cases hturns.phase with
  | parent j _ _ hchild _ _ | toChild j _ _ _ hchild _ _ =>
    obtain ⟨point', hchild⟩ := hchild
    cases hchild.symm.trans hpc
    exact Nat.succ_pos j
  | child j _ hbusy _ _ _ =>
    rw [hpc] at hbusy
    exact hbusy.elim
  | toParent j _ _ _ hchild _ _ =>
    split at hchild
    · obtain ⟨point', hchild⟩ := hchild
      cases hchild.symm.trans hpc
      exact Nat.succ_pos (j + 2)
    · cases hchild.symm.trans hpc
  | ended _ hchild => cases hchild.symm.trans hpc

theorem AllShielded.run (hall : AllShielded nloops mask sys)
    (hcond : OneWaitOrBlocked nloops mask) (hturns : Turns signalsBaton nloops sys) {side : Side}
    (hrun : run signals nloops side sys = some sys') : AllShielded nloops mask sys' := by
  have hside := hall side
  unfold TellWait.run at hrun
  split at hrun
  case h_1 i hpc =>
    cases hrun
    rw [hpc] at hside
    refine (moves_goto sys side _).shielded hall (hside.goto nofun nofun ?_)
    cases side <;> exact id
  case h_2 i value hpc =>
    cases hrun
    rw [hpc] at hside
    have hmoves : Moves sys side (.check i value) (sys.mail side)
        ({ sys with area := value + 1 }.goto side (.check i value)) :=
      ⟨Function.update_self .., rfl, Function.update_of_ne side.other_ne .., rfl⟩
    refine hmoves.shielded hall (hside.goto nofun nofun ?_)
    cases side <;> exact id
  case h_3 i counter hpc =>
    cases hrun
    rw [hpc] at hside
    refine (moves_goto sys side _).shielded hall ?_
    split
    · refine hside.goto nofun nofun fun _ => ?_
      cases side <;> trivial
    · refine hside.goto nofun nofun ?_
      cases side <;> exact id
  case h_4 => cases hrun
  case h_5 i hpc =>
    cases hrun
    rw [hpc] at hside
    have hmoves := moves_post sys side.other (signals.tell side.other (sys.mail side.other))
    refine (moves_goto _ side _).shielded (hmoves.shielded hall (hall side.other).told) ?_
    have hmail : (sys.post side.other (signals.tell side.other (sys.mail side.other))).mail side =
        sys.mail side := Function.update_of_ne side.other_ne.symm ..
    rw [hmail]
    exact afterTell_shielded hside
  case h_6 i point hpc =>
    obtain ⟨⟨next, mail⟩, hwait, rfl⟩ := Option.map_eq_some_iff.mp hrun
    rw [hpc] at hside
    refine (moves_post_goto sys side mail _).shielded hall ?_
    cases next with
    | some next => exact hside.goes hwait
    | none => exact hside.ends hcond (hturns.child_round hpc) hwait
  case h_7 => cases hrun

theorem AllShielded.deliver (hall : AllShielded nloops mask sys)
    (hdeliver : deliver signals side sig sys = some sys') : AllShielded nloops mask sys' := by
  have hside := hall side
  unfold TellWait.deliver at hdeliver
  split at hdeliver
  case h_1 => cases hdeliver
  case h_2 => cases hdeliver
  case h_3 i point hpc =>
    obtain ⟨⟨next, mail⟩, hawaken, rfl⟩ := Option.map_eq_some_iff.mp hdeliver
    rw [hpc] at hside
    exact (moves_post_goto sys side mail _).shielded hall (hside.awaken hawaken)
  case h_4 hmismatch hdone hwait =>
    obtain ⟨mail, hinterrupt, rfl⟩ := Option.map_eq_some_iff.mp hdeliver
    refine (moves_post sys side mail).shielded hall (hside.interrupt ?_ hinterrupt)
    cases hpc : sys.pc side with
    | wait i point => exact absurd hpc (hwait i point)
    | _ => rfl

theorem allShielded_of_reached (hcond : OneWaitOrBlocked nloops mask)
    (hreached : Reached signals nloops (fun _ => tellWait mask) sys) :
    AllShielded nloops mask sys := by
  induction hreached with
  | start hinit =>
    subst hinit
    exact fun side => ⟨rfl, .inl fun _ => rfl, fun _ => rfl, fun _ => rfl⟩
  | step hreached hstep ih =>
    obtain ⟨action, hact⟩ := hstep
    cases action with
    | run side => exact ih.run hcond (signals_turns hreached) hact
    | deliver side sig => exact ih.deliver hact

theorem AllShielded.noLostWakeup (hall : AllShielded nloops mask sys) : NoLostWakeup sys := by
  intro side i hpc
  have hsuspended := (hall side).suspended
  rw [hpc] at hsuspended
  exact hsuspended rfl

theorem run_of_active (hactive : (sys.pc side).Active) :
    ∃ sys', act signals nloops (.run side) sys = some sys' := by
  dsimp only [act, run]
  cases hpc : sys.pc side with
  | load i | store i value | check i counter | tell i => exact ⟨_, rfl⟩
  | mismatch i counter | wait i point | done =>
    rw [hpc] at hactive
    exact hactive.elim

theorem step_of_told (hlost : NoLostWakeup sys) (hwaits : ∃ point, sys.pc side = .wait i point)
    (htold : signalsBaton.Told sys side) :
    ∃ action sys', act signals nloops action sys = some sys' := by
  obtain ⟨point, hpc⟩ := hwaits
  have hgoes : ∀ result, signals.wait side point (sys.mail side) = some result →
      ∃ action sys', act signals nloops action sys = some sys' := by
    intro result hwait
    refine ⟨.run side, ?_⟩
    dsimp only [act, run]
    rw [hpc]
    dsimp only
    rw [hwait]
    exact ⟨_, rfl⟩
  cases point with
  | test | suspend | clear | setmask => exact hgoes _ rfl
  | suspended =>
    rw [Baton.Told, hpc] at htold
    rcases htold with ⟨sig, hpending⟩ | hset | hpoint
    · have hawaken : signals.awaken sig .suspended (sys.mail side) =
          some (.test, (sys.mail side).caught sig) := if_pos hpending
      refine ⟨.deliver side sig, ?_⟩
      dsimp only [act, deliver]
      rw [hpc]
      dsimp only
      rw [hawaken]
      exact ⟨_, rfl⟩
    · rw [hlost side i hpc] at hset
      cases hset
    · cases hpoint

theorem Turns.not_deadlocked (hturns : Turns signalsBaton nloops sys) (hlost : NoLostWakeup sys) :
    ¬ Deadlocked nloops sys := by
  rintro ⟨hstuck, side, hpc⟩
  have hstep : ∃ action sys', TellWait.act signals nloops action sys = some sys' := by
    cases hturns.phase with
    | parent i _ hbusy _ _ _ | child i _ hbusy _ _ _ => exact ⟨_, run_of_active hbusy.active⟩
    | toChild i _ _ _ hchild _ htold | toParent i _ _ hchild _ htold _ =>
      exact step_of_told hlost hchild htold
    | ended hparent hchild =>
      cases side with
      | parent => exact absurd hparent hpc
      | child => exact absurd hchild hpc
  obtain ⟨action, sys', hact⟩ := hstep
  cases (hstuck action).symm.trans hact

end Shield

/-! ## A lost wakeup -/

/-- A wait in which the signal comes between the test of `sigflag` and `sigsuspend`. -/
def unlucky (side : Side) : List (Action Signal) :=
  [.run side, .deliver side (signalFor side), .run side]

def seen (side : Side) (sys : System SigWait SigState) : Pc SigWait × Bool :=
  (sys.pc side, (sys.mail side).sigflag)

theorem lost_by_child (more : Nat) (second : Bool) :
    (acts signals (more + 3) (secondRound ++ unlucky .child)
      (forked signals (more + 3) fun _ => tellWait fun
        | .usr1 => false
        | .usr2 => second)).map (seen .child) = some (.wait 3 .suspended, true) := by
  rfl

theorem lost_by_parent (more : Nat) (first : Bool) :
    (acts signals (more + 3) (secondRound ++ turn .child ++ unlucky .parent)
      (forked signals (more + 3) fun _ => tellWait fun
        | .usr1 => first
        | .usr2 => false)).map (seen .parent) = some (.wait 2 .suspended, true) := by
  rfl

theorem reached_seen {nloops : Nat} {mask : Signal → Bool} {actions : List (Action Signal)}
    {side : Side} {view : Pc SigWait × Bool}
    (hseen : (acts signals nloops actions (forked signals nloops fun _ => tellWait mask)).map
      (seen side) = some view) :
    ∃ sys, Reached signals nloops (fun _ => tellWait mask) sys ∧ sys.pc side = view.1 ∧
      (sys.mail side).sigflag = view.2 := by
  obtain ⟨sys, hacts, rfl⟩ := Option.map_eq_some_iff.mp hseen
  exact ⟨sys, reached_of_acts hacts, rfl, rfl⟩

theorem lost_of_unblocked {nloops : Nat} {mask : Signal → Bool} (hmore : 2 < nloops)
    (hsig : mask sig = false) :
    ∃ sys, Reached signals nloops (fun _ => tellWait mask) sys ∧ ¬ NoLostWakeup sys := by
  obtain ⟨more, rfl⟩ := Nat.exists_eq_add_of_le' hmore
  have hlost : ∀ {side i}, (∃ sys, Reached signals (more + 3) (fun _ => tellWait mask) sys ∧
      sys.pc side = .wait i .suspended ∧ (sys.mail side).sigflag = true) →
      ∃ sys, Reached signals (more + 3) (fun _ => tellWait mask) sys ∧ ¬ NoLostWakeup sys := by
    rintro side i ⟨sys, hreached, hpc, hset⟩
    refine ⟨sys, hreached, fun hnone => ?_⟩
    rw [hnone side i hpc] at hset
    cases hset
  cases sig with
  | usr1 =>
    have hmask : mask = fun
        | .usr1 => false
        | .usr2 => mask .usr2 := by
      funext which
      cases which
      · exact hsig
      · rfl
    refine hlost (@reached_seen _ _ (secondRound ++ unlucky .child) .child
      (.wait 3 .suspended, true) ?_)
    rw [hmask]
    exact lost_by_child more (mask .usr2)
  | usr2 =>
    have hmask : mask = fun
        | .usr1 => mask .usr1
        | .usr2 => false := by
      funext which
      cases which
      · rfl
      · exact hsig
    refine hlost (@reached_seen _ _ (secondRound ++ turn .child ++ unlucky .parent) .parent
      (.wait 2 .suspended, true) ?_)
    rw [hmask]
    exact lost_by_parent more (mask .usr1)

/-- No wakeup is ever lost, and the two processes never both wait forever, exactly when
each process waits only once or both signals were blocked before `TELL_WAIT`. -/
theorem no_lost_wakeup_iff (nloops : Nat) (mask : Signal → Bool) :
    (∀ sys, Reached signals nloops (fun _ => tellWait mask) sys →
      NoLostWakeup sys ∧ ¬ Deadlocked nloops sys) ↔ OneWaitOrBlocked nloops mask := by
  constructor
  · intro hnone
    by_contra hcond
    obtain ⟨hmore, hmask⟩ := not_or.mp hcond
    obtain ⟨sig, hsig⟩ := not_forall.mp hmask
    obtain ⟨sys, hreached, hlost⟩ :=
      lost_of_unblocked (Nat.lt_of_not_le hmore) (Bool.eq_false_of_not_eq_true hsig)
    exact hlost (hnone sys hreached).1
  · intro hcond sys hreached
    have hlost := (allShielded_of_reached hcond hreached).noLostWakeup
    exact ⟨hlost, (signals_turns hreached).not_deadlocked hlost⟩

/-- With the thousand rounds of `devzero` and no signal blocked at the start, the parent
can be suspended with its notification delivered, and then both wait forever. -/
theorem lost_wakeup_deadlocks : ∃ sys, Reached signals 1000 (fun _ => tellWait fun _ => false) sys ∧
      sys.pc .parent = .wait 2 .suspended ∧ (sys.mail .parent).sigflag = true ∧
      Deadlocked 1000 sys := by
  refine ⟨_, @reached_of_acts _ _ _ _ signals _
    (secondRound ++ turn .child ++ unlucky .parent ++ steps .child 2) _ rfl,
    rfl, rfl, ?_, .parent, nofun⟩
  intro action
  cases action with
  | run side => cases side <;> rfl
  | deliver side sig => cases side <;> cases sig <;> rfl

end ApueFormal.TellWait
