import ApueFormal.TellWait.Model

/-!
# The baton

A notification that has been sent and whose wait has not ended is a baton in the
air.  A mechanism that neither loses nor doubles the baton makes the two
processes take turns: at any time one of them has it, or it is in the air.
-/

namespace ApueFormal.TellWait

open Function Libc Program

/-- The point of a process in its wait, if it waits. -/
def Pc.point {W : Type} : Pc W → Option W
  | .wait _ point => some point
  | _ => none

/-- What a mechanism must do: `sent` says that a side has been told and its wait has
not ended. -/
structure Baton {W M Ev : Type} (mech : Mechanism W M Ev) where
  sent : Option W → M → Prop
  inv : Side → Option W → M → Prop
  start : ∀ {side mail}, inv side none mail → ¬ sent none mail →
    inv side (some mech.start) mail ∧ ¬ sent (some mech.start) mail
  tell : ∀ {side point mail}, inv side point mail → ¬ sent point mail →
    inv side point (mech.tell side mail) ∧ sent point (mech.tell side mail)
  goes : ∀ {side point mail point' mail'}, inv side (some point) mail →
    mech.wait side point mail = some (some point', mail') →
    inv side (some point') mail' ∧ (sent (some point') mail' ↔ sent (some point) mail)
  ends : ∀ {side point mail mail'}, inv side (some point) mail →
    mech.wait side point mail = some (none, mail') →
    inv side none mail' ∧ sent (some point) mail ∧ ¬ sent none mail'
  interrupt : ∀ {side ev mail mail'}, inv side none mail → mech.interrupt ev mail = some mail' →
    inv side none mail' ∧ (sent none mail' ↔ sent none mail)
  awaken : ∀ {side ev point mail point' mail'}, inv side (some point) mail →
    mech.awaken ev point mail = some (point', mail') →
    inv side (some point') mail' ∧ (sent (some point') mail' ↔ sent (some point) mail)

/-- A process has the baton in the round with this number: it updates the counter and
tells the other one. -/
def Busy {W : Type} (area i : Nat) : Pc W → Prop
  | .load j => j = i ∧ area = i
  | .store j value => j = i ∧ value = i ∧ area = i
  | .check j counter => j = i ∧ counter = i ∧ area = i + 1
  | .tell j => j = i ∧ area = i + 1
  | _ => False

/-- A process is between a completed wait and the next tell. -/
def Pc.Active {W : Type} : Pc W → Prop
  | .load _ => True
  | .store _ _ => True
  | .check _ _ => True
  | .tell _ => True
  | _ => False

section Turns

variable {W M Ev : Type} {mech : Mechanism W M Ev} {nloops : Nat}

/-- A side has been told and its wait has not ended. -/
def Baton.Told (baton : Baton mech) (sys : System W M) (side : Side) : Prop :=
  baton.sent (sys.pc side).point (sys.mail side)

/-- Who has the baton in the round in which the parent has the number `i`. -/
inductive Phase (baton : Baton mech) (nloops : Nat) (sys : System W M) : Prop where
  | parent (i : Nat) (hi : i < nloops) (hbusy : Busy sys.area i (sys.pc .parent))
      (hchild : ∃ point, sys.pc .child = .wait (i + 1) point)
      (htold : ¬ baton.Told sys .parent) (htold' : ¬ baton.Told sys .child)
  | toChild (i : Nat) (hi : i < nloops) (harea : sys.area = i + 1)
      (hparent : ∃ point, sys.pc .parent = .wait i point)
      (hchild : ∃ point, sys.pc .child = .wait (i + 1) point)
      (htold : ¬ baton.Told sys .parent) (htold' : baton.Told sys .child)
  | child (i : Nat) (hi : i < nloops) (hbusy : Busy sys.area (i + 1) (sys.pc .child))
      (hparent : ∃ point, sys.pc .parent = .wait i point)
      (htold : ¬ baton.Told sys .parent) (htold' : ¬ baton.Told sys .child)
  | toParent (i : Nat) (hi : i < nloops) (harea : sys.area = i + 2)
      (hparent : ∃ point, sys.pc .parent = .wait i point)
      (hchild : if i + 2 < nloops then ∃ point, sys.pc .child = .wait (i + 3) point
        else sys.pc .child = .done)
      (htold : baton.Told sys .parent) (htold' : ¬ baton.Told sys .child)
  | ended (hparent : sys.pc .parent = .done) (hchild : sys.pc .child = .done)

structure Turns (baton : Baton mech) (nloops : Nat) (sys : System W M) : Prop where
  mail : ∀ side, baton.inv side (sys.pc side).point (sys.mail side)
  phase : Phase baton nloops sys

/-! ## Steps that leave the baton where it is -/

/-- A process is at the same place, or at another point of the same wait. -/
def SamePlace (pc pc' : Pc W) : Prop :=
  pc' = pc ∨ ∃ i point point', pc = .wait i point ∧ pc' = .wait i point'

variable {i j : Nat} {point : W} {pc : Pc W}

theorem SamePlace.waits {pc' : Pc W} (hsame : SamePlace pc pc')
    (hwaits : ∃ point, pc = .wait i point) : ∃ point, pc' = .wait i point := by
  obtain ⟨point, rfl⟩ := hwaits
  rcases hsame with rfl | ⟨j, first, second, hpc, rfl⟩
  · exact ⟨point, rfl⟩
  · obtain ⟨rfl, _⟩ := Pc.wait.inj hpc
    exact ⟨second, rfl⟩

theorem SamePlace.busy {pc' : Pc W} (hsame : SamePlace pc pc') {area i : Nat}
    (hbusy : Busy area i pc) : Busy area i pc' := by
  rcases hsame with rfl | ⟨j, first, second, rfl, rfl⟩
  · exact hbusy
  · exact hbusy.elim

theorem SamePlace.done {pc' : Pc W} (hsame : SamePlace pc pc') (hdone : pc = .done) :
    pc' = .done := by
  rcases hsame with rfl | ⟨j, first, second, hpc, rfl⟩
  · exact hdone
  · rw [hdone] at hpc
    cases hpc

variable {baton : Baton mech} {sys sys' : System W M}

theorem Phase.quiet (hphase : Phase baton nloops sys) (harea : sys'.area = sys.area)
    (hsame : ∀ side, SamePlace (sys.pc side) (sys'.pc side))
    (htold : ∀ side, baton.Told sys' side ↔ baton.Told sys side) : Phase baton nloops sys' := by
  cases hphase with
  | parent i hi hbusy hchild hnot hnot' =>
    refine .parent i hi ?_ ((hsame _).waits hchild) (by rwa [htold]) (by rwa [htold])
    rw [harea]
    exact (hsame _).busy hbusy
  | toChild i hi hcount hparent hchild hnot hsent =>
    exact .toChild i hi (harea.trans hcount) ((hsame _).waits hparent)
      ((hsame _).waits hchild) (by rwa [htold]) (by rwa [htold])
  | child i hi hbusy hparent hnot hnot' =>
    refine .child i hi ?_ ((hsame _).waits hparent) (by rwa [htold]) (by rwa [htold])
    rw [harea]
    exact (hsame _).busy hbusy
  | toParent i hi hcount hparent hchild hsent hnot =>
    refine .toParent i hi (harea.trans hcount) ((hsame _).waits hparent) ?_ (by rwa [htold])
      (by rwa [htold])
    split at hchild
    · rename_i hmore
      rw [if_pos hmore]
      exact (hsame _).waits hchild
    · rename_i hlast
      rw [if_neg hlast]
      exact (hsame _).done hchild
  | ended hparent hchild => exact .ended ((hsame _).done hparent) ((hsame _).done hchild)

/-! ## Who has the baton -/

theorem Busy.active {area : Nat} (hbusy : Busy area i pc) : pc.Active := by
  cases pc with
  | load j | store j value | check j counter | tell j => trivial
  | mismatch j counter | wait j point | done => exact hbusy.elim

theorem point_of_active (hactive : pc.Active) : pc.point = none := by
  cases pc with
  | wait j point => exact hactive.elim
  | _ => rfl

theorem point_afterWait (side : Side) (i : Nat) : (afterWait mech nloops side i).point = none := by
  cases side with
  | parent =>
    dsimp only [afterWait, head]
    split <;> rfl
  | child => rfl

theorem not_active_of_waits (hwaits : ∃ point, pc = .wait i point) : ¬ pc.Active := by
  obtain ⟨point, rfl⟩ := hwaits
  exact not_false

variable {side : Side}

section

variable (hphase : Phase baton nloops sys)
include hphase

theorem Phase.of_parent (hactive : (sys.pc .parent).Active) :
    ∃ i, i < nloops ∧ Busy sys.area i (sys.pc .parent) ∧
      (∃ point, sys.pc .child = .wait (i + 1) point) ∧
      ¬ baton.Told sys .parent ∧ ¬ baton.Told sys .child := by
  cases hphase with
  | parent i hi hbusy hchild hnot hnot' => exact ⟨i, hi, hbusy, hchild, hnot, hnot'⟩
  | toChild i hi hcount hparent hchild hnot hsent
  | toParent i hi hcount hparent hchild hsent hnot =>
    exact absurd hactive (not_active_of_waits hparent)
  | child i hi hbusy hparent hnot hnot' => exact absurd hactive (not_active_of_waits hparent)
  | ended hparent hchild =>
    rw [hparent] at hactive
    exact hactive.elim

theorem Phase.of_child (hactive : (sys.pc .child).Active) :
    ∃ i, i < nloops ∧ Busy sys.area (i + 1) (sys.pc .child) ∧
      (∃ point, sys.pc .parent = .wait i point) ∧
      ¬ baton.Told sys .parent ∧ ¬ baton.Told sys .child := by
  cases hphase with
  | parent i hi hbusy hchild hnot hnot' => exact absurd hactive (not_active_of_waits hchild)
  | toChild i hi hcount hparent hchild hnot hsent =>
    exact absurd hactive (not_active_of_waits hchild)
  | child i hi hbusy hparent hnot hnot' => exact ⟨i, hi, hbusy, hparent, hnot, hnot'⟩
  | toParent i hi hcount hparent hchild hsent hnot =>
    split at hchild
    · exact absurd hactive (not_active_of_waits hchild)
    · rw [hchild] at hactive
      exact hactive.elim
  | ended hparent hchild =>
    rw [hchild] at hactive
    exact hactive.elim

theorem Phase.not_both : ¬ ((sys.pc .parent).Active ∧ (sys.pc .child).Active) := by
  rintro ⟨hparent, hchild⟩
  obtain ⟨i, _, _, hwaits, _⟩ := hphase.of_parent hparent
  exact not_active_of_waits hwaits hchild

theorem Phase.busy (hactive : (sys.pc side).Active) : ∃ i, Busy sys.area i (sys.pc side) := by
  cases side with
  | parent =>
    obtain ⟨i, _, hbusy, _⟩ := hphase.of_parent hactive
    exact ⟨i, hbusy⟩
  | child =>
    obtain ⟨i, _, hbusy, _⟩ := hphase.of_child hactive
    exact ⟨i + 1, hbusy⟩

theorem Phase.work (hactive : (sys.pc side).Active)
    (hbusy : ∀ i, Busy sys.area i (sys.pc side) → Busy sys'.area i (sys'.pc side))
    (hother : sys'.pc side.other = sys.pc side.other) (hmail : sys'.mail = sys.mail) :
    Phase baton nloops sys' := by
  have htold : baton.Told sys' side.other ↔ baton.Told sys side.other := by
    rw [Baton.Told, Baton.Told, hother, hmail]
  cases side with
  | parent =>
    dsimp only [Side.other] at hother htold
    obtain ⟨i, hi, hholds, hchild, hnot, hnot'⟩ := hphase.of_parent hactive
    have hholds' := hbusy i hholds
    refine .parent i hi hholds' (by rwa [hother]) ?_ (by rwa [htold])
    rw [Baton.Told, point_of_active hholds'.active, hmail]
    rwa [Baton.Told, point_of_active hactive] at hnot
  | child =>
    dsimp only [Side.other] at hother htold
    obtain ⟨i, hi, hholds, hparent, hnot, hnot'⟩ := hphase.of_child hactive
    have hholds' := hbusy (i + 1) hholds
    refine .child i hi hholds' (by rwa [hother]) (by rwa [htold]) ?_
    rw [Baton.Told, point_of_active hholds'.active, hmail]
    rwa [Baton.Told, point_of_active hactive] at hnot'

theorem Phase.tell_parent (hpc : sys.pc .parent = .tell j)
    (hpc' : sys'.pc .parent = .wait j point) (hother : sys'.pc .child = sys.pc .child)
    (harea : sys'.area = sys.area) (hnot : ¬ baton.Told sys' .parent)
    (hsent : baton.Told sys' .child) : Phase baton nloops sys' := by
  obtain ⟨i, hi, hbusy, hchild, _, _⟩ := hphase.of_parent (by rw [hpc]; trivial)
  rw [hpc] at hbusy
  obtain ⟨rfl, hcount⟩ := hbusy
  exact .toChild j hi (harea.trans hcount) ⟨point, hpc'⟩ (by rwa [hother]) hnot hsent

theorem Phase.tell_child (hpc : sys.pc .child = .tell j)
    (hpc' : sys'.pc .child = head mech nloops .child (j + 2))
    (hother : sys'.pc .parent = sys.pc .parent) (harea : sys'.area = sys.area)
    (hsent : baton.Told sys' .parent) (hnot : ¬ baton.Told sys' .child) :
    Phase baton nloops sys' := by
  obtain ⟨i, hi, hbusy, hparent, _, _⟩ := hphase.of_child (by rw [hpc]; trivial)
  rw [hpc] at hbusy
  obtain ⟨rfl, hcount⟩ := hbusy
  refine .toParent i hi (harea.trans hcount) (by rwa [hother]) ?_ hsent hnot
  rw [hpc', head]
  split
  · rw [if_pos (by omega)]
    exact ⟨mech.start, rfl⟩
  · rw [if_neg (by omega)]

theorem Phase.catch_parent (htold : baton.Told sys .parent) (hpc : sys.pc .parent = .wait j point)
    (hpc' : sys'.pc .parent = head mech nloops .parent (j + 2))
    (hother : sys'.pc .child = sys.pc .child) (harea : sys'.area = sys.area)
    (hnot : ¬ baton.Told sys' .parent) (hsame : baton.Told sys' .child ↔ baton.Told sys .child) :
    Phase baton nloops sys' := by
  cases hphase with
  | parent i hi hbusy hchild hnot' | toChild i hi hcount hparent hchild hnot'
  | child i hi hbusy hparent hnot' => exact absurd htold hnot'
  | toParent i hi hcount hparent hchild hsent hfree =>
    obtain ⟨first, hwaits⟩ := hparent
    obtain ⟨rfl, _⟩ := Pc.wait.inj (hpc.symm.trans hwaits)
    rw [head] at hpc'
    split at hchild
    · rename_i hmore
      rw [if_pos hmore] at hpc'
      refine .parent (j + 2) hmore ?_ (by rwa [hother]) hnot (by rwa [hsame])
      rw [hpc', harea]
      exact ⟨rfl, hcount⟩
    · rename_i hlast
      rw [if_neg hlast] at hpc'
      exact .ended hpc' (hother.trans hchild)
  | ended hparent hchild =>
    rw [hpc] at hparent
    cases hparent

theorem Phase.catch_child (htold : baton.Told sys .child)
    (hpc : sys.pc .child = .wait j point) (hpc' : sys'.pc .child = .load j)
    (hother : sys'.pc .parent = sys.pc .parent) (harea : sys'.area = sys.area)
    (hnot : ¬ baton.Told sys' .child) (hsame : baton.Told sys' .parent ↔ baton.Told sys .parent) :
    Phase baton nloops sys' := by
  cases hphase with
  | parent i hi hbusy hchild hnot' hfree | child i hi hbusy hparent hnot' hfree
  | toParent i hi hcount hparent hchild hsent hfree => exact absurd htold hfree
  | toChild i hi hcount hparent hchild hnot' hsent =>
    obtain ⟨first, hwaits⟩ := hchild
    obtain ⟨rfl, _⟩ := Pc.wait.inj (hpc.symm.trans hwaits)
    refine .child i hi ?_ (by rwa [hother]) (by rwa [hsame]) hnot
    rw [hpc', harea]
    exact ⟨rfl, hcount⟩
  | ended hparent hchild =>
    rw [hpc] at hchild
    cases hchild

end

theorem Side.other_ne (side : Side) : side.other ≠ side := by
  cases side <;> decide

theorem Side.both (side : Side) {prop : Side → Prop} (hside : prop side)
    (hother : prop side.other) : ∀ which, prop which := by
  intro which
  cases side <;> cases which <;> assumption

/-- The places and the mail of the system after a step of one side. -/
structure Moves (sys : System W M) (side : Side) (pc : Pc W) (mail : M) (sys' : System W M) :
    Prop where
  pc_self : sys'.pc side = pc
  mail_self : sys'.mail side = mail
  pc_other : sys'.pc side.other = sys.pc side.other
  mail_other : sys'.mail side.other = sys.mail side.other

section

variable (sys : System W M) (side : Side)

theorem moves_goto (pc : Pc W) :
    Moves sys side pc (sys.mail side) (sys.goto side pc) where
  pc_self := update_self ..
  mail_self := rfl
  pc_other := update_of_ne side.other_ne ..
  mail_other := rfl

theorem moves_post_goto (mail : M) (pc : Pc W) :
    Moves sys side pc mail ((sys.post side mail).goto side pc) where
  pc_self := update_self ..
  mail_self := update_self ..
  pc_other := update_of_ne side.other_ne ..
  mail_other := update_of_ne side.other_ne ..

theorem moves_post (mail : M) :
    Moves sys side (sys.pc side) mail (sys.post side mail) where
  pc_self := rfl
  mail_self := update_self ..
  pc_other := rfl
  mail_other := update_of_ne side.other_ne ..

end

namespace Moves

variable {mail : M}

section

variable (hmoves : Moves sys side pc mail sys')
include hmoves

theorem told_other : baton.Told sys' side.other ↔ baton.Told sys side.other := by
  rw [Baton.Told, Baton.Told, hmoves.pc_other, hmoves.mail_other]

theorem told_self : baton.Told sys' side ↔ baton.sent pc.point mail := by
  rw [Baton.Told, hmoves.pc_self, hmoves.mail_self]

theorem mail_inv (hturns : Turns baton nloops sys) (hinv : baton.inv side pc.point mail) :
    ∀ which, baton.inv which (sys'.pc which).point (sys'.mail which) := by
  refine side.both ?_ ?_
  · rw [hmoves.pc_self, hmoves.mail_self]
    exact hinv
  · rw [hmoves.pc_other, hmoves.mail_other]
    exact hturns.mail side.other

theorem quiet (hturns : Turns baton nloops sys) (harea : sys'.area = sys.area)
    (hsame : SamePlace (sys.pc side) pc) (hinv : baton.inv side pc.point mail)
    (hsent : baton.sent pc.point mail ↔ baton.Told sys side) : Turns baton nloops sys' where
  mail := hmoves.mail_inv hturns hinv
  phase := by
    refine hturns.phase.quiet harea (side.both ?_ ?_) (side.both ?_ ?_)
    · rw [hmoves.pc_self]
      exact hsame
    · exact .inl hmoves.pc_other
    · exact hmoves.told_self.trans hsent
    · exact hmoves.told_other

end

theorem work (hmoves : Moves sys side pc (sys.mail side) sys') (hturns : Turns baton nloops sys)
    (hactive : (sys.pc side).Active) (hpoint : pc.point = none)
    (hbusy : ∀ i, Busy sys.area i (sys.pc side) → Busy sys'.area i pc) :
    Turns baton nloops sys' where
  mail := by
    refine hmoves.mail_inv hturns ?_
    have hinv := hturns.mail side
    rw [point_of_active hactive] at hinv
    rwa [hpoint]
  phase := by
    refine hturns.phase.work hactive ?_ hmoves.pc_other ?_
    · rw [hmoves.pc_self]
      exact hbusy
    · exact funext (side.both hmoves.mail_self hmoves.mail_other)

end Moves

section

variable (hturns : Turns baton nloops sys)
include hturns

theorem Turns.tell (hpc : sys.pc side = .tell i) :
    Turns baton nloops ((sys.post side.other (mech.tell side.other (sys.mail side.other))).goto
      side (afterTell mech nloops side i)) := by
  have hactive : (sys.pc side).Active := by
    rw [hpc]
    trivial
  have hnone : (sys.pc side).point = none := point_of_active hactive
  generalize hnew : (sys.post side.other (mech.tell side.other (sys.mail side.other))).goto
    side (afterTell mech nloops side i) = sys'
  have hself : sys'.pc side = afterTell mech nloops side i := by
    rw [← hnew]
    exact update_self ..
  have hother : sys'.pc side.other = sys.pc side.other := by
    rw [← hnew]
    exact update_of_ne side.other_ne ..
  have hmail : sys'.mail side = sys.mail side := by
    rw [← hnew]
    exact update_of_ne side.other_ne.symm ..
  have hmail' : sys'.mail side.other = mech.tell side.other (sys.mail side.other) := by
    rw [← hnew]
    exact update_self ..
  have harea : sys'.area = sys.area := by
    rw [← hnew]
    rfl
  have hidle : ¬ baton.Told sys side ∧ ¬ baton.Told sys side.other := by
    cases side with
    | parent =>
      obtain ⟨_, _, _, _, hnot, hnot'⟩ := hturns.phase.of_parent hactive
      exact ⟨hnot, hnot'⟩
    | child =>
      obtain ⟨_, _, _, _, hnot, hnot'⟩ := hturns.phase.of_child hactive
      exact ⟨hnot', hnot⟩
  obtain ⟨hinv', hsent⟩ := baton.tell (hturns.mail side.other) hidle.2
  have hinv := hturns.mail side
  have hnot := hidle.1
  rw [Baton.Told, hnone] at hnot
  rw [hnone] at hinv
  have hafter : baton.inv side (afterTell mech nloops side i).point (sys.mail side) ∧
      ¬ baton.sent (afterTell mech nloops side i).point (sys.mail side) := by
    cases side with
    | parent => exact baton.start hinv hnot
    | child =>
      dsimp only [afterTell, head]
      split
      · exact baton.start hinv hnot
      · exact ⟨hinv, hnot⟩
  have htold : ¬ baton.Told sys' side := by
    rw [Baton.Told, hself, hmail]
    exact hafter.2
  have htold' : baton.Told sys' side.other := by
    rw [Baton.Told, hother, hmail']
    exact hsent
  refine ⟨side.both ?_ ?_, ?_⟩
  · rw [hself, hmail]
    exact hafter.1
  · rw [hother, hmail']
    exact hinv'
  · cases side with
    | parent => exact hturns.phase.tell_parent hpc hself hother harea htold htold'
    | child => exact hturns.phase.tell_child hpc hself hother harea htold' htold

theorem Turns.run (hrun : run mech nloops side sys = some sys') : Turns baton nloops sys' := by
  unfold TellWait.run at hrun
  split at hrun
  case h_1 i hpc =>
    cases hrun
    refine (moves_goto sys side _).work hturns (by rw [hpc]; trivial) rfl ?_
    rw [hpc]
    rintro j ⟨rfl, harea⟩
    exact ⟨rfl, harea, harea⟩
  case h_2 i value hpc =>
    cases hrun
    have hmoves : Moves sys side (.check i value) (sys.mail side)
        ({ sys with area := value + 1 }.goto side (.check i value)) :=
      ⟨update_self .., rfl, update_of_ne side.other_ne .., rfl⟩
    refine hmoves.work hturns (by rw [hpc]; trivial) rfl ?_
    rw [hpc]
    rintro j ⟨rfl, rfl, _⟩
    exact ⟨rfl, rfl, rfl⟩
  case h_3 i counter hpc =>
    cases hrun
    have hactive : (sys.pc side).Active := by
      rw [hpc]
      trivial
    obtain ⟨j, hbusy⟩ := hturns.phase.busy hactive
    rw [hpc] at hbusy
    obtain ⟨rfl, rfl, _⟩ := hbusy
    rw [if_neg (not_not.mpr rfl)]
    refine (moves_goto sys side _).work hturns hactive rfl ?_
    rw [hpc]
    rintro k ⟨rfl, _, harea⟩
    exact ⟨rfl, harea⟩
  case h_4 => cases hrun
  case h_5 i hpc =>
    cases hrun
    exact hturns.tell hpc
  case h_6 i point hpc =>
    obtain ⟨⟨next, mail⟩, hwait, rfl⟩ := Option.map_eq_some_iff.mp hrun
    have hinv := hturns.mail side
    rw [hpc] at hinv
    have htold : baton.Told sys side ↔ baton.sent (some point) (sys.mail side) := by
      rw [Baton.Told, hpc]
      rfl
    cases next with
    | some next =>
      obtain ⟨hinv', hsent⟩ := baton.goes hinv hwait
      refine (moves_post_goto sys side mail _).quiet hturns rfl ?_ hinv' (hsent.trans htold.symm)
      exact .inr ⟨i, point, next, hpc, rfl⟩
    | none =>
      obtain ⟨hinv', hsent, hnot⟩ := baton.ends hinv hwait
      have hmoves := moves_post_goto sys side mail (afterWait mech nloops side i)
      have hpoint : (afterWait mech nloops side i).point = none := point_afterWait side i
      refine ⟨hmoves.mail_inv hturns (by rwa [hpoint]), ?_⟩
      have hnot' : ¬ baton.Told ((sys.post side mail).goto side (afterWait mech nloops side i))
          side := by
        rw [hmoves.told_self, hpoint]
        exact hnot
      cases side with
      | parent =>
        exact hturns.phase.catch_parent (htold.mpr hsent) hpc hmoves.pc_self hmoves.pc_other
          rfl hnot' hmoves.told_other
      | child =>
        exact hturns.phase.catch_child (htold.mpr hsent) hpc hmoves.pc_self hmoves.pc_other
          rfl hnot' hmoves.told_other
  case h_7 => cases hrun

theorem Turns.deliver {ev : Ev} (hdeliver : deliver mech side ev sys = some sys') :
    Turns baton nloops sys' := by
  have hinv := hturns.mail side
  unfold TellWait.deliver at hdeliver
  split at hdeliver
  case h_1 => cases hdeliver
  case h_2 => cases hdeliver
  case h_3 i point hpc =>
    obtain ⟨⟨next, mail⟩, hawaken, rfl⟩ := Option.map_eq_some_iff.mp hdeliver
    rw [hpc] at hinv
    obtain ⟨hinv', hsent⟩ := baton.awaken hinv hawaken
    refine (moves_post_goto sys side mail _).quiet hturns rfl ?_ hinv' ?_
    · exact .inr ⟨i, point, next, hpc, rfl⟩
    · rw [Baton.Told, hpc]
      exact hsent
  case h_4 hmismatch hdone hwait =>
    obtain ⟨mail, hinterrupt, rfl⟩ := Option.map_eq_some_iff.mp hdeliver
    have hnone : (sys.pc side).point = none := by
      cases hpc : sys.pc side with
      | wait i point => exact absurd hpc (hwait i point)
      | _ => rfl
    rw [hnone] at hinv
    obtain ⟨hinv', hsent⟩ := baton.interrupt hinv hinterrupt
    refine (moves_post sys side mail).quiet hturns rfl (.inl rfl) (by rwa [hnone]) ?_
    rw [Baton.Told, hnone]
    exact hsent

theorem Turns.act {action : Action Ev}
    (hact : act mech nloops action sys = some sys') : Turns baton nloops sys' := by
  cases action with
  | run side => exact hturns.run hact
  | deliver side ev => exact hturns.deliver hact

end

variable {mail : Side → M} (hinv : ∀ side, baton.inv side none (mail side))
  (hnot : ∀ side, ¬ baton.sent none (mail side))
include hinv hnot

theorem turns_forked : Turns baton nloops (forked mech nloops mail) := by
  have hchild := baton.start (hinv .child) (hnot .child)
  by_cases hzero : 0 < nloops
  · have hparent : (forked mech nloops mail).pc .parent = .load 0 := if_pos hzero
    have hwaits : (forked mech nloops mail).pc .child = .wait 1 mech.start :=
      if_pos (Nat.succ_lt_succ hzero)
    refine ⟨Side.both .parent ?_ ?_, .parent 0 hzero ?_ ⟨_, hwaits⟩ ?_ ?_⟩
    · rw [hparent]
      exact hinv .parent
    · rw [Side.other, hwaits]
      exact hchild.1
    · rw [hparent]
      exact ⟨rfl, rfl⟩
    · rw [Baton.Told, hparent]
      exact hnot .parent
    · rw [Baton.Told, hwaits]
      exact hchild.2
  · have hparent : (forked mech nloops mail).pc .parent = .done := if_neg hzero
    have hdone : (forked mech nloops mail).pc .child = .done :=
      if_neg fun hlt => hzero (Nat.lt_of_succ_lt_succ hlt)
    refine ⟨Side.both .parent ?_ ?_, .ended hparent hdone⟩
    · rw [hparent]
      exact hinv .parent
    · rw [Side.other, hdone]
      exact hinv .child

theorem Reached.turns (hreached : Reached mech nloops mail sys) : Turns baton nloops sys := by
  refine Reaches.invariant ?_ ?_ hreached
  · rintro state rfl
    exact turns_forked hinv hnot
  · rintro state state' hturns ⟨action, hact⟩
    exact hturns.act hact

end Turns

end ApueFormal.TellWait
