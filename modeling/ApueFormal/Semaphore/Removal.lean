import ApueFormal.Semaphore.Counter

/-!
# Removal of a set in use

`sem_close` reads the counter and then removes the set.  Its lock keeps `sem_create`
and other calls of `sem_close` away in between, but `sem_open` takes no lock.
-/

namespace ApueFormal.Semaphore

open Function Libc Program

section Effects

variable {P : Type}

def Action.proc : Action P → P
  | .call proc _ => proc
  | .run proc => proc
  | .noSpace proc => proc
  | .exit proc => proc

variable [DecidableEq P]

inductive Effect (state : State P) : Action P → Option (SemSet P) → Prop where
  | same (action : Action P) : Effect state action state.live
  | create {proc : P} (hlive : state.live = none) :
      Effect state (.run proc) (some (newSet P state.next))
  | setval0 {proc : P} {id : Nat} {initval : Int} {set : SemSet P}
      (hpc : state.pc proc = .createSet0 id initval) (hfind : state.find id = some set) :
      Effect state (.run proc) (some { set with toSems := set.setval 0 initval })
  | setval1 {proc : P} {id : Nat} {set : SemSet P}
      (hpc : state.pc proc = .createSet1 id) (hfind : state.find id = some set) :
      Effect state (.run proc)
        (some { set with toSems := set.setval 1 bigcount, initialised := true })
  | remove {proc : P} {id : Nat} {set : SemSet P}
      (hpc : state.pc proc = .closeRemove id) (hfind : state.find id = some set) :
      Effect state (.run proc) none
  | semop {proc : P} {call : Semcall} {set : SemSet P} {sems : Sems P (Fin 3)}
      (hcall : (state.pc proc).semcall = some call) (hfind : state.find call.id = some set)
      (hdone : semop proc call.ops set.toSems = .done sems) :
      Effect state (.run proc) (some { set with toSems := sems })
  | exit {proc : P} :
      Effect state (.exit proc)
        (state.live.map fun set => { set with toSems := set.toSems.exit proc })

variable {key : Int} {state state' : State P} {action : Action P} {proc : P}

theorem Acted.effect (hacted : Acted key state action state') :
    Effect state action state'.live := by
  cases hacted with
  | run hran =>
    cases hran with
    | create _ hlive => exact .create hlive
    | set0 hpc hfind => exact .setval0 hpc hfind
    | set1 hpc hfind => exact .setval1 hpc hfind
    | remove hpc hfind => exact .remove hpc hfind
    | done hcall hfind hdone => exact .semop hcall hfind hdone
    | _ => exact .same _
  | exit => exact .exit
  | _ => exact .same _

structure Beside (state state' : State P) (p : P) : Prop where
  pc : state'.pc p = state.pc p
  blocked : state'.blocked p = state.blocked p
  opens : state'.opens p = state.opens p

theorem Acted.beside (hacted : Acted key state action state') {p : P} (hp : p ≠ action.proc) :
    Beside state state' p := by
  cases hacted with
  | run hran =>
    cases hran with
    | done => exact ⟨update_of_ne hp .., update_of_ne hp .., update_of_ne hp ..⟩
    | sleep => exact ⟨rfl, update_of_ne hp .., rfl⟩
    | _ => exact ⟨update_of_ne hp .., update_of_ne hp .., rfl⟩
  | exit => exact ⟨update_of_ne hp .., update_of_ne hp .., update_of_ne hp ..⟩
  | _ => exact ⟨update_of_ne hp .., update_of_ne hp .., rfl⟩

end Effects

section Window

variable {P : Type} [DecidableEq P] {key : Int} {state state' : State P} {action : Action P}
  {proc : P}

theorem semcall_not_closeRemove {pc : Pc} {call : Semcall} (hcall : pc.semcall = some call)
    (id : Nat) : call.next ≠ .closeRemove id ∧ ∀ errno, call.error errno ≠ .closeRemove id := by
  cases pc <;> cases hcall
  case createLock => exact ⟨nofun, fun errno => by cases errno <;> nofun⟩
  all_goals exact ⟨nofun, nofun⟩

theorem pc_goto (state : State P) (proc : P) (pc : Pc) : (state.goto proc pc).pc proc = pc :=
  update_self ..

variable {id : Nat}

theorem Goes.closeRemove {pc pc' : Pc} (hgoes : Goes state proc pc pc')
    (hpc' : pc' = .closeRemove id) : ∃ set, state.find id = some set ∧ set.val 1 = bigcount := by
  cases hgoes with
  | createRead hfind =>
    unfold SemSet.createPc at hpc'
    split_ifs at hpc'
  | closeRead hfind =>
    unfold SemSet.closePc at hpc'
    split_ifs at hpc' with _ _ hbig
    cases hpc'
    exact ⟨_, hfind, hbig⟩
  | removed hcall | range hcall => exact absurd hpc' ((semcall_not_closeRemove hcall id).2 _)
  | _ => cases hpc'

theorem start_not_closeRemove {opens : Nat → Nat} {call : Call} {pc : Pc}
    (hstart : start key opens call = some pc) (id : Nat) : pc ≠ .closeRemove id := by
  rintro rfl
  cases call with
  | semClose =>
    dsimp only [start] at hstart
    split at hstart <;> cases hstart
  | semRm => cases hstart
  | _ =>
    obtain hstart := Option.some.inj hstart
    split at hstart <;> cases hstart

theorem Acted.closeRemove (hacted : Acted key state action state')
    (hpc' : state'.pc action.proc = .closeRemove id) :
    ∃ set, state.find id = some set ∧ set.val 1 = bigcount ∧ state'.live = state.live := by
  cases hacted with
  | call _ hstart => exact absurd ((pc_goto ..).symm.trans hpc') (start_not_closeRemove hstart id)
  | @run proc _ hran =>
    cases hran with
    | goto _ hgoes =>
      obtain ⟨set, hfind, hbig⟩ := hgoes.closeRemove ((pc_goto ..).symm.trans hpc')
      exact ⟨set, hfind, hbig, rfl⟩
    | done hcall =>
      exact absurd ((pc_goto ..).symm.trans hpc') (semcall_not_closeRemove hcall id).1
    | sleep hcall =>
      rw [show state.pc proc = .closeRemove id from hpc'] at hcall
      cases hcall
    | _ => cases (pc_goto ..).symm.trans hpc'
  | _ => cases (pc_goto ..).symm.trans hpc'

variable [Fintype P]

theorem Effect.counter_kept {exact : Prop} (hinv : Inv exact state) {set set' : SemSet P} {p : P}
    (heffect : Effect state action (some set')) (hlive : state.live = some set)
    (hlocks : (state.pc p).locks = some set.id) (hp : p ≠ action.proc)
    (hopen : ∀ proc, action = .run proc → state.pc proc ≠ .openCount set.id)
    (hadj : set.adj action.proc 1 = 0) :
    set'.val 1 = set.val 1 := by
  obtain ⟨owner, hlock⟩ := hinv.lock set hlive
  have hone : set.val 2 = 1 := by
    rw [hlock.val, hlock.owner_eq hlocks, if_neg nofun]
  have halone : ∀ {q : P} {id : Nat}, (state.pc q).locks = some id → set.id = id → q = p := by
    rintro q _ hother rfl
    exact hinv.alone hlive hlocks hother
  generalize hresult : some set' = result at heffect
  cases heffect with
  | same =>
    cases hlive.symm.trans hresult.symm
    rfl
  | create hnone => cases hlive.symm.trans hnone
  | @setval0 proc id initval set₁ hpc hfind | @setval1 proc id set₁ hpc hfind =>
    obtain ⟨hlive₁, hid⟩ := live_of_find hfind
    cases hlive.symm.trans hlive₁
    exact absurd (halone (q := proc) (by rw [hpc]; rfl) hid) hp.symm
  | remove => cases hresult
  | @semop proc call set₁ sems hcall hfind hdone =>
    obtain ⟨hlive₁, hid⟩ := live_of_find hfind
    cases hlive.symm.trans hlive₁
    cases hresult
    cases hpc : state.pc proc with
    | createLock id initval =>
      rw [hpc] at hcall
      cases hcall
      have hzero := (done_opLock hdone).1
      rw [hone] at hzero
      cases hzero
    | createEnd id | closeUnlock id =>
      rw [hpc] at hcall
      cases hcall
      exact absurd (halone (q := proc) (by rw [hpc]; rfl) hid) hp.symm
    | openCount id =>
      rw [hpc] at hcall
      cases hcall
      dsimp only at hid
      subst hid
      exact absurd hpc (hopen proc rfl)
    | closeLock id =>
      rw [hpc] at hcall
      cases hcall
      have hzero := (done_opClose hdone).1
      rw [hone] at hzero
      cases hzero
    | semOp id value =>
      rw [hpc] at hcall
      cases hcall
      exact (@done_opOp _ _ _ _ _ _ hdone 1 (by decide)).1
    | _ =>
      rw [hpc] at hcall
      cases hcall
  | @exit proc =>
    rw [hlive] at hresult
    cases hresult
    have hcount := hinv.count set hlive
    change set.adj proc 1 = 0 at hadj
    refine (Sems.exit_val _ ?_ ?_).trans ?_ <;> rw [hadj, Int.add_zero]
    · exact hcount.nonneg
    · exact hcount.max

/-- A set that is about to be removed is not open. -/
structure Removing (state : State P) : Prop where
  unopened : ∀ p id set, state.pc p = .closeRemove id → state.live = some set → set.val 1 = bigcount

/-- How often a process has a set open without having started the `sem_close`. -/
def inUse (state : State P) (p : P) (id : Nat) : Nat :=
  state.opens p id - if state.pc p = .closeLock id then 1 else 0

/-- The set that a process is about to count itself in by `sem_open`. -/
def opening (state : State P) : Action P → Option Nat
  | .run proc =>
    match state.pc proc with
    | .openCount id => some id
    | _ => none
  | _ => none

/-- The condition on the steps: there are few opens, and `sem_open` does not count itself
while another process is between its `GETVAL` and its `IPC_RMID`. -/
structure OpensOutside (state : State P) (action : Action P) (state' : State P) : Prop where
  few : Few state'
  outside : ∀ p id, opening state action = some id → state.pc p ≠ .closeRemove id

instance (state : State P) (action : Action P) (state' : State P) :
    Decidable (OpensOutside state action state') :=
  decidable_of_iff
    (Few state' ∧ ∀ p, (opening state action).map Pc.closeRemove ≠ some (state.pc p)) <| by
      constructor
      · rintro ⟨hfew, hne⟩
        refine ⟨hfew, fun p id hopening hpc => hne p ?_⟩
        rw [hopening, hpc]
        rfl
      · rintro ⟨hfew, houtside⟩
        refine ⟨hfew, fun p heq => ?_⟩
        obtain ⟨id, hopening, hpc⟩ := Option.map_eq_some_iff.mp heq
        exact houtside p id hopening hpc.symm

theorem Inv.total_eq_zero (hinv : Inv True state) {set : SemSet P} {p : P}
    (hpc : state.pc p = .closeRemove id) (hlive : state.live = some set)
    (hval : set.val 1 = bigcount) : total state.opens set.id = 0 := by
  obtain ⟨set₁, hlive₁, _, hready, _⟩ := (hinv.places p).locked id (by rw [hpc]; rfl)
  cases hlive.symm.trans hlive₁
  rw [hpc] at hready
  have htotal := (hinv.count set hlive).val trivial (hready trivial)
  omega

theorem Removing.act (hremoving : Removing state) (hinv : Inv True state)
    (hacted : Acted key state action state') (hcond : OpensOutside state action state') :
    Removing state' := by
  refine ⟨fun p id set' hpc' hlive' => ?_⟩
  by_cases hp : p = action.proc
  · subst hp
    obtain ⟨set, hfind, hbig, hsame⟩ := hacted.closeRemove hpc'
    cases (hsame.trans (live_of_find hfind).1).symm.trans hlive'
    exact hbig
  · have hpc : state.pc p = .closeRemove id := (hacted.beside hp).pc.symm.trans hpc'
    have hlocks : (state.pc p).locks = some id := by rw [hpc]; rfl
    obtain ⟨set, hlive, _, rfl, _⟩ := hinv.find_of_locks hlocks
    have hbig := hremoving.unopened p set.id set hpc hlive
    have hzero := hinv.total_eq_zero hpc hlive hbig
    obtain ⟨set₁, hlive₁, _, hready, _⟩ := (hinv.places p).locked set.id hlocks
    cases hlive.symm.trans hlive₁
    rw [hpc] at hready
    have hadj := (hinv.count set hlive).adj trivial (hready trivial) action.proc
    have hopens := opens_le_total state.opens set.id action.proc
    have heffect := hacted.effect
    rw [hlive'] at heffect
    refine (heffect.counter_kept hinv hlive hlocks hp ?_ (by omega)).trans hbig
    rintro proc rfl hopen
    refine hcond.outside p set.id ?_ hpc
    dsimp only [opening]
    rw [hopen]

theorem Reached.removing (hreached : Reached key OpensOutside state) : Removing state := by
  induction hreached with
  | start hinit =>
    subst hinit
    exact ⟨nofun⟩
  | step hreached hstep ih =>
    obtain ⟨action, hact, hshared, hcond⟩ := hstep
    obtain ⟨hinv, _⟩ := @Reached.inv _ _ _ True _ _ (fun _ _ _ _ hmeets => hmeets.few) _ hreached
    exact ih.act hinv (acted_of_act hact hshared) hcond

/-- With few opens, and no `sem_open` in the window, `sem_close` removes a set only if no
process has it open without having started its `sem_close`. -/
theorem removes_only_unused (hreached : Reached key OpensOutside state) {p : P} {id : Nat}
    (hpc : state.pc p = .closeRemove id) (q : P) : inUse state q id = 0 := by
  obtain ⟨hinv, _⟩ := @Reached.inv _ _ _ True _ _ (fun _ _ _ _ hmeets => hmeets.few) _ hreached
  have hlocks : (state.pc p).locks = some id := by rw [hpc]; rfl
  obtain ⟨set, hlive, _, rfl, _⟩ := hinv.find_of_locks hlocks
  have hzero := hinv.total_eq_zero hpc hlive (hreached.removing.unopened p _ set hpc hlive)
  have hle := opens_le_total state.opens set.id q
  unfold inUse
  omega

end Window

/-! ## An unlucky sem_open -/

/-- A process has closed the semaphore up to the removal. -/
def closes {P : Type} (proc : P) : List (Action P) :=
  .call proc (.semClose 0) :: List.replicate 2 (.run proc)

/-- The second user has opened and closed the semaphore before the first one closes it. -/
theorem removes_only_unused_last :
    ∃ state : State Bool, Reached 1 OpensOutside state ∧ state.pc true = .closeRemove 0 ∧
      inUse state false 0 = 0 := by
  have hreached := @reached_of_acts Bool _ 1 OpensOutside _
    (creates true ++ openIt false ++ closes false ++ .run false :: closes true) _ rfl
  exact ⟨_, hreached, rfl, removes_only_unused hreached (p := true) rfl false⟩

/-- A process opens the semaphore when another one has seen that nobody uses it; the set is
removed while it is open. -/
theorem open_set_removed :
    ∃ state state' : State Bool, Reached 1 (fun _ _ state' => Few state') state ∧
      state.pc true = .closeRemove 0 ∧ state.pc false = .idle (some 0) ∧
      inUse state false 0 = 1 ∧ act 1 state (.run true) = some state' ∧ state'.live = none := by
  have hreached := @reached_of_acts Bool _ 1 (fun _ _ state' => Few state') _
    (creates true ++ closes true ++ openIt false) _ rfl
  exact ⟨_, _, hreached, rfl, rfl, rfl, rfl, rfl⟩

end ApueFormal.Semaphore
