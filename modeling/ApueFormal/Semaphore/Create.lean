import ApueFormal.Semaphore.Removal

/-!
# sem_create and a removal

`sem_create` gets an identifier and then locks the set, which may have been removed in
between.  It tries again if the set does not exist at the call (`EINVAL`), but not if it
is removed while it waits for the lock (`EIDRM`).
-/

namespace ApueFormal.Semaphore

open Libc Program

section Range

variable {P : Type} [DecidableEq P] {proc : P} {sems : Sems P (Fin 3)}

theorem opLock_in_range (hadj : sems.adj proc 2 = 0 ∨ sems.adj proc 2 = -1) :
    semop proc opLock sems ≠ .range := by
  rw [opLock, semop_zero]
  split
  · rename_i hzero
    refine not_range_of (by decide) ?_ ?_ ?_ (by rintro ⟨⟩)
    · rw [hzero]
      decide
    · rcases hadj with hadj | hadj <;> rw [hadj] <;> decide
    · rcases hadj with hadj | hadj <;> rw [hadj] <;> decide
  · rintro ⟨⟩

theorem opEndcreate_in_range (hmax : sems.val 1 ≤ semvmx) (hadj : sems.adj proc 1 < semaem)
    (hadj' : -semaem ≤ sems.adj proc 1) (hval : sems.val 2 = 1) (hlock : sems.adj proc 2 = -1) :
    semop proc opEndcreate sems ≠ .range := by
  refine not_range_of (by decide) (by omega) (by omega) (by omega) ?_
  refine not_range_of (by decide) ?_ ?_ ?_ nofun
  · rw [Sems.add_val_of_ne _ _ (by decide), hval]
    decide
  · rw [Sems.add_adj_of_num_ne _ _ (by decide), hlock]
    decide
  · rw [Sems.add_adj_of_num_ne _ _ (by decide), hlock]
    decide

end Range

/-! ## The condition -/

/-- The value that a call of `sem_create` still has to set. -/
def Pc.initval : Pc → Option Int
  | .createGet initval => some initval
  | .createLock _ initval => some initval
  | .createRead _ initval => some initval
  | .createSet0 _ initval => some initval
  | _ => none

variable {live : Option (SemSet P)}

section Condition

variable {P : Type}

def removing (state : State P) : Action P → Option Nat
  | .run proc =>
    match state.pc proc with
    | .closeRemove id => some id
    | _ => none
  | _ => none

/-- The initial value of a call of `sem_create`. -/
def creating : Action P → Option Int
  | .call _ (.semCreate initval) => some initval
  | _ => none

/-- The set that a process wants to lock in `sem_create`. -/
def Pc.wants : Pc → Option Nat
  | .createLock id _ => some id
  | _ => none

/-- The condition on the steps: no set is removed while a process sleeps in the lock of
`sem_create`, initial values are values of semaphores, and no process has so many opens that
its adjustment is out of range. -/
structure RemovesAwake (state : State P) (action : Action P) (state' : State P) : Prop where
  awake : ∀ p, ∀ id ∈ removing state action, (state.pc p).wants = some id → state.blocked p = false
  initval : ∀ initval ∈ creating action, 0 ≤ initval ∧ initval ≤ semvmx
  opens : ∀ set ∈ state'.live, ∀ p, (state'.opens p set.id : Int) < semaem

instance [Fintype P] (state : State P) (action : Action P) (state' : State P) :
    Decidable (RemovesAwake state action state') :=
  decidable_of_iff
    ((∀ p, ∀ id ∈ removing state action, (state.pc p).wants = some id → state.blocked p = false) ∧
      (∀ initval ∈ creating action, 0 ≤ initval ∧ initval ≤ semvmx) ∧
      ∀ set ∈ state'.live, ∀ p, (state'.opens p set.id : Int) < semaem)
    ⟨fun h => ⟨h.1, h.2.1, h.2.2⟩, fun h => ⟨h.awake, h.initval, h.opens⟩⟩

structure SafePc (live : Option (SemSet P)) (blocked : Bool) (pc : Pc) : Prop where
  noErr : ∀ text lock, pc ≠ .errSys .semCreate text lock
  initval : ∀ initval, pc.initval = some initval → 0 ≤ initval ∧ initval ≤ semvmx
  asleep : ∀ id initval, pc = .createLock id initval → blocked = true →
    ∃ set, live = some set ∧ set.id = id

/-- A place outside of `sem_create`. -/
structure Outside (pc : Pc) : Prop where
  noErr : ∀ text lock, pc ≠ .errSys .semCreate text lock
  initval : pc.initval = none

variable {pc : Pc}

theorem Outside.safePc {blocked : Bool} (houtside : Outside pc) : SafePc live blocked pc where
  noErr := houtside.noErr
  initval initval hsome := by
    rw [houtside.initval] at hsome
    cases hsome
  asleep id initval hpc := by
    have hnone := houtside.initval
    rw [hpc] at hnone
    cases hnone

theorem safePc_of_awake {initval : Int} (hpc : pc.initval = some initval)
    (hrange : 0 ≤ initval ∧ initval ≤ semvmx) :
    SafePc live false pc where
  noErr text lock herr := by
    rw [herr] at hpc
    cases hpc
  initval initval' hsome := by
    cases hpc.symm.trans hsome
    exact hrange
  asleep _ _ _ := nofun

theorem safePc_call {key : Int} {state : State P} {proc : P} {call : Call}
    (hrange : ∀ initval, creating (.call proc call) = some initval → 0 ≤ initval ∧ initval ≤ semvmx)
    (hstart : start key (state.opens proc) call = some pc) : SafePc state.live false pc := by
  cases call with
  | semCreate initval =>
    obtain rfl := Option.some.inj hstart
    split
    · exact Outside.safePc ⟨nofun, rfl⟩
    · exact safePc_of_awake rfl (hrange initval rfl)
  | semOpen | semOp id value =>
    obtain rfl := Option.some.inj hstart
    split <;> exact Outside.safePc ⟨nofun, rfl⟩
  | semClose id =>
    dsimp only [start] at hstart
    split at hstart
    · cases hstart
    · cases hstart
      exact Outside.safePc ⟨nofun, rfl⟩
  | semRm => cases hstart

variable [DecidableEq P]

theorem Effect.live_kept {state : State P} {action : Action P} {live' : Option (SemSet P)}
    (heffect : Effect state action live') {set : SemSet P} (hlive : state.live = some set) :
    (∃ set', live' = some set' ∧ set'.id = set.id) ∨ removing state action = some set.id := by
  cases heffect with
  | same => exact .inl ⟨set, hlive, rfl⟩
  | create hnone => cases hlive.symm.trans hnone
  | setval0 hpc hfind | setval1 hpc hfind | semop hcall hfind hdone =>
    cases hlive.symm.trans (live_of_find hfind).1
    exact .inl ⟨_, rfl, rfl⟩
  | remove hpc hfind =>
    obtain ⟨hlive', hid⟩ := live_of_find hfind
    cases hlive.symm.trans hlive'
    right
    dsimp only [removing]
    rw [hpc, hid]
  | exit =>
    rw [hlive]
    exact .inl ⟨_, rfl, rfl⟩

end Condition

section Steps

variable {P : Type} [DecidableEq P] {key : Int} {state state' : State P} {action : Action P}
  {proc : P} {id : Nat} {pc : Pc} {call : Semcall}

theorem blocked_goto (state : State P) (proc : P) (pc : Pc) :
    (state.goto proc pc).blocked proc = false :=
  Function.update_self ..

theorem outside_semcall (hcall : pc.semcall = some call)
    (hlock : ∀ id initval, pc ≠ .createLock id initval) (hend : ∀ id, pc ≠ .createEnd id) :
    Outside call.next ∧ ∀ errno, Outside (call.error errno) := by
  cases pc <;> cases hcall
  case createLock => exact absurd rfl (hlock _ _)
  case createEnd => exact absurd rfl (hend _)
  all_goals exact ⟨⟨nofun, rfl⟩, fun _ => ⟨nofun, rfl⟩⟩

theorem SafePc.beside {p : P} (hsafe : SafePc state.live (state.blocked p) (state.pc p))
    (hacted : Acted key state action state') (hcond : RemovesAwake state action state')
    (hp : p ≠ action.proc) : SafePc state'.live (state'.blocked p) (state'.pc p) := by
  obtain ⟨hpc, hblocked, _⟩ := hacted.beside hp
  rw [hpc, hblocked]
  refine ⟨hsafe.noErr, hsafe.initval, fun id initval hlock hasleep => ?_⟩
  obtain ⟨set, hlive, rfl⟩ := hsafe.asleep id initval hlock hasleep
  rcases hacted.effect.live_kept hlive with hkept | hremoved
  · exact hkept
  · rw [hcond.awake p set.id hremoved (by rw [hlock]; rfl)] at hasleep
    cases hasleep

variable [Fintype P] (hinv : Inv False state)
include hinv

theorem createLock_in_range {set : SemSet P} (hlive : state.live = some set) :
    semop proc opLock set.toSems ≠ .range := by
  obtain ⟨owner, hlock⟩ := hinv.lock set hlive
  have hadj := hlock.adj proc
  refine opLock_in_range ?_
  split at hadj
  · exact .inr hadj
  · exact .inl hadj

variable (hopens : ∀ set, state.live = some set → ∀ p, (state.opens p set.id : Int) < semaem)
include hopens

theorem createEnd_goes {pc' : Pc} (hpc : state.pc proc = .createEnd id) :
    ¬ Goes state proc (.createEnd id) pc' := by
  have hlocks : (state.pc proc).locks = some id := by rw [hpc]; rfl
  obtain ⟨set, hlive, hfind, hid, _⟩ := hinv.find_of_locks hlocks
  generalize hold : Pc.createEnd id = pc
  intro hgoes
  cases hgoes with
  | missing hlocks' hnone | removed hlocks' hnone =>
    cases hold
    cases hlocks'
    cases hfind.symm.trans hnone
  | range hcall hfind' hout =>
    cases hold
    cases hcall
    cases hfind.symm.trans hfind'
    obtain ⟨owner, hlock⟩ := hinv.lock set hlive
    obtain rfl := hlock.owner_eq (hid ▸ hlocks)
    have hcount := hinv.count set hlive
    have hle := hcount.adj_le proc
    have hlt := hopens set hlive proc
    have hval := hlock.val
    have hadj := hlock.adj proc
    rw [if_neg nofun] at hval
    rw [if_pos rfl] at hadj
    exact opEndcreate_in_range hcount.max (by omega) (hcount.adj_ge proc) hval hadj hout
  | _ => cases hold

theorem run_createEnd (hpc : state.pc proc = .createEnd id) (hran : Ran state proc state') :
    state'.pc proc = .createEnd id ∨ state'.pc proc = .idle (some id) ∧
      ∃ set, state'.live = some set ∧ set.id = id ∧ set.initialised = true := by
  cases hran with
  | goto hpc' hgoes =>
    cases hpc'.symm.trans hpc
    exact absurd hgoes (createEnd_goes hinv hopens hpc)
  | done hcall hfind =>
    obtain ⟨set', _, hfind', hid, hready, _⟩ := hinv.find_of_locks (by rw [hpc]; rfl)
    rw [hpc] at hcall hready
    cases hcall
    cases hfind.symm.trans hfind'
    exact .inr ⟨pc_goto .., _, rfl, hid, hready trivial⟩
  | sleep => exact .inl hpc
  | create hpc' | set0 hpc' | set1 hpc' | remove hpc' => cases hpc'.symm.trans hpc

theorem safePc_goes {pc' : Pc} (hsafe : SafePc state.live (state.blocked proc) pc)
    (hpc : state.pc proc = pc) (hgoes : Goes state proc pc pc') : SafePc live false pc' := by
  have hgoes' := hgoes
  cases hgoes with
  | createGet => exact safePc_of_awake rfl (hsafe.initval _ rfl)
  | createRead hfind =>
    have hnonneg := (hinv.count _ (live_of_find hfind).1).nonneg
    rw [SemSet.createPc, if_neg (Int.not_lt.mpr hnonneg)]
    split
    · exact safePc_of_awake rfl (hsafe.initval _ rfl)
    · exact Outside.safePc ⟨by rintro _ _ ⟨⟩, rfl⟩
  | outOfRange hrange =>
    have hinitval := hsafe.initval _ rfl
    omega
  | closeRead =>
    unfold SemSet.closePc
    split_ifs <;> exact Outside.safePc ⟨by rintro _ _ ⟨⟩, rfl⟩
  | missing hlocks hfind =>
    obtain ⟨_, _, hfind', _⟩ := hinv.find_of_locks (hpc ▸ hlocks)
    cases hfind.symm.trans hfind'
  | @removed _ call hcall hfind =>
    cases pc
    case createLock id initval =>
      cases hcall
      cases hblocked : state.blocked proc with
      | true =>
        obtain ⟨set, hlive, hid⟩ := hsafe.asleep id initval rfl hblocked
        rw [State.find, hlive, Option.filter_some, if_pos (decide_eq_true hid)] at hfind
        cases hfind
      | false => exact safePc_of_awake rfl (hsafe.initval _ rfl)
    case createEnd => exact absurd hgoes' (createEnd_goes hinv hopens hpc)
    all_goals exact ((outside_semcall hcall (by rintro _ _ ⟨⟩) (by rintro _ ⟨⟩)).2 _).safePc
  | range hcall hfind hout =>
    cases pc
    case createLock =>
      cases hcall
      exact absurd hout (createLock_in_range hinv (live_of_find hfind).1)
    case createEnd => exact absurd hgoes' (createEnd_goes hinv hopens hpc)
    all_goals exact ((outside_semcall hcall (by rintro _ _ ⟨⟩) (by rintro _ ⟨⟩)).2 _).safePc
  | _ => exact Outside.safePc ⟨by rintro _ _ ⟨⟩, rfl⟩

theorem safePc_run (hsafe : SafePc state.live (state.blocked proc) (state.pc proc))
    (hran : Ran state proc state') :
    SafePc state'.live (state'.blocked proc) (state'.pc proc) := by
  cases hran with
  | goto hpc hgoes =>
    rw [hpc] at hsafe
    rw [blocked_goto, pc_goto]
    exact safePc_goes hinv hopens hsafe hpc hgoes
  | create hpc =>
    rw [blocked_goto, pc_goto]
    exact safePc_of_awake rfl (hsafe.initval _ (by rw [hpc]; rfl))
  | done hcall =>
    rw [blocked_goto, pc_goto]
    cases hpc : state.pc proc <;> rw [hpc] at hcall hsafe
    case createLock =>
      cases hcall
      exact safePc_of_awake rfl (hsafe.initval _ rfl)
    case createEnd =>
      cases hcall
      exact Outside.safePc ⟨nofun, rfl⟩
    all_goals exact (outside_semcall hcall nofun nofun).1.safePc
  | sleep hcall hfind =>
    refine ⟨hsafe.noErr, hsafe.initval, fun id initval hpc _ => ?_⟩
    rw [show state.pc proc = _ from hpc] at hcall
    cases hcall
    exact ⟨_, live_of_find hfind⟩
  | _ =>
    rw [pc_goto]
    exact Outside.safePc ⟨nofun, rfl⟩

omit hinv hopens

structure Safe (state : State P) : Prop where
  pcs : ∀ p, SafePc state.live (state.blocked p) (state.pc p)
  opens : ∀ set, state.live = some set → ∀ p, (state.opens p set.id : Int) < semaem

theorem Safe.act (hsafe : Safe state) (hinv : Inv False state)
    (hacted : Acted key state action state') (hcond : RemovesAwake state action state') :
    Safe state' := by
  refine ⟨fun p => ?_, hcond.opens⟩
  by_cases hp : p = action.proc
  · subst hp
    cases hacted with
    | call _ hstart =>
      dsimp only [Action.proc]
      rw [blocked_goto, pc_goto]
      exact safePc_call hcond.initval hstart
    | run hran => exact safePc_run hinv hsafe.opens (hsafe.pcs _) hran
    | _ =>
      dsimp only [Action.proc, State.exit]
      rw [pc_goto]
      exact Outside.safePc ⟨nofun, rfl⟩
  · exact (hsafe.pcs p).beside hacted hcond hp

theorem Reached.safe (hreached : Reached key RemovesAwake state) : Safe state := by
  induction hreached with
  | start hinit =>
    subst hinit
    exact ⟨fun _ => Outside.safePc ⟨nofun, rfl⟩, nofun⟩
  | step hreached hstep ih =>
    obtain ⟨action, hact, hshared, hcond⟩ := hstep
    exact ih.act (@Reached.inv _ _ _ False _ _ nofun _ hreached).1 (acted_of_act hact hshared) hcond

/-- If no set is removed under a process that sleeps in the lock of `sem_create`, then
`sem_create` never ends in `err_sys`, and the identifier it returns is that of a set that
exists and has been initialised when its last `semop` is done. -/
theorem create_survives (hreached : Reached key RemovesAwake state) :
    (∀ p text lock, state.pc p ≠ .errSys .semCreate text lock) ∧
    ∀ p id result state', state.pc p = .createEnd id → act key state (.run p) = some state' →
      state'.pc p = .idle result → result = some id ∧
        ∃ set, state'.live = some set ∧ set.id = id ∧ set.initialised = true := by
  have hsafe := hreached.safe
  refine ⟨fun p => (hsafe.pcs p).noErr, ?_⟩
  intro p id result state' hpc hact hpc'
  obtain ⟨hinv, _⟩ := @Reached.inv _ _ _ False _ _ nofun _ hreached
  rcases run_createEnd hinv hsafe.opens hpc (ran_of_run hact) with hsame | ⟨hidle, hset⟩
  · cases hsame.symm.trans hpc'
  · cases hidle.symm.trans hpc'
    exact ⟨rfl, hset⟩

end Steps

/-- The set is removed between the `semget` and the `semop` of a `sem_create`, which then
creates another one. -/
theorem create_survives_retry :
    ∃ state state' : State Bool, Reached 1 RemovesAwake state ∧ state.pc false = .createEnd 1 ∧
      act 1 state (.run false) = some state' ∧
      ∃ set, state'.live = some set ∧ set.id = 1 ∧ set.initialised = true := by
  have hreached := @reached_of_acts Bool _ 1 RemovesAwake _
    (creates true ++ [.call false (.semCreate 1), .run false, .call true (.semClose 0)] ++
      List.replicate 3 (.run true) ++ List.replicate 6 (.run false)) _ rfl
  exact ⟨_, _, hreached, rfl, rfl, ((create_survives hreached).2 false 1 _ _ rfl rfl rfl).2⟩

/-- A process waits for the lock of a set that another one is about to remove. -/
def waitsForLock : List (Action Bool) :=
  creates true ++ [.call true (.semClose 0), .run true, .call false (.semCreate 1), .run false,
    .run false]

/-- The set is removed while a process sleeps in `sem_create`, which then ends in `err_sys`. -/
theorem sleeping_create_fails :
    ∃ state : State Bool, Reached 1 (fun _ _ state' => Few state') state ∧
      state.pc false = .errSys .semCreate "can't lock" none := by
  have hreached := @reached_of_acts Bool _ 1 (fun _ _ state' => Few state') _
    (waitsForLock ++ [.run true, .run true, .run false]) _ rfl
  exact ⟨_, hreached, rfl⟩

end ApueFormal.Semaphore
