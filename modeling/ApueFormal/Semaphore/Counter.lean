import ApueFormal.Semaphore.Invariant

/-!
# The process counter

The two accounts hold in every reachable state, whatever the processes call and
wherever they exit.
-/

namespace ApueFormal.Semaphore

open Function Libc Program

/-- The places with the lock of a set that has been initialised. -/
def Pc.Ready : Pc → Prop
  | .createEnd _ => True
  | .closeRead _ => True
  | .closeRemove _ => True
  | .closeUnlock _ => True
  | _ => False

/-- The places between the first `GETVAL` of 0 and the `SETVAL` of [1]. -/
def Pc.Setting : Pc → Prop
  | .createSet0 _ _ => True
  | .createSet1 _ => True
  | _ => False

/-- What the place of a process says of the set and of the opens of the process. -/
structure PcOk {P : Type} (exact : Prop) (live : Option (SemSet P)) (opens : Nat → Nat) (pc : Pc) :
    Prop where
  closing : ∀ id, pc = .closeLock id → 0 < opens id
  locked : ∀ id, pc.locks = some id → ∃ set, live = some set ∧ set.id = id ∧
    (pc.Ready → set.initialised = true) ∧ (exact → pc.Setting → set.initialised = false)
  noDump : exact → ∀ text lock, pc ≠ .errDump text lock

namespace PcOk

variable {P : Type} {exact : Prop} {live live' : Option (SemSet P)} {opens : Nat → Nat} {pc : Pc}

theorem of_unlocked (hok : PcOk exact live opens pc) (hlocks : pc.locks = none) :
    PcOk exact live' opens pc := by
  refine ⟨hok.closing, fun id hlocks' => ?_, hok.noDump⟩
  rw [hlocks] at hlocks'
  cases hlocks'

theorem unlocked (hok : PcOk exact (none : Option (SemSet P)) opens pc) : pc.locks = none := by
  cases hlocks : pc.locks with
  | none => rfl
  | some id =>
    obtain ⟨set, hlive, _⟩ := hok.locked id hlocks
    cases hlive

theorem frame {set set' : SemSet P} (hok : PcOk exact (some set) opens pc) (hid : set'.id = set.id)
    (hinit : pc.locks = some set.id → set'.initialised = set.initialised) :
    PcOk exact (some set') opens pc := by
  refine ⟨hok.closing, fun id hlocks => ?_, hok.noDump⟩
  obtain ⟨set₁, hlive, rfl, hready, hsetting⟩ := hok.locked id hlocks
  cases hlive
  refine ⟨set', rfl, hid, ?_, ?_⟩
  · rw [hinit hlocks]
    exact hready
  · rw [hinit hlocks]
    exact hsetting

end PcOk

structure Plain (pc : Pc) : Prop where
  locks : pc.locks = none
  closing : ∀ id, pc ≠ .closeLock id
  noDump : ∀ text lock, pc ≠ .errDump text lock

variable {P : Type}

theorem Plain.pcOk {exact : Prop} {live : Option (SemSet P)} {opens : Nat → Nat} {pc : Pc}
    (hplain : Plain pc) : PcOk exact live opens pc where
  closing id hpc := absurd hpc (hplain.closing id)
  locked id hlocks := by
    rw [hplain.locks] at hlocks
    cases hlocks
  noDump _ := hplain.noDump

/-- A call of `semop` has been done: the set, the opens of the process and its place. -/
def State.served {P : Type} [DecidableEq P] (state : State P) (proc : P) (set : SemSet P)
    (sems : Sems P (Fin 3)) (count : Nat) (pc : Pc) : State P :=
  ((state.withLive (some { set with toSems := sems })).withOpens proc
    (update (state.opens proc) set.id count)).goto proc pc

variable {id : Nat}

theorem live_of_find {state : State P} {set : SemSet P} (hfind : state.find id = some set) :
    state.live = some set ∧ set.id = id := by
  obtain ⟨hlive, hid⟩ := Option.filter_eq_some_iff.mp hfind
  exact ⟨hlive, of_decide_eq_true hid⟩

theorem opens_eq_self [DecidableEq P] (state : State P) (proc : P) (id : Nat) :
    update state.opens proc (update (state.opens proc) id (state.opens proc id)) = state.opens := by
  rw [update_eq_self, update_eq_self]

section Invariant

variable [DecidableEq P] [Fintype P]

structure Inv (exact : Prop) (state : State P) : Prop where
  lock : ∀ set, state.live = some set → ∃ owner, LockOk state.pc set owner
  count : ∀ set, state.live = some set → CountOk exact state.opens set
  fresh : ∀ set, state.live = some set → set.id < state.next
  unused : ∀ p id, state.next ≤ id → state.opens p id = 0
  places : ∀ p, PcOk exact state.live (state.opens p) (state.pc p)

/-- There are fewer than `BIGCOUNT` opens of the set. -/
def Few (state : State P) : Prop :=
  ∀ set, state.live = some set → (total state.opens set.id : Int) < bigcount

theorem inv_initial (exact : Prop) : Inv exact (initial P) where
  lock := nofun
  count := nofun
  fresh := nofun
  unused _ _ _ := rfl
  places _ := Plain.pcOk ⟨rfl, nofun, nofun⟩

namespace Inv

variable {exact : Prop} {state state' : State P} {proc : P} {pc : Pc}
variable (hinv : Inv exact state)
include hinv

theorem goto (hlocks : pc.locks = (state.pc proc).locks)
    (hpc : PcOk exact state.live (state.opens proc) pc) : Inv exact (state.goto proc pc) where
  lock set hlive := by
    obtain ⟨owner, hlock⟩ := hinv.lock set hlive
    exact ⟨owner, hlock.keep rfl hlocks rfl fun _ => rfl⟩
  count := hinv.count
  fresh := hinv.fresh
  unused := hinv.unused
  places := (forall_update_iff state.pc fun p pc => PcOk exact state.live (state.opens p) pc).mpr
    ⟨hpc, fun p _ => hinv.places p⟩

theorem leave {old : Pc} (hold : state.pc proc = old) (hlocks : old.locks = none)
    (hplain : Plain pc) : Inv exact (state.goto proc pc) :=
  hinv.goto (by rw [hplain.locks, hold, hlocks]) hplain.pcOk

theorem giveUp {old : Pc} {lock : Option Nat} (hold : state.pc proc = old)
    (hlocks : lock = old.locks) {routine : Routine} {text : String} :
    Inv exact (state.goto proc (.errSys routine text lock)) := by
  rw [← hold] at hlocks
  refine hinv.goto hlocks ⟨nofun, fun id hid => ?_, nofun⟩
  obtain ⟨set, hlive, hset, _, _⟩ := (hinv.places proc).locked id (hlocks ▸ hid)
  exact ⟨set, hlive, hset, nofun, nofun⟩

theorem replace {set set' : SemSet P} {opens : Nat → Nat} (hlive : state.live = some set)
    (hlive' : state'.live = some set') (hid : set'.id = set.id) (hnext : state'.next = state.next)
    (hpcs : state'.pc = update state.pc proc pc)
    (hopens : state'.opens = update state.opens proc opens)
    (hunused : ∀ id, state.next ≤ id → opens id = 0)
    (hinit : ∀ p, p ≠ proc → (state.pc p).locks = some set.id → set'.initialised = set.initialised)
    (hlock : ∃ owner, LockOk (update state.pc proc pc) set' owner)
    (hcount : CountOk exact (update state.opens proc opens) set')
    (hpc : PcOk exact (some set') opens pc) : Inv exact state' := by
  constructor
  · rw [hlive', hpcs]
    rintro _ ⟨⟩
    exact hlock
  · rw [hlive', hopens]
    rintro _ ⟨⟩
    exact hcount
  · rw [hlive', hnext]
    rintro _ ⟨⟩
    rw [hid]
    exact hinv.fresh set hlive
  · rw [hnext, hopens]
    exact (forall_update_iff state.opens fun _ opens => ∀ id, state.next ≤ id → opens id = 0).mpr
      ⟨hunused, fun p _ => hinv.unused p⟩
  · intro p
    rw [hlive', hpcs, hopens]
    by_cases hp : p = proc
    · subst hp
      rw [update_self, update_self]
      exact hpc
    · rw [update_of_ne hp, update_of_ne hp]
      have hplace := hinv.places p
      rw [hlive] at hplace
      exact hplace.frame hid (hinit p hp)

theorem alone {set : SemSet P} (hlive : state.live = some set)
    (hlocks : (state.pc proc).locks = some set.id) {p : P}
    (hlocks' : (state.pc p).locks = some set.id) : p = proc := by
  obtain ⟨owner, hlock⟩ := hinv.lock set hlive
  have hsome := hlock.owner_eq hlocks
  have hsome' := hlock.owner_eq hlocks'
  rw [hsome] at hsome'
  exact (Option.some.inj hsome').symm

theorem find_of_locks (hlocks : (state.pc proc).locks = some id) :
    ∃ set, state.live = some set ∧ state.find id = some set ∧ set.id = id ∧
      ((state.pc proc).Ready → set.initialised = true) ∧
      (exact → (state.pc proc).Setting → set.initialised = false) := by
  obtain ⟨set, hlive, hid, hready, hsetting⟩ := (hinv.places proc).locked id hlocks
  refine ⟨set, hlive, ?_, hid, hready, hsetting⟩
  rw [State.find, hlive, Option.filter_some, if_pos (decide_eq_true hid)]

end Inv

/-! ## Calls of semop -/

variable {initval : Int}

namespace Inv

variable {exact : Prop} {state state' : State P} {proc : P} {set : SemSet P} {sems : Sems P (Fin 3)}
variable (hinv : Inv exact state)
include hinv

section

variable (hlive : state.live = some set)
include hlive

theorem unused_update (count : Nat) (id : Nat) (hge : state.next ≤ id) :
    update (state.opens proc) set.id count id = 0 := by
  have hlt := hinv.fresh set hlive
  rw [update_of_ne (by omega)]
  exact hinv.unused proc id hge

theorem served {count : Nat} {pc : Pc}
    (hlock : ∃ owner, LockOk (update state.pc proc pc) { set with toSems := sems } owner)
    (hcount : CountOk exact (update state.opens proc (update (state.opens proc) set.id count))
      { set with toSems := sems })
    (hpc : PcOk exact (some { set with toSems := sems })
      (update (state.opens proc) set.id count) pc) :
    Inv exact (state.served proc set sems count pc) :=
  hinv.replace hlive rfl rfl rfl rfl rfl (hinv.unused_update hlive _) (fun _ _ _ => rfl)
    hlock hcount hpc

theorem createLock (hdone : semop proc opLock set.toSems = .done sems) :
    Inv exact (state.served proc set sems (state.opens proc set.id)
      (.createRead set.id initval)) := by
  obtain ⟨hzero, rfl⟩ := done_opLock hdone
  obtain ⟨owner, hlock⟩ := hinv.lock set hlive
  refine hinv.served hlive ⟨some proc, ?_⟩ ?_ ?_
  · exact hlock.take hzero rfl rfl (Sems.add_val_self _ _) (Sems.add_adj_self _ _)
      fun p hp => Sems.add_adj_of_proc_ne _ _ hp
  · rw [opens_eq_self]
    exact (hinv.count set hlive).keep rfl rfl (Sems.add_val_of_ne _ _ (by decide))
      fun p => Sems.add_adj_of_num_ne _ _ (by decide)
  · refine ⟨nofun, ?_, nofun⟩
    rintro id ⟨⟩
    exact ⟨_, rfl, rfl, nofun, nofun⟩

theorem createEnd (hpc : state.pc proc = .createEnd set.id)
    (hdone : semop proc opEndcreate set.toSems = .done sems) :
    Inv exact (state.served proc set sems (state.opens proc set.id + 1)
      (.idle (some set.id))) := by
  obtain ⟨hfits, rfl⟩ := done_opEndcreate hdone
  obtain ⟨owner, hlock⟩ := hinv.lock set hlive
  have hlocks : (state.pc proc).locks = some set.id := by rw [hpc]; rfl
  obtain rfl := hlock.owner_eq hlocks
  have hcount := hinv.count set hlive
  have hinit : set.initialised = true :=
    hcount.initialised_of_val (by have hpos := hfits.nonneg; omega)
  refine hinv.served hlive ⟨none, ?_⟩ ?_ (Plain.pcOk ⟨rfl, nofun, nofun⟩)
  · have hadj := hlock.adj proc
    rw [if_pos rfl] at hadj
    refine hlock.release rfl rfl ?_ ?_ ?_
    · simp [sub_eq_add_neg]
    · simp [hadj]
    · intro p hp
      simp [hp]
  · refine hcount.change hinit hfits ?_ ?_ ?_ ?_
    · simp
    · simp
    · intro p hp
      simp [hp]
    · push_cast
      omega

theorem openCount (hpc : state.pc proc = .openCount set.id)
    (hdone : semop proc opOpen set.toSems = .done sems) :
    Inv exact (state.served proc set sems (state.opens proc set.id + 1)
      (.idle (some set.id))) := by
  obtain ⟨hfits, rfl⟩ := done_opOpen hdone
  obtain ⟨owner, hlock⟩ := hinv.lock set hlive
  have hcount := hinv.count set hlive
  have hinit : set.initialised = true :=
    hcount.initialised_of_val (by have hpos := hfits.nonneg; omega)
  refine hinv.served hlive ⟨owner, ?_⟩ ?_ (Plain.pcOk ⟨rfl, nofun, nofun⟩)
  · refine hlock.keep rfl (by rw [hpc]; rfl) (Sems.add_val_of_ne _ _ (by decide)) ?_
    exact fun p => Sems.add_adj_of_num_ne _ _ (by decide)
  · refine hcount.change hinit hfits (Sems.add_val_self _ _) (Sems.add_adj_self _ _)
      (fun p hp => Sems.add_adj_of_proc_ne _ _ hp) ?_
    push_cast
    omega

theorem closeLock (hpc : state.pc proc = .closeLock set.id)
    (hdone : semop proc opClose set.toSems = .done sems) :
    Inv exact (state.served proc set sems (state.opens proc set.id - 1)
      (.closeRead set.id)) := by
  obtain ⟨hzero, hfits, rfl⟩ := done_opClose hdone
  obtain ⟨owner, hlock⟩ := hinv.lock set hlive
  have hcount := hinv.count set hlive
  have hopen : 0 < state.opens proc set.id := (hinv.places proc).closing _ hpc
  have hinit : set.initialised = true := hcount.initialised_of_open hopen
  refine hinv.served hlive ⟨some proc, ?_⟩ ?_ ?_
  · refine hlock.take hzero rfl rfl ?_ ?_ ?_
    · simp
    · simp
    · intro p hp
      simp [hp]
  · refine hcount.change hinit hfits ?_ ?_ ?_ ?_
    · simp
    · simp
    · intro p hp
      simp [hp]
    · omega
  · refine ⟨nofun, ?_, nofun⟩
    rintro id ⟨⟩
    exact ⟨_, rfl, rfl, fun _ => hinit, nofun⟩

theorem closeUnlock (hpc : state.pc proc = .closeUnlock set.id)
    (hdone : semop proc opUnlock set.toSems = .done sems) :
    Inv exact (state.served proc set sems (state.opens proc set.id) (.idle none)) := by
  obtain rfl := done_opUnlock hdone
  obtain ⟨owner, hlock⟩ := hinv.lock set hlive
  have hlocks : (state.pc proc).locks = some set.id := by rw [hpc]; rfl
  obtain rfl := hlock.owner_eq hlocks
  refine hinv.served hlive ⟨none, ?_⟩ ?_ (Plain.pcOk ⟨rfl, nofun, nofun⟩)
  · have hadj := hlock.adj proc
    rw [if_pos rfl] at hadj
    refine hlock.release rfl rfl (Sems.add_val_self _ _) ?_ ?_
    · simp [hadj]
    · exact fun p hp => Sems.add_adj_of_proc_ne _ _ hp
  · rw [opens_eq_self]
    exact (hinv.count set hlive).keep rfl rfl (Sems.add_val_of_ne _ _ (by decide))
      fun p => Sems.add_adj_of_num_ne _ _ (by decide)

theorem semOp {value : Int} (hpc : state.pc proc = .semOp set.id value)
    (hdone : semop proc (opOp value) set.toSems = .done sems) :
    Inv exact (state.served proc set sems (state.opens proc set.id) (.idle none)) := by
  obtain ⟨owner, hlock⟩ := hinv.lock set hlive
  refine hinv.served hlive ⟨owner, ?_⟩ ?_ (Plain.pcOk ⟨rfl, nofun, nofun⟩)
  · obtain ⟨hval, hadj⟩ := @done_opOp _ _ _ _ _ _ hdone 2 (by decide)
    exact hlock.keep rfl (by rw [hpc]; rfl) hval hadj
  · rw [opens_eq_self]
    obtain ⟨hval, hadj⟩ := @done_opOp _ _ _ _ _ _ hdone 1 (by decide)
    exact (hinv.count set hlive).keep rfl rfl hval hadj

end

variable {call : Semcall} (hcall : (state.pc proc).semcall = some call)
include hcall

theorem done (hfind : state.find call.id = some set)
    (hdone : semop proc call.ops set.toSems = .done sems) :
    Inv exact (((state.withLive (some { set with toSems := sems })).withOpens proc
      (update (state.opens proc) call.id (call.opens (state.opens proc call.id)))).goto
        proc call.next) := by
  obtain ⟨hlive, hid⟩ := live_of_find hfind
  cases hpc : state.pc proc <;> rw [hpc] at hcall <;> cases hcall <;> cases hid
  case createLock => exact hinv.createLock hlive hdone
  case createEnd => exact hinv.createEnd hlive hpc hdone
  case openCount => exact hinv.openCount hlive hpc hdone
  case closeLock => exact hinv.closeLock hlive hpc hdone
  case closeUnlock => exact hinv.closeUnlock hlive hpc hdone
  case semOp => exact hinv.semOp hlive hpc hdone

theorem error (errno : Errno) : Inv exact (state.goto proc (call.error errno)) := by
  cases hpc : state.pc proc <;> rw [hpc] at hcall <;> cases hcall
  case createLock id initval =>
    cases errno with
    | einval => exact hinv.leave hpc rfl ⟨rfl, nofun, nofun⟩
    | _ => exact hinv.giveUp hpc rfl
  all_goals exact hinv.giveUp hpc rfl

end Inv

/-! ## The other system calls -/

namespace Inv

variable {exact : Prop} {state state' : State P} {proc : P} {set : SemSet P}
variable (hinv : Inv exact state)
include hinv

theorem create (hlive : state.live = none) {initval : Int} :
    Inv exact ({ state with
      live := some (newSet P state.next)
      next := state.next + 1 }.goto proc (.createLock state.next initval)) := by
  have hunlocked : ∀ p, (state.pc p).locks = none := by
    intro p
    have hplace := hinv.places p
    rw [hlive] at hplace
    exact hplace.unlocked
  have hopens : ∀ p, state.opens p state.next = 0 := fun p => hinv.unused p _ le_rfl
  constructor
  · rintro _ ⟨⟩
    refine ⟨none, ?_, rfl, fun _ => rfl⟩
    refine (forall_update_iff state.pc fun p pc => pc.locks = some _ ↔ none = some p).mpr
      ⟨iff_of_false nofun nofun, fun p _ => ?_⟩
    rw [hunlocked p]
    exact iff_of_false nofun nofun
  · rintro _ ⟨⟩
    exact ⟨le_rfl, (by decide : 0 ≤ semvmx), fun _ => ⟨rfl, fun p => ⟨rfl, hopens p⟩⟩,
      fun _ => Int.natCast_nonneg _, fun _ => (by decide : -semaem ≤ 0), nofun, nofun⟩
  · rintro _ ⟨⟩
    exact Nat.lt_succ_self _
  · exact fun p id hge => hinv.unused p id (Nat.le_of_succ_le hge)
  · exact (forall_update_iff state.pc fun p pc => PcOk exact _ (state.opens p) pc).mpr
      ⟨Plain.pcOk ⟨rfl, nofun, nofun⟩, fun p _ => (hinv.places p).of_unlocked (hunlocked p)⟩

theorem createRead (hfew : exact → Few state) (hpc : state.pc proc = .createRead id initval)
    (hlive : state.live = some set) (hid : set.id = id) :
    Inv exact (state.goto proc (set.createPc id initval)) := by
  have hcount := hinv.count set hlive
  unfold SemSet.createPc
  split
  · exact hinv.giveUp hpc rfl
  · split
    · rename_i hzero
      refine hinv.goto (by rw [hpc]; rfl) ⟨nofun, ?_, nofun⟩
      rintro _ ⟨⟩
      refine ⟨set, hlive, hid, nofun, fun hexact _ => ?_⟩
      by_contra hinit
      have hval := hcount.val hexact (Bool.eq_true_of_not_eq_false hinit)
      have hlt := hfew hexact set hlive
      omega
    · rename_i hne
      refine hinv.goto (by rw [hpc]; rfl) ⟨nofun, ?_, nofun⟩
      rintro _ ⟨⟩
      exact ⟨set, hlive, hid, fun _ => hcount.initialised_of_val hne, nofun⟩

theorem createSet0 (hpc : state.pc proc = .createSet0 id initval) (hlive : state.live = some set)
    (hid : set.id = id) (hraw : exact → set.initialised = false) :
    Inv exact ((state.withLive (some { set with toSems := set.setval 0 initval })).goto proc
      (.createSet1 id)) := by
  obtain ⟨owner, hlock⟩ := hinv.lock set hlive
  refine hinv.replace hlive rfl rfl rfl rfl (update_eq_self proc state.opens).symm
    (hinv.unused proc) (fun _ _ _ => rfl) ⟨owner, ?_⟩ ?_ ⟨nofun, ?_, nofun⟩
  · refine hlock.keep rfl (by rw [hpc]; rfl) (Sems.setval_val_of_ne _ _ (by decide)) ?_
    exact fun p => Sems.setval_adj_of_ne _ _ (by decide)
  · rw [update_eq_self]
    exact (hinv.count set hlive).keep rfl rfl (Sems.setval_val_of_ne _ _ (by decide))
      fun p => Sems.setval_adj_of_ne _ _ (by decide)
  · rintro _ ⟨⟩
    exact ⟨_, rfl, hid, nofun, fun hexact _ => hraw hexact⟩

theorem createSet1 (hpc : state.pc proc = .createSet1 id) (hlive : state.live = some set)
    (hid : set.id = id) (hraw : exact → set.initialised = false) :
    Inv exact ((state.withLive (some { set with
      toSems := set.setval 1 bigcount
      initialised := true })).goto proc (.createEnd id)) := by
  obtain ⟨owner, hlock⟩ := hinv.lock set hlive
  have hlocks : (state.pc proc).locks = some set.id := by rw [hpc, hid]; rfl
  refine hinv.replace hlive rfl rfl rfl rfl (update_eq_self proc state.opens).symm
    (hinv.unused proc) ?_ ⟨owner, ?_⟩ ?_ ⟨nofun, ?_, nofun⟩
  · exact fun p hp hother => absurd (hinv.alone hlive hlocks hother) hp
  · refine hlock.keep rfl (by rw [hpc]; rfl) (Sems.setval_val_of_ne _ _ (by decide)) ?_
    exact fun p => Sems.setval_adj_of_ne _ _ (by decide)
  · rw [update_eq_self]
    exact (hinv.count set hlive).setval hraw
  · rintro _ ⟨⟩
    exact ⟨_, rfl, hid, fun _ => rfl, nofun⟩

theorem closeRead (hpc : state.pc proc = .closeRead id) (hlive : state.live = some set)
    (hid : set.id = id) (hinit : set.initialised = true) :
    Inv exact (state.goto proc (set.closePc id)) := by
  unfold SemSet.closePc
  split
  · exact hinv.giveUp hpc rfl
  · split
    · rename_i hbig
      refine hinv.goto (by rw [hpc]; rfl) ⟨nofun, ?_, fun hexact => ?_⟩
      · rintro _ ⟨⟩
        exact ⟨set, hlive, hid, nofun, nofun⟩
      · have hval := (hinv.count set hlive).val hexact hinit
        omega
    · split <;> refine hinv.goto (by rw [hpc]; rfl) ⟨nofun, ?_, nofun⟩ <;> rintro _ ⟨⟩
      · exact ⟨set, hlive, hid, fun _ => hinit, nofun⟩
      · exact ⟨set, hlive, hid, fun _ => hinit, nofun⟩

theorem closeRemove (hlive : state.live = some set) (hlocks : (state.pc proc).locks = some set.id) :
    Inv exact ((state.withLive none).goto proc (.idle none)) where
  lock := nofun
  count := nofun
  fresh := nofun
  unused := hinv.unused
  places := by
    refine (forall_update_iff state.pc fun p pc => PcOk exact none (state.opens p) pc).mpr
      ⟨Plain.pcOk ⟨rfl, nofun, nofun⟩, fun p hp => (hinv.places p).of_unlocked ?_⟩
    cases hother : (state.pc p).locks with
    | none => rfl
    | some id =>
      obtain ⟨set', hlive', rfl, _⟩ := (hinv.places p).locked id hother
      cases hlive.symm.trans hlive'
      exact absurd (hinv.alone hlive hlocks hother) hp

theorem exit : Inv exact (state.exit proc) := by
  cases hlive : state.live with
  | some set =>
    obtain ⟨owner, hlock⟩ := hinv.lock set hlive
    have hsome : (state.exit proc).live = some { set with toSems := set.toSems.exit proc } := by
      dsimp only [State.exit, State.goto, State.withOpens, State.withLive]
      rw [hlive]
      rfl
    exact hinv.replace hlive hsome rfl rfl rfl rfl (fun _ _ => rfl) (fun _ _ _ => rfl)
      (hlock.exit rfl) (hinv.count set hlive).exit (Plain.pcOk ⟨rfl, nofun, nofun⟩)
  | none =>
    have hnone : (state.exit proc).live = none := by
      dsimp only [State.exit, State.goto, State.withOpens, State.withLive]
      rw [hlive]
      rfl
    refine ⟨by rw [hnone]; nofun, by rw [hnone]; nofun, by rw [hnone]; nofun, ?_, ?_⟩
    · exact (forall_update_iff state.opens fun _ opens => ∀ id, state.next ≤ id → opens id = 0).mpr
        ⟨fun _ _ => rfl, fun p _ => hinv.unused p⟩
    · intro p
      have hplace := hinv.places p
      rw [hlive] at hplace
      rw [hnone]
      dsimp only [State.exit, State.goto, State.withOpens, State.withLive]
      by_cases hp : p = proc
      · subst hp
        rw [update_self, update_self]
        exact Plain.pcOk ⟨rfl, nofun, nofun⟩
      · rw [update_of_ne hp, update_of_ne hp]
        exact hplace

theorem goes (hfew : exact → Few state) {pc pc' : Pc} (hpc : state.pc proc = pc)
    (hgoes : Goes state proc pc pc') : Inv exact (state.goto proc pc') := by
  cases hgoes with
  | createRead hfind =>
    obtain ⟨hlive, hid⟩ := live_of_find hfind
    exact hinv.createRead hfew hpc hlive hid
  | closeRead hfind =>
    obtain ⟨set', hlive, hfind', hid, hready, _⟩ := hinv.find_of_locks (by rw [hpc]; rfl)
    cases hfind.symm.trans hfind'
    rw [hpc] at hready
    exact hinv.closeRead hpc hlive hid (hready trivial)
  | outOfRange => exact hinv.giveUp hpc rfl
  | missing hlocks hfind =>
    obtain ⟨_, _, hfind', _⟩ := hinv.find_of_locks (hpc ▸ hlocks)
    cases hfind.symm.trans hfind'
  | removed hcall | range hcall => exact hinv.error (hpc ▸ hcall) _
  | _ => exact hinv.leave hpc rfl ⟨rfl, nofun, nofun⟩

theorem run (hfew : exact → Few state) (hran : Ran state proc state') : Inv exact state' := by
  cases hran with
  | goto hpc hgoes => exact hinv.goes hfew hpc hgoes
  | create _ hlive => exact hinv.create hlive
  | set0 hpc hfind =>
    obtain ⟨set', hlive, hfind', hid, _, hraw⟩ := hinv.find_of_locks (by rw [hpc]; rfl)
    cases hfind.symm.trans hfind'
    rw [hpc] at hraw
    exact hinv.createSet0 hpc hlive hid fun hexact => hraw hexact trivial
  | set1 hpc hfind =>
    obtain ⟨set', hlive, hfind', hid, _, hraw⟩ := hinv.find_of_locks (by rw [hpc]; rfl)
    cases hfind.symm.trans hfind'
    rw [hpc] at hraw
    exact hinv.createSet1 hpc hlive hid fun hexact => hraw hexact trivial
  | remove hpc hfind =>
    obtain ⟨hlive, hid⟩ := live_of_find hfind
    exact hinv.closeRemove hlive (by rw [hpc, hid]; rfl)
  | done hcall hfind hdone => exact hinv.done hcall hfind hdone
  | sleep => exact ⟨hinv.lock, hinv.count, hinv.fresh, hinv.unused, hinv.places⟩

theorem call {key : Int} {result : Option Nat} {pc : Pc} {call : Call}
    (hpc : state.pc proc = .idle result) (hstart : start key (state.opens proc) call = some pc) :
    Inv exact (state.goto proc pc) := by
  cases call with
  | semCreate initval | semOpen | semOp id value =>
    cases hstart
    split <;> exact hinv.leave hpc rfl ⟨rfl, nofun, nofun⟩
  | semClose id =>
    dsimp only [start] at hstart
    split at hstart
    · cases hstart
    · rename_i hopen
      cases hstart
      refine hinv.goto (by rw [hpc]; rfl) ⟨?_, nofun, nofun⟩
      rintro _ ⟨⟩
      exact Nat.pos_of_ne_zero hopen
  | semRm => cases hstart

theorem act (hfew : exact → Few state) {key : Int} {action : Action P}
    (hacted : Acted key state action state') : Inv exact state' := by
  cases hacted with
  | call hpc hstart => exact hinv.call hpc hstart
  | run hran => exact hinv.run hfew hran
  | noSpace hpc => exact hinv.leave hpc rfl ⟨rfl, nofun, nofun⟩
  | exit => exact hinv.exit

end Inv

end Invariant

section Runs

variable [DecidableEq P]

instance [Fintype P] (state : State P) : Decidable (Few state) :=
  match hlive : state.live with
  | none => isTrue fun set hset => by cases hlive.symm.trans hset
  | some set =>
    decidable_of_iff ((total state.opens set.id : Int) < bigcount) <| by
      constructor
      · intro hlt set' hset
        cases hlive.symm.trans hset
        exact hlt
      · exact fun hfew => hfew set hlive

/-- A step that meets a condition. -/
def actIf (key : Int) (cond : State P → Action P → State P → Prop)
    [∀ state action state', Decidable (cond state action state')] (state : State P)
    (action : Action P) : Option (State P) :=
  (act key state action).filter fun state' => action.removes = false ∧ cond state action state'

theorem reached_of_acts {key : Int} {cond : State P → Action P → State P → Prop}
    [∀ state action state', Decidable (cond state action state')] {actions : List (Action P)}
    {state : State P} (hacts : actions.foldlM (actIf key cond) (initial P) = some state) :
    Reached key cond state := by
  refine reaches_schedule (fun before action after hact => ?_) (.start rfl) hacts
  obtain ⟨hact, hmeets⟩ := Option.filter_eq_some_iff.mp hact
  exact ⟨action, hact, of_decide_eq_true hmeets⟩

def creates (proc : P) : List (Action P) :=
  .call proc (.semCreate 1) :: List.replicate 6 (.run proc)

def openIt (proc : P) : List (Action P) :=
  .call proc .semOpen :: List.replicate 2 (.run proc)

end Runs

section Reached

variable [DecidableEq P] [Fintype P]

/-- The invariant holds in every run, and exactly so with few opens. -/
theorem Reached.inv {exact : Prop} {key : Int} {cond : State P → Action P → State P → Prop}
    (hcond : exact → ∀ state action state', cond state action state' → Few state')
    {state : State P} (hreached : Reached key cond state) :
    Inv exact state ∧ (exact → Few state) := by
  induction hreached with
  | start hinit =>
    subst hinit
    exact ⟨inv_initial exact, fun _ => nofun⟩
  | step _ hstep ih =>
    obtain ⟨action, hact, hshared, hmeets⟩ := hstep
    exact ⟨ih.1.act ih.2 (acted_of_act hact hshared), fun hexact => hcond hexact _ _ _ hmeets⟩

/-- With fewer than `BIGCOUNT` opens at any time, an initialised set has `BIGCOUNT` minus
the number of its opens in [1], the lock in [2] is 1 exactly while a process has it, and no
`sem_close` finds more than `BIGCOUNT`. -/
theorem counter_accounts {key : Int} {state : State P}
    (hreached : Reached key (fun _ _ state' => Few state') state) :
    (∀ set, state.live = some set → set.initialised = true →
      set.val 1 = bigcount - total state.opens set.id ∧
      ((∃ p, (state.pc p).locks = some set.id) → set.val 2 = 1) ∧
      ((∀ p, (state.pc p).locks ≠ some set.id) → set.val 2 = 0)) ∧
    ∀ p text lock, state.pc p ≠ .errDump text lock := by
  obtain ⟨hinv, _⟩ := @Reached.inv _ _ _ True _ _ (fun _ _ _ _ hfew => hfew) _ hreached
  refine ⟨fun set hlive hinit => ?_, fun p => (hinv.places p).noDump trivial⟩
  obtain ⟨owner, hlock⟩ := hinv.lock set hlive
  refine ⟨?_, ?_, ?_⟩
  · have hval := (hinv.count set hlive).val trivial hinit
    omega
  · rintro ⟨p, hlocks⟩
    rw [hlock.val, hlock.owner_eq hlocks, if_neg nofun]
  · intro hnone
    have howner : owner = none := by
      cases owner with
      | none => rfl
      | some p => exact absurd ((hlock.holds p).mpr rfl) (hnone p)
    rw [hlock.val, if_pos howner]

/-- One process has created the semaphore and another one has opened it. -/
theorem counter_accounts_two_users : ∃ (state : State Bool) (set : SemSet Bool),
      Reached 1 (fun _ _ state' => Few state') state ∧ state.live = some set ∧
      set.initialised = true ∧ total state.opens set.id = 2 ∧
      set.val 1 = bigcount - total state.opens set.id := by
  have hreached := @reached_of_acts Bool _ 1 (fun _ _ state' => Few state') _
    (creates true ++ openIt false) _ rfl
  exact ⟨_, _, hreached, rfl, rfl, rfl, ((counter_accounts hreached).1 _ rfl rfl).1⟩

/-- In every run at all, the process that has the lock is the only one and finds its set; the
lock is free again when nobody has it, also when its owner has exited. -/
theorem lock_excludes {key : Int} {cond : State P → Action P → State P → Prop} {state : State P}
    (hreached : Reached key cond state) :
    (∀ p id, (state.pc p).locks = some id →
      (∃ set, state.live = some set ∧ set.id = id ∧ set.val 2 = 1) ∧
        ∀ q, (state.pc q).locks ≠ none → q = p) ∧
    ∀ set, state.live = some set → (∀ p, (state.pc p).locks = none) → set.val 2 = 0 := by
  obtain ⟨hinv, _⟩ := @Reached.inv _ _ _ False _ _ False.elim _ hreached
  refine ⟨fun p id hlocks => ?_, fun set hlive hfree => ?_⟩
  · obtain ⟨set, hlive, _, hid, _⟩ := hinv.find_of_locks hlocks
    obtain ⟨owner, hlock⟩ := hinv.lock set hlive
    have howner := hlock.owner_eq (hid ▸ hlocks)
    refine ⟨⟨set, hlive, hid, ?_⟩, fun q hq => ?_⟩
    · rw [hlock.val, howner, if_neg (Option.some_ne_none p)]
    · obtain ⟨id', hlocks'⟩ := Option.ne_none_iff_exists'.mp hq
      obtain ⟨set', hlive', _, hid', _⟩ := hinv.find_of_locks hlocks'
      cases hlive.symm.trans hlive'
      exact Option.some.inj ((hlock.owner_eq (hid' ▸ hlocks')).symm.trans howner)
  · obtain ⟨owner, hlock⟩ := hinv.lock set hlive
    cases owner with
    | none => exact hlock.val
    | some p =>
      have hlocks := (hlock.holds p).mpr rfl
      rw [hfree p] at hlocks
      cases hlocks

/-- A process is creating the semaphore when another one asks for it. -/
theorem lock_excludes_creating : ∃ (state : State Bool) (id : Nat),
    Reached 1 (fun _ _ _ => True) state ∧ (state.pc true).locks = some id ∧
      ∀ q, (state.pc q).locks ≠ none → q = true := by
  have hreached := @reached_of_acts Bool _ 1 (fun _ _ _ => True) _
    ((creates true).take 3 ++ [.call false .semOpen]) _ rfl
  exact ⟨_, _, hreached, rfl, ((lock_excludes hreached).1 true _ rfl).2⟩

end Reached

end ApueFormal.Semaphore
