import ApueFormal.Program.Schedule
import ApueFormal.Semaphore.Model
import Mathlib.Algebra.Order.BigOperators.Group.Finset
import Mathlib.Data.Fintype.BigOperators

/-!
# The invariant of the semaphore package

Member [2] is accounted for by its owner, and member [1] by the numbers of opens,
together with the adjustments of all processes.  The account of [1] is exact as long
as there are fewer than `BIGCOUNT` opens; with more, `sem_create` takes a set in use
for a new one.
-/

namespace ApueFormal.Semaphore

open Function Libc Program

section Arrays

variable {P : Type} [DecidableEq P] {proc : P} {sems sems' : Sems P (Fin 3)}

theorem done_opLock (hdone : semop proc opLock sems = .done sems') :
    sems.val 2 = 0 ∧ sems' = sems.add proc 2 1 := by
  rw [opLock, semop_zero] at hdone
  split at hdone
  · rename_i hzero
    obtain ⟨_, hrest⟩ := fits_of_done (by decide) hdone
    cases hrest
    exact ⟨hzero, rfl⟩
  · cases hdone

theorem done_opEndcreate (hdone : semop proc opEndcreate sems = .done sems') :
    Fits proc 1 (-1) sems ∧ sems' = (sems.add proc 1 (-1)).add proc 2 (-1) := by
  obtain ⟨hfits, hrest⟩ := fits_of_done (by decide) hdone
  obtain ⟨_, hend⟩ := fits_of_done (by decide) hrest
  cases hend
  exact ⟨hfits, rfl⟩

theorem done_opOpen (hdone : semop proc opOpen sems = .done sems') :
    Fits proc 1 (-1) sems ∧ sems' = sems.add proc 1 (-1) := by
  obtain ⟨hfits, hrest⟩ := fits_of_done (by decide) hdone
  cases hrest
  exact ⟨hfits, rfl⟩

theorem done_opClose (hdone : semop proc opClose sems = .done sems') :
    sems.val 2 = 0 ∧ Fits proc 1 1 sems ∧ sems' = (sems.add proc 2 1).add proc 1 1 := by
  rw [opClose, semop_zero] at hdone
  split at hdone
  · rename_i hzero
    obtain ⟨_, hrest⟩ := fits_of_done (by decide) hdone
    obtain ⟨⟨hnonneg, hmax, hmin, hadj⟩, hend⟩ := fits_of_done (by decide) hrest
    cases hend
    rw [Sems.add_val_of_ne _ _ (by decide)] at hnonneg hmax
    rw [Sems.add_adj_of_num_ne _ _ (by decide)] at hmin hadj
    exact ⟨hzero, ⟨hnonneg, hmax, hmin, hadj⟩, rfl⟩
  · cases hdone

theorem done_opUnlock (hdone : semop proc opUnlock sems = .done sems') :
    sems' = sems.add proc 2 (-1) := by
  obtain ⟨_, hrest⟩ := fits_of_done (by decide) hdone
  cases hrest
  rfl

theorem done_opOp {value : Int} (hdone : semop proc (opOp value) sems = .done sems')
    {num : Fin 3} (hnum : num ≠ 0) :
    sems'.val num = sems.val num ∧ ∀ p, sems'.adj p num = sems.adj p num := by
  rw [opOp] at hdone
  generalize wrap 16 value = amount at hdone
  by_cases hamount : amount = 0
  · subst hamount
    rw [semop_zero] at hdone
    split at hdone
    · cases hdone
      exact ⟨rfl, fun _ => rfl⟩
    · cases hdone
  · obtain ⟨_, hrest⟩ := fits_of_done hamount hdone
    cases hrest
    exact ⟨Sems.add_val_of_ne _ _ hnum, fun p => Sems.add_adj_of_num_ne _ _ hnum⟩

end Arrays

section Lock

variable {P : Type} [DecidableEq P]

/-- Member [2] and its adjustments say who has the lock. -/
structure LockOk (pcs : P → Pc) (set : SemSet P) (owner : Option P) : Prop where
  holds : ∀ p, (pcs p).locks = some set.id ↔ owner = some p
  val : set.val 2 = if owner = none then 0 else 1
  adj : ∀ p, set.adj p 2 = if owner = some p then -1 else 0

namespace LockOk

variable {pcs : P → Pc} {set set' : SemSet P} {owner : Option P} {proc : P} {pc : Pc}
variable (hlock : LockOk pcs set owner)
include hlock

theorem owner_eq (hlocks : (pcs proc).locks = some set.id) : owner = some proc :=
  (hlock.holds proc).mp hlocks

theorem eq_none (hzero : set.val 2 = 0) : owner = none := by
  by_contra hsome
  have hone := hlock.val
  rw [if_neg hsome, hzero] at hone
  cases hone

theorem keep (hid : set'.id = set.id)
    (hlocks : pc.locks = (pcs proc).locks) (hval : set'.val 2 = set.val 2)
    (hadj : ∀ p, set'.adj p 2 = set.adj p 2) : LockOk (update pcs proc pc) set' owner where
  holds := by
    rw [hid]
    exact (forall_update_iff pcs fun p pc => pc.locks = some set.id ↔ owner = some p).mpr
      ⟨hlocks ▸ hlock.holds proc, fun p _ => hlock.holds p⟩
  val := hval.trans hlock.val
  adj p := (hadj p).trans (hlock.adj p)

theorem take (hzero : set.val 2 = 0) (hid : set'.id = set.id) (hlocks : pc.locks = some set.id)
    (hval : set'.val 2 = set.val 2 + 1) (hadj : set'.adj proc 2 = set.adj proc 2 - 1)
    (hother : ∀ p, p ≠ proc → set'.adj p 2 = set.adj p 2) :
    LockOk (update pcs proc pc) set' (some proc) := by
  obtain rfl := hlock.eq_none hzero
  refine ⟨?_, ?_, ?_⟩
  · rw [hid]
    refine (forall_update_iff pcs fun p pc => pc.locks = some set.id ↔ some proc = some p).mpr
      ⟨iff_of_true hlocks rfl, fun p hp => (hlock.holds p).trans ?_⟩
    exact iff_of_false nofun fun hsome => hp (Option.some.inj hsome).symm
  · rw [hval, hzero, if_neg nofun]
    rfl
  · intro p
    by_cases hp : p = proc
    · subst hp
      rw [hadj, hlock.adj p, if_neg nofun, if_pos rfl]
      rfl
    · rw [hother p hp, hlock.adj p, if_neg nofun,
        if_neg fun hsome => hp (Option.some.inj hsome).symm]

omit hlock in
theorem release (hlock : LockOk pcs set (some proc)) (hid : set'.id = set.id)
    (hlocks : pc.locks = none) (hval : set'.val 2 = set.val 2 - 1)
    (hadj : set'.adj proc 2 = 0) (hother : ∀ p, p ≠ proc → set'.adj p 2 = set.adj p 2) :
    LockOk (update pcs proc pc) set' none := by
  refine ⟨?_, ?_, ?_⟩
  · rw [hid]
    refine (forall_update_iff pcs fun p pc => pc.locks = some set.id ↔ none = some p).mpr
      ⟨iff_of_false (hlocks ▸ nofun) nofun, fun p hp => (hlock.holds p).trans ?_⟩
    exact iff_of_false (fun hsome => hp (Option.some.inj hsome).symm) nofun
  · rw [hval, hlock.val, if_neg nofun, if_pos rfl]
    rfl
  · intro p
    by_cases hp : p = proc
    · subst hp
      rw [hadj, if_neg nofun]
    · rw [hother p hp, hlock.adj p, if_neg fun hsome => hp (Option.some.inj hsome).symm,
        if_neg nofun]

theorem exit (hpc : pc.locks = none) :
    ∃ owner', LockOk (update pcs proc pc) { set with toSems := set.toSems.exit proc } owner' := by
  by_cases howner : owner = some proc
  · subst howner
    have hval := hlock.val
    have hadj := hlock.adj proc
    rw [if_neg nofun] at hval
    rw [if_pos rfl] at hadj
    refine ⟨none, hlock.release rfl hpc ?_ (Sems.exit_adj_self _) ?_⟩
    · refine (Sems.exit_val _ ?_ ?_).trans ?_ <;> rw [hval, hadj] <;> decide
    · exact fun p hp => Sems.exit_adj_of_ne _ hp
  · have hadj := hlock.adj proc
    rw [if_neg howner] at hadj
    have hval : set.val 2 = 0 ∨ set.val 2 = 1 := by
      rw [hlock.val]
      split
      · exact .inl rfl
      · exact .inr rfl
    have hbound : 0 ≤ set.val 2 + set.adj proc 2 ∧ set.val 2 + set.adj proc 2 ≤ semvmx := by
      unfold semvmx
      omega
    refine ⟨owner, ?_, ?_, ?_⟩
    · exact (forall_update_iff pcs fun p pc => pc.locks = some set.id ↔ owner = some p).mpr
        ⟨iff_of_false (hpc ▸ nofun) howner, fun p _ => hlock.holds p⟩
    · refine (Sems.exit_val _ hbound.1 hbound.2).trans ?_
      rw [hadj, Int.add_zero, hlock.val]
    · intro p
      by_cases hp : p = proc
      · subst hp
        rw [if_neg howner]
        exact Sems.exit_adj_self _
      · exact (Sems.exit_adj_of_ne _ hp).trans (hlock.adj p)

end LockOk

end Lock

section Counter

variable {P : Type} [Fintype P]

/-- The number of opens of a set by all processes. -/
def total (opens : P → Nat → Nat) (id : Nat) : Nat := ∑ p, opens p id

theorem opens_le_total (opens : P → Nat → Nat) (id : Nat) (p : P) : opens p id ≤ total opens id :=
  Finset.single_le_sum (f := fun p => opens p id) (fun _ _ => Nat.zero_le _) (Finset.mem_univ p)

theorem total_update [DecidableEq P] (opens : P → Nat → Nat) (proc : P) (opens' : Nat → Nat)
    (id : Nat) :
    total (update opens proc opens') id + opens proc id = total opens id + opens' id :=
  Program.sum_update (fun open' : Nat → Nat => open' id) opens proc opens'

/-- Member [1] and its adjustments say how often the set is open; they do so exactly if
there have never been too many opens. -/
structure CountOk (exact : Prop) (opens : P → Nat → Nat) (set : SemSet P) : Prop where
  nonneg : 0 ≤ set.val 1
  max : set.val 1 ≤ semvmx
  raw : set.initialised = false → set.val 1 = 0 ∧ ∀ p, set.adj p 1 = 0 ∧ opens p set.id = 0
  adj_le : ∀ p, set.adj p 1 ≤ opens p set.id
  adj_ge : ∀ p, -semaem ≤ set.adj p 1
  val : exact → set.initialised = true → set.val 1 + total opens set.id = bigcount
  adj : exact → set.initialised = true → ∀ p, set.adj p 1 = opens p set.id

namespace CountOk

variable {exact : Prop} {opens : P → Nat → Nat} {set set' : SemSet P} {proc : P}
variable (hcount : CountOk exact opens set)
include hcount

theorem initialised_of_open (hopen : 0 < opens proc set.id) : set.initialised = true := by
  cases hinit : set.initialised with
  | true => rfl
  | false =>
    have hzero := ((hcount.raw hinit).2 proc).2
    omega

theorem initialised_of_val (hval : set.val 1 ≠ 0) : set.initialised = true := by
  cases hinit : set.initialised with
  | true => rfl
  | false => exact absurd (hcount.raw hinit).1 hval

theorem keep (hid : set'.id = set.id)
    (hinit : set'.initialised = set.initialised) (hval : set'.val 1 = set.val 1)
    (hadj : ∀ p, set'.adj p 1 = set.adj p 1) : CountOk exact opens set' := by
  constructor
  · rw [hval]
    exact hcount.nonneg
  · rw [hval]
    exact hcount.max
  · rw [hinit, hval, hid]
    intro hraw
    refine ⟨(hcount.raw hraw).1, fun p => ?_⟩
    rw [hadj]
    exact (hcount.raw hraw).2 p
  · intro p
    rw [hadj, hid]
    exact hcount.adj_le p
  · intro p
    rw [hadj]
    exact hcount.adj_ge p
  · rw [hinit, hval, hid]
    exact hcount.val
  · intro hexact hready p
    rw [hadj, hid]
    exact hcount.adj hexact (hinit ▸ hready) p

theorem setval (hraw : exact → set.initialised = false) :
    CountOk exact opens { set with toSems := set.setval 1 bigcount, initialised := true } := by
  have hzero : exact → ∀ p, opens p set.id = 0 := fun hexact p =>
    ((hcount.raw (hraw hexact)).2 p).2
  refine ⟨?_, ?_, nofun, ?_, ?_, ?_, ?_⟩
  · rw [Sems.setval_val_self]
    decide
  · rw [Sems.setval_val_self]
    decide
  · intro p
    rw [Sems.setval_adj_self]
    exact Int.natCast_nonneg _
  · intro p
    rw [Sems.setval_adj_self]
    decide
  · intro hexact _
    have htotal : total opens set.id = 0 := Finset.sum_eq_zero fun p _ => hzero hexact p
    rw [Sems.setval_val_self, htotal]
    rfl
  · intro hexact _ p
    rw [Sems.setval_adj_self, hzero hexact p]
    rfl

variable [DecidableEq P]

theorem change (hinit : set.initialised = true) {sems : Sems P (Fin 3)} {amount : Int} {count : Nat}
    (hfits : Fits proc 1 amount set.toSems) (hval : sems.val 1 = set.val 1 + amount)
    (hadj : sems.adj proc 1 = set.adj proc 1 - amount)
    (hother : ∀ p, p ≠ proc → sems.adj p 1 = set.adj p 1)
    (hopens : (count : Int) = opens proc set.id - amount) :
    CountOk exact (update opens proc (update (opens proc) set.id count))
      { set with toSems := sems } := by
  have hself : ∀ p, p = proc → update opens proc
      (update (opens proc) set.id count) p set.id = count := by
    rintro p rfl
    rw [update_self, update_self]
  have hframe : ∀ p, p ≠ proc → update opens proc
      (update (opens proc) set.id count) p set.id = opens p set.id := by
    intro p hp
    rw [update_of_ne hp]
  constructor
  · show 0 ≤ sems.val 1
    rw [hval]
    exact hfits.nonneg
  · show sems.val 1 ≤ semvmx
    rw [hval]
    exact hfits.max
  · intro hraw
    cases hraw.symm.trans hinit
  · intro p
    by_cases hp : p = proc
    · have hle := hcount.adj_le proc
      rw [hself p hp, hp]
      show sems.adj proc 1 ≤ count
      omega
    · rw [hframe p hp]
      exact (hother p hp).trans_le (hcount.adj_le p)
  · intro p
    by_cases hp : p = proc
    · rw [hp]
      exact hadj.symm ▸ hfits.adj_min
    · exact (hother p hp).symm ▸ hcount.adj_ge p
  · intro hexact _
    have htotal := total_update opens proc (update (opens proc) set.id count) set.id
    have hold := hcount.val hexact hinit
    rw [update_self] at htotal
    show sems.val 1 + total (update opens proc
      (update (opens proc) set.id count)) set.id = bigcount
    omega
  · intro hexact _ p
    by_cases hp : p = proc
    · have hold := hcount.adj hexact hinit proc
      rw [hself p hp, hp]
      show sems.adj proc 1 = count
      omega
    · rw [hframe p hp]
      exact (hother p hp).trans (hcount.adj hexact hinit p)

theorem exit : CountOk exact (update opens proc fun _ => 0)
      { set with toSems := set.toSems.exit proc } := by
  have hsame : ∀ p, p = proc → update opens proc (fun _ => 0) p set.id = 0 := by
    rintro p rfl
    rw [update_self]
  have hframe : ∀ p, p ≠ proc → update opens proc (fun _ => 0) p set.id = opens p set.id := by
    intro p hp
    rw [update_of_ne hp]
  constructor
  · exact Sems.exit_val_nonneg _
  · exact Sems.exit_val_le _
  · intro hraw
    obtain ⟨hval, hzero⟩ := hcount.raw hraw
    refine ⟨?_, fun p => ?_⟩
    · refine (Sems.exit_val _ ?_ ?_).trans ?_ <;> rw [hval, (hzero proc).1] <;> decide
    · by_cases hp : p = proc
      · refine ⟨?_, hsame p hp⟩
        rw [hp]
        exact Sems.exit_adj_self _
      · rw [hframe p hp]
        exact ⟨(Sems.exit_adj_of_ne _ hp).trans (hzero p).1, (hzero p).2⟩
  · intro p
    by_cases hp : p = proc
    · rw [hsame p hp, hp]
      exact (Sems.exit_adj_self _).le
    · rw [hframe p hp]
      exact (Sems.exit_adj_of_ne _ hp).trans_le (hcount.adj_le p)
  · intro p
    by_cases hp : p = proc
    · rw [hp, Sems.exit_adj_self]
      decide
    · rw [Sems.exit_adj_of_ne _ hp]
      exact hcount.adj_ge p
  · intro hexact hinit
    have hval := hcount.val hexact hinit
    have hadj := hcount.adj hexact hinit proc
    have htotal := total_update opens proc (fun _ => 0) set.id
    have hle := opens_le_total opens set.id proc
    unfold bigcount at hval
    have hexit : (set.toSems.exit proc).val 1 = set.val 1 + set.adj proc 1 := by
      have hnonneg := hcount.nonneg
      refine Sems.exit_val _ ?_ ?_
      · omega
      · unfold semvmx
        omega
    show (set.toSems.exit proc).val 1 + total (update opens proc fun _ => 0) set.id = bigcount
    unfold bigcount
    rw [hexit]
    omega
  · intro hexact hinit p
    by_cases hp : p = proc
    · rw [hsame p hp, hp]
      exact Sems.exit_adj_self _
    · rw [hframe p hp]
      exact (Sems.exit_adj_of_ne _ hp).trans (hcount.adj hexact hinit p)

end CountOk

end Counter

end ApueFormal.Semaphore
