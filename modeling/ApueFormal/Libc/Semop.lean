import Mathlib.Logic.Function.Basic
import Mathlib.Order.Lattice
import Mathlib.Data.Int.Order.Basic

/-!
# System V semaphores

A set of semaphores has some members.  An array of operations is done as a whole,
or not at all.  What a process does with `SEM_UNDO` is counted in its
adjustments, which are added to the members when it exits.
-/

namespace ApueFormal.Libc

open Function

/-- `struct sembuf`. -/
structure Sembuf (M : Type) where
  num : M
  op : Int
  undo : Bool

def semvmx : Int := 32767

def semaem : Int := 32767

/-- The values of the members, and the adjustments of each process. -/
structure Sems (P M : Type) where
  val : M → Int
  adj : P → M → Int

inductive Semop (σ : Type) where
  | done (state : σ)
  /-- The caller sleeps. -/
  | block
  /-- `ERANGE`. -/
  | range

namespace Sems

variable {P M : Type}

section Add

variable [DecidableEq P] [DecidableEq M]

/-- An operation that is counted in the adjustments of the process. -/
def add (sems : Sems P M) (proc : P) (num : M) (amount : Int) : Sems P M where
  val := Function.update sems.val num (sems.val num + amount)
  adj := Function.update sems.adj proc
    (Function.update (sems.adj proc) num (sems.adj proc num - amount))

variable (sems : Sems P M) {proc proc' : P} {num num' : M} (amount : Int)

@[simp] theorem add_val_self : (sems.add proc num amount).val num = sems.val num + amount :=
  update_self ..

@[simp] theorem add_val_of_ne (hne : num' ≠ num) :
    (sems.add proc num amount).val num' = sems.val num' :=
  update_of_ne hne ..

@[simp] theorem add_adj_self :
    (sems.add proc num amount).adj proc num = sems.adj proc num - amount := by
  simp [add]

@[simp] theorem add_adj_of_num_ne (hne : num' ≠ num) :
    (sems.add proc num amount).adj proc' num' = sems.adj proc' num' := by
  by_cases hproc : proc' = proc
  · subst hproc
    simp [add, hne]
  · simp [add, hproc]

@[simp] theorem add_adj_of_proc_ne (hne : proc' ≠ proc) :
    (sems.add proc num amount).adj proc' num' = sems.adj proc' num' := by
  simp [add, hne]

end Add

section Setval

variable [DecidableEq M]

/-- An operation without `SEM_UNDO`. -/
def addOnly (sems : Sems P M) (num : M) (amount : Int) : Sems P M :=
  { sems with val := Function.update sems.val num (sems.val num + amount) }

/-- `SETVAL` clears the adjustments of the member. -/
def setval (sems : Sems P M) (num : M) (value : Int) : Sems P M where
  val := Function.update sems.val num value
  adj proc := Function.update (sems.adj proc) num 0

variable (sems : Sems P M) {proc : P} {num num' : M} (value : Int)

@[simp] theorem setval_val_self : (sems.setval num value).val num = value :=
  update_self ..

@[simp] theorem setval_val_of_ne (hne : num' ≠ num) :
    (sems.setval num value).val num' = sems.val num' :=
  update_of_ne hne ..

@[simp] theorem setval_adj_self : (sems.setval num value).adj proc num = 0 :=
  update_self ..

@[simp] theorem setval_adj_of_ne (hne : num' ≠ num) :
    (sems.setval num value).adj proc num' = sems.adj proc num' :=
  update_of_ne hne ..

end Setval

section Exit

variable [DecidableEq P]

/-- The kernel adds the adjustments of a process that exits. -/
def exit (sems : Sems P M) (proc : P) : Sems P M where
  val num := max 0 (min semvmx (sems.val num + sems.adj proc num))
  adj := Function.update sems.adj proc fun _ => 0

variable (sems : Sems P M) {proc proc' : P} {num : M}

@[simp] theorem exit_adj_self : (sems.exit proc).adj proc num = 0 := by
  simp [exit]

@[simp] theorem exit_adj_of_ne (hne : proc' ≠ proc) :
    (sems.exit proc).adj proc' num = sems.adj proc' num := by
  simp [exit, hne]

theorem exit_val (hzero : 0 ≤ sems.val num + sems.adj proc num)
    (hmax : sems.val num + sems.adj proc num ≤ semvmx) :
    (sems.exit proc).val num = sems.val num + sems.adj proc num := by
  dsimp only [exit]
  omega

theorem exit_val_nonneg : 0 ≤ (sems.exit proc).val num := by
  dsimp only [exit]
  omega

theorem exit_val_le : (sems.exit proc).val num ≤ semvmx := by
  have hpos : 0 ≤ semvmx := by decide
  dsimp only [exit]
  omega

end Exit

end Sems

section Arrays

variable {P M : Type} [DecidableEq P] [DecidableEq M]

def semop (proc : P) : List (Sembuf M) → Sems P M → Semop (Sems P M)
  | [], sems => .done sems
  | buf :: rest, sems =>
    if buf.op = 0 then
      if sems.val buf.num = 0 then semop proc rest sems else .block
    else if sems.val buf.num + buf.op < 0 then
      .block
    else if semvmx < sems.val buf.num + buf.op then
      .range
    else if buf.undo then
      if sems.adj proc buf.num - buf.op < -semaem ∨ semaem < sems.adj proc buf.num - buf.op then
        .range
      else
        semop proc rest (sems.add proc buf.num buf.op)
    else
      semop proc rest (sems.addOnly buf.num buf.op)

variable {proc : P} {num : M} {rest : List (Sembuf M)} {sems sems' : Sems P M}

/-- An operation with `SEM_UNDO` meets no bound. -/
structure Fits (proc : P) (num : M) (amount : Int) (sems : Sems P M) : Prop where
  nonneg : 0 ≤ sems.val num + amount
  max : sems.val num + amount ≤ semvmx
  adj_min : -semaem ≤ sems.adj proc num - amount
  adj_max : sems.adj proc num - amount ≤ semaem

theorem semop_zero {undo : Bool} : semop proc (⟨num, 0, undo⟩ :: rest) sems =
      if sems.val num = 0 then semop proc rest sems else .block := by
  rfl

variable {amount : Int}

theorem semop_add_of_fits (hamount : amount ≠ 0) (hfits : Fits proc num amount sems) :
    semop proc (⟨num, amount, true⟩ :: rest) sems = semop proc rest (sems.add proc num amount) := by
  obtain ⟨hnonneg, hmax, hadj, hadj'⟩ := hfits
  rw [semop, if_neg hamount, if_neg (by dsimp only; omega), if_neg (by dsimp only; omega),
    if_pos rfl, if_neg (by dsimp only; omega)]

theorem fits_of_done (hamount : amount ≠ 0)
    (hdone : semop proc (⟨num, amount, true⟩ :: rest) sems = .done sems') :
    Fits proc num amount sems ∧ semop proc rest (sems.add proc num amount) = .done sems' := by
  rw [semop, if_neg hamount] at hdone
  dsimp only at hdone
  split at hdone
  · cases hdone
  · split at hdone
    · cases hdone
    · rw [if_pos rfl] at hdone
      split at hdone
      · cases hdone
      · exact ⟨⟨by omega, by omega, by omega, by omega⟩, hdone⟩

theorem not_range_of (hamount : amount ≠ 0) (hmax : sems.val num + amount ≤ semvmx)
    (hadj : -semaem ≤ sems.adj proc num - amount) (hadj' : sems.adj proc num - amount ≤ semaem)
    (hrest : semop proc rest (sems.add proc num amount) ≠ .range) :
    semop proc (⟨num, amount, true⟩ :: rest) sems ≠ .range := by
  by_cases hblock : sems.val num + amount < 0
  · rw [semop, if_neg hamount, if_pos hblock]
    nofun
  · rw [semop_add_of_fits hamount ⟨by omega, hmax, hadj, hadj'⟩]
    exact hrest

end Arrays

end ApueFormal.Libc
