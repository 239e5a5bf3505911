import Mathlib.Logic.Function.Basic
import Mathlib.Data.List.Range

/-!
# Descriptor tables

The descriptors of a process, each open on some description or free.
-/

namespace ApueFormal.Libc

open Function

/-- What each descriptor of a process is open on. -/
abbrev Table (α : Type) := Nat → Option α

namespace Table

variable {α : Type}

def opened (table : Table α) (fd : Nat) (desc : α) : Table α := Function.update table fd (some desc)

def close (table : Table α) (fd : Nat) : Table α := Function.update table fd none

/-- `dup2`; it fails on a descriptor that is not open. -/
def dup2 (table : Table α) (old new : Nat) : Table α :=
  match table old with
  | none => table
  | some desc => table.opened new desc

/-- Close the descriptors below a bound that are marked, one after the other. -/
def closeMarked (marked : Nat → Prop) [DecidablePred marked] (bound : Nat) (table : Table α) :
    Table α :=
  (List.range bound).foldl (fun table fd => if marked fd then table.close fd else table) table

@[simp] theorem opened_self (table : Table α) (fd : Nat) (desc : α) :
    table.opened fd desc fd = some desc :=
  update_self ..

variable {fd other : Nat} {table : Table α} {desc : α}

theorem opened_of_ne (hne : other ≠ fd) (table : Table α) (desc : α) :
    table.opened fd desc other = table other :=
  update_of_ne hne ..

theorem opened_of_some (hfree : table fd = none) (hopen : table other = some desc) (new : α) :
    table.opened fd new other = some desc := by
  rw [opened_of_ne, hopen]
  rintro rfl
  rw [hfree] at hopen
  cases hopen

theorem opened_eq_some {new : α} (hopen : table.opened fd new other = some desc) :
    (other = fd ∧ desc = new) ∨ table other = some desc := by
  by_cases heq : other = fd
  · subst heq
    rw [opened_self] at hopen
    exact .inl ⟨rfl, (Option.some_inj.mp hopen).symm⟩
  · rw [opened_of_ne heq] at hopen
    exact .inr hopen

theorem close_eq_some (hopen : table.close fd other = some desc) :
    other ≠ fd ∧ table other = some desc := by
  have hne : other ≠ fd := by
    rintro rfl
    rw [close, update_self] at hopen
    cases hopen
  rw [close, update_of_ne hne] at hopen
  exact ⟨hne, hopen⟩

@[simp] theorem close_self (table : Table α) (fd : Nat) : table.close fd fd = none :=
  update_self ..

theorem close_of_ne (hne : other ≠ fd) (table : Table α) : table.close fd other = table other :=
  update_of_ne hne ..

theorem close_of_free (hfree : table fd = none) : table.close fd = table :=
  update_eq_self_iff.mpr hfree.symm

theorem close_opened (hfree : table fd = none) (desc : α) :
    (table.opened fd desc).close fd = table := by
  rw [opened, close, update_idem]
  exact close_of_free hfree

theorem opened_close_comm (hne : other ≠ fd) (table : Table α) (desc : α) :
    (table.opened fd desc).close other = (table.close other).opened fd desc :=
  update_comm hne.symm ..

theorem dup2_of_open {old : Nat} (hopen : table old = some desc) (new : Nat) :
    table.dup2 old new = table.opened new desc := by
  rw [dup2, hopen]

theorem closeMarked_apply (marked : Nat → Prop) [DecidablePred marked] (bound : Nat)
    (table : Table α) (fd : Nat) :
    closeMarked marked bound table fd = if fd < bound ∧ marked fd then none else table fd := by
  induction bound with
  | zero => simp [closeMarked]
  | succ bound ih =>
    have hlast : closeMarked marked (bound + 1) table =
        if marked bound then (closeMarked marked bound table).close bound
        else closeMarked marked bound table := by
      simp [closeMarked, List.range_succ]
    rw [hlast]
    by_cases heq : fd = bound
    · subst heq
      split
      · rename_i hmarked
        simp [hmarked]
      · rename_i hmarked
        simp [ih, hmarked]
    · have hlt : fd < bound + 1 ↔ fd < bound := by omega
      split
      · simp [close_of_ne heq, ih, hlt]
      · simp [ih, hlt]

end Table

end ApueFormal.Libc
