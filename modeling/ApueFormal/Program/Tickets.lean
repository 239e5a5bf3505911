import Mathlib.Data.List.Nodup
import Mathlib.Data.List.Range
import Mathlib.Logic.Function.Basic

/-!
# Tickets

Tickets are numbered and given out in their order.  A holder has at most one at a time, and
gives it back when its work is done.
-/

namespace ApueFormal.Program

open Function

universe u

/-- Every ticket that has been given out is done or has one holder. -/
structure Tickets {ι : Type u} (given : Nat) (done : List Nat) (held : ι → Option Nat) : Prop where
  given : ∀ ticket, ticket ∈ done ∨ (∃ i, held i = some ticket) ↔ ticket < given
  fresh : ∀ i ticket, held i = some ticket → ticket ∉ done
  apart : ∀ i j ticket, held i = some ticket → held j = some ticket → i = j
  nodup : done.Nodup

namespace Tickets

variable {ι : Type u} {given : Nat} {done : List Nat} {held : ι → Option Nat}

theorem start (ι : Type u) : Tickets (ι := ι) 0 [] fun _ => none where
  given ticket := by simp
  fresh i ticket hheld := nomatch hheld
  apart i j ticket hheld := nomatch hheld
  nodup := List.nodup_nil

variable (htickets : Tickets given done held)
include htickets

theorem held_lt {i : ι} {ticket : Nat} (hheld : held i = some ticket) : ticket < given :=
  (htickets.given ticket).mp (.inr ⟨i, hheld⟩)

/-- Where nobody holds a ticket every ticket has been done once. -/
theorem perm_range (hnone : ∀ i, held i = none) : done.Perm (List.range given) := by
  rw [List.perm_ext_iff_of_nodup htickets.nodup List.nodup_range]
  intro ticket
  rw [List.mem_range, ← htickets.given ticket]
  constructor
  · exact .inl
  · rintro (hdone | ⟨i, hheld⟩)
    · exact hdone
    · rw [hnone i] at hheld
      cases hheld

variable [DecidableEq ι]

theorem give {i : ι} (hnone : held i = none) :
    Tickets (given + 1) done (update held i (some given)) := by
  have hother : ∀ j ticket, update held i (some given) j = some ticket →
      (j = i ∧ ticket = given) ∨ (j ≠ i ∧ held j = some ticket) := by
    intro j ticket hheld
    by_cases hj : j = i
    · subst hj
      rw [update_self] at hheld
      exact .inl ⟨rfl, (Option.some_inj.mp hheld).symm⟩
    · rw [update_of_ne hj] at hheld
      exact .inr ⟨hj, hheld⟩
  constructor
  · intro ticket
    rw [Nat.lt_succ_iff_lt_or_eq, ← htickets.given ticket]
    constructor
    · rintro (hdone | ⟨j, hheld⟩)
      · exact .inl (.inl hdone)
      · rcases hother j ticket hheld with ⟨_, rfl⟩ | ⟨_, hheld⟩
        · exact .inr rfl
        · exact .inl (.inr ⟨j, hheld⟩)
    · rintro ((hdone | ⟨j, hheld⟩) | rfl)
      · exact .inl hdone
      · refine .inr ⟨j, ?_⟩
        rw [update_of_ne]
        · exact hheld
        · rintro rfl
          rw [hnone] at hheld
          cases hheld
      · exact .inr ⟨i, update_self ..⟩
  · intro j ticket hheld
    rcases hother j ticket hheld with ⟨_, rfl⟩ | ⟨_, hheld⟩
    · intro hdone
      exact Nat.lt_irrefl _ ((htickets.given ticket).mp (.inl hdone))
    · exact htickets.fresh j ticket hheld
  · intro j k ticket hj hk
    rcases hother j ticket hj with ⟨rfl, rfl⟩ | ⟨_, hold⟩
    · rcases hother k ticket hk with ⟨rfl, _⟩ | ⟨_, hold⟩
      · rfl
      · exact absurd (htickets.held_lt hold) (Nat.lt_irrefl _)
    · rcases hother k ticket hk with ⟨rfl, rfl⟩ | ⟨_, hold'⟩
      · exact absurd (htickets.held_lt hold) (Nat.lt_irrefl _)
      · exact htickets.apart j k ticket hold hold'
  · exact htickets.nodup

theorem finish {i : ι} {ticket : Nat} (hheld : held i = some ticket) :
    Tickets given (done ++ [ticket]) (update held i none) := by
  have hother : ∀ j other, update held i none j = some other ↔ j ≠ i ∧ held j = some other := by
    intro j other
    by_cases hj : j = i
    · subst hj
      rw [update_self]
      simp
    · rw [update_of_ne hj]
      simp [hj]
  constructor
  · intro other
    rw [← htickets.given other, List.mem_append, List.mem_singleton]
    constructor
    · rintro ((hdone | rfl) | ⟨j, hj⟩)
      · exact .inl hdone
      · exact .inr ⟨i, hheld⟩
      · exact .inr ⟨j, ((hother j other).mp hj).2⟩
    · rintro (hdone | ⟨j, hj⟩)
      · exact .inl (.inl hdone)
      · by_cases heq : j = i
        · subst heq
          rw [hheld] at hj
          exact .inl (.inr (Option.some_inj.mp hj).symm)
        · exact .inr ⟨j, (hother j other).mpr ⟨heq, hj⟩⟩
  · intro j other hj hmem
    obtain ⟨hne, hj⟩ := (hother j other).mp hj
    rcases List.mem_append.mp hmem with hdone | hlast
    · exact htickets.fresh j other hj hdone
    · rw [List.mem_singleton.mp hlast] at hj
      exact hne (htickets.apart j i ticket hj hheld)
  · intro j k other hj hk
    exact htickets.apart j k other ((hother j other).mp hj).2 ((hother k other).mp hk).2
  · rw [List.nodup_append]
    refine ⟨htickets.nodup, List.nodup_singleton _, ?_⟩
    intro other hmem last hlast
    rw [List.mem_singleton.mp hlast]
    rintro rfl
    exact htickets.fresh i other hheld hmem

end Tickets

end ApueFormal.Program
