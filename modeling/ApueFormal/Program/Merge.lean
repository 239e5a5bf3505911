import Mathlib.Algebra.BigOperators.Fin
import Mathlib.Algebra.Order.Group.Multiset

/-!
# Merging sorted lists

A family of sorted lists is merged by taking the least of the first elements, again and
again.  What was taken out is sorted, and nothing that is left is less than it.
-/

namespace ApueFormal.Program

open Function

variable {ι α : Type} [Fintype ι] [LinearOrder α]

/-- Some elements were taken out, and the others are in the lists of the family. -/
structure Merging (all out : List α) (rests : ι → List α) : Prop where
  sorted : out.Pairwise (· ≤ ·)
  below : ∀ x ∈ out, ∀ i, ∀ y ∈ rests i, x ≤ y
  parts : ∀ i, (rests i).Pairwise (· ≤ ·)
  same : (out : Multiset α) + ∑ i, (rests i : Multiset α) = all

variable {all out : List α} {rests : ι → List α}

theorem merging_nil (hparts : ∀ i, (rests i).Pairwise (· ≤ ·))
    (hsame : ∑ i, (rests i : Multiset α) = all) : Merging all [] rests :=
  ⟨List.Pairwise.nil, nofun, hparts, by rw [Multiset.coe_nil, zero_add, hsame]⟩

omit [LinearOrder α] in
theorem sum_update_tail [DecidableEq ι] {i : ι} {x : α} {rest : List α}
    (hrest : rests i = x :: rest) :
    ∑ j, (rests j : Multiset α) = {x} + ∑ j, (update rests i rest j : Multiset α) := by
  have hfun : (fun j => (update rests i rest j : Multiset α)) =
      update (fun j => (rests j : Multiset α)) i rest :=
    Function.comp_update (fun list : List α => (list : Multiset α)) rests i rest
  rw [hfun, Finset.sum_update_of_mem (Finset.mem_univ i), Finset.sdiff_singleton_eq_erase,
    ← Finset.add_sum_erase Finset.univ _ (Finset.mem_univ i), hrest, ← add_assoc,
    Multiset.singleton_add, Multiset.cons_coe]

variable (hmerging : Merging all out rests)
include hmerging

theorem Merging.take [DecidableEq ι] {i : ι} {x : α} {rest : List α} (hrest : rests i = x :: rest)
    (hleast : ∀ j y, (rests j).head? = some y → x ≤ y) :
    Merging all (out ++ [x]) (update rests i rest) := by
  -- The lists are sorted, so that the least first element is below everything.
  have hbelow : ∀ j, ∀ y ∈ rests j, x ≤ y := by
    intro j y hmem
    have hsorted := hmerging.parts j
    cases hlist : rests j with
    | nil => simp [hlist] at hmem
    | cons first others =>
      rw [hlist] at hmem hsorted
      have hfirst : x ≤ first := hleast j first (by rw [hlist]; rfl)
      rcases List.mem_cons.mp hmem with rfl | hmem
      · exact hfirst
      · exact le_trans hfirst ((List.pairwise_cons.mp hsorted).1 y hmem)
  have hmem : ∀ j, ∀ y ∈ update rests i rest j, y ∈ rests j := by
    intro j y hy
    by_cases hj : j = i
    · subst hj
      rw [update_self] at hy
      rw [hrest]
      exact List.mem_cons_of_mem _ hy
    · rwa [update_of_ne hj] at hy
  refine ⟨?_, ?_, ?_, ?_⟩
  · rw [List.pairwise_append]
    refine ⟨hmerging.sorted, List.pairwise_singleton _ _, fun y hy z hz => ?_⟩
    rw [List.mem_singleton] at hz
    subst hz
    exact hmerging.below y hy i z (by rw [hrest]; exact List.mem_cons_self)
  · intro y hy j z hz
    rcases List.mem_append.mp hy with hy | hy
    · exact hmerging.below y hy j z (hmem j z hz)
    · rw [List.mem_singleton] at hy
      subst hy
      exact hbelow j z (hmem j z hz)
  · intro j
    by_cases hj : j = i
    · subst hj
      rw [update_self]
      have hsorted := hmerging.parts j
      rw [hrest] at hsorted
      exact (List.pairwise_cons.mp hsorted).2
    · rw [update_of_ne hj]
      exact hmerging.parts j
  · rw [← hmerging.same, sum_update_tail hrest, ← Multiset.coe_add, Multiset.coe_singleton,
      add_assoc]

theorem Merging.exists_head (hlt : out.length < all.length) : ∃ i y, (rests i).head? = some y := by
  by_contra hnone
  push Not at hnone
  have hempty : ∀ i, rests i = [] := fun i => by
    cases hrest : rests i with
    | nil => rfl
    | cons first others => exact absurd (by rw [hrest]; rfl) (hnone i first)
  have hsame := hmerging.same
  simp only [hempty, Multiset.coe_nil, Finset.sum_const_zero, add_zero] at hsame
  rw [(Multiset.coe_eq_coe.mp hsame).length_eq] at hlt
  exact absurd hlt (Nat.lt_irrefl _)

theorem Merging.perm (hlength : out.length = all.length) : out.Perm all := by
  have hsub : (out : Multiset α) ≤ all := by
    rw [← hmerging.same]
    exact Multiset.le_add_right _ _
  exact Multiset.coe_eq_coe.mp (Multiset.eq_of_le_of_card_le hsub (Nat.le_of_eq hlength.symm))

end ApueFormal.Program
