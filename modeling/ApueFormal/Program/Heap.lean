import Mathlib.Logic.Function.Basic

/-!
# Partial heaps and their ownership

A heap is a partial map from cells to values.  Ownership of cells by several
parties is a family of heaps that split one total heap.
-/

namespace ApueFormal.Program

open Function

abbrev Heap (Cell Val : Type) := Cell → Option Val

namespace Heap

variable {Cell Val : Type}

def empty : Heap Cell Val := fun _ => none

/-- The union of two heaps; the left one has precedence. -/
def union (left right : Heap Cell Val) : Heap Cell Val :=
  fun cell => (left cell).or (right cell)

instance : Union (Heap Cell Val) := ⟨union⟩

/-- No cell belongs to both heaps. -/
def Disjoint (left right : Heap Cell Val) : Prop :=
  ∀ cell, left cell = none ∨ right cell = none

/-- Every cell of the first heap has the same value in the second. -/
def Sub (small large : Heap Cell Val) : Prop :=
  ∀ cell value, small cell = some value → large cell = some value

def set [DecidableEq Cell] (heap : Heap Cell Val) (cell : Cell) (value : Val) : Heap Cell Val :=
  Function.update heap cell (some value)

def single [DecidableEq Cell] (cell : Cell) (value : Val) : Heap Cell Val :=
  set empty cell value

def without (heap other : Heap Cell Val) : Heap Cell Val :=
  fun cell => match other cell with
    | none => heap cell
    | some _ => none

@[simp] theorem empty_apply (cell : Cell) : (empty : Heap Cell Val) cell = none := rfl

@[simp] theorem union_apply (left right : Heap Cell Val) (cell : Cell) :
    (left ∪ right) cell = (left cell).or (right cell) := rfl

@[simp] theorem empty_union (heap : Heap Cell Val) : empty ∪ heap = heap := by
  funext cell
  simp

theorem union_assoc (first second third : Heap Cell Val) :
    first ∪ second ∪ third = first ∪ (second ∪ third) := by
  funext cell
  simp [Option.or_assoc]

theorem Disjoint.symm {left right : Heap Cell Val}
    (hdisj : Disjoint left right) : Disjoint right left :=
  fun cell => (hdisj cell).symm

variable {left right first second third : Heap Cell Val} {cell : Cell}

theorem union_comm (hdisj : Disjoint left right) : left ∪ right = right ∪ left := by
  funext cell
  rcases hdisj cell with hnone | hnone <;> simp [hnone]

@[simp] theorem disjoint_empty_left (heap : Heap Cell Val) : Disjoint empty heap :=
  fun _ => .inl rfl

@[simp] theorem disjoint_empty_right (heap : Heap Cell Val) : Disjoint heap empty :=
  fun _ => .inr rfl

theorem disjoint_union_left : Disjoint (first ∪ second) third ↔
      Disjoint first third ∧ Disjoint second third := by
  simp only [Disjoint, union_apply, Option.or_eq_none_iff, ← forall_and]
  exact forall_congr' fun cell => and_or_right

theorem disjoint_union_right : Disjoint first (second ∪ third) ↔
      Disjoint first second ∧ Disjoint first third := by
  constructor
  · intro hdisj
    have hboth := disjoint_union_left.mp hdisj.symm
    exact ⟨hboth.1.symm, hboth.2.symm⟩
  · rintro ⟨hsecond, hthird⟩
    exact (disjoint_union_left.mpr ⟨hsecond.symm, hthird.symm⟩).symm

theorem sub_union_left (left right : Heap Cell Val) : Sub left (left ∪ right) := by
  intro cell value hcell
  simp [hcell]

theorem sub_union_right (hdisj : Disjoint left right) : Sub right (left ∪ right) := by
  rw [union_comm hdisj]
  exact sub_union_left right left

theorem Sub.trans (hfirst : Sub first second) (hsecond : Sub second third) : Sub first third :=
  fun cell value hcell => hsecond cell value (hfirst cell value hcell)

theorem empty_sub (heap : Heap Cell Val) : Sub empty heap := by
  intro cell value hcell
  cases hcell

theorem disjoint_without (heap other : Heap Cell Val) : Disjoint other (heap.without other) := by
  intro cell
  unfold without
  cases other cell <;> simp

theorem union_without {small large : Heap Cell Val} (hsub : Sub small large) :
    small ∪ large.without small = large := by
  funext cell
  unfold without
  cases hcell : small cell with
  | none => simp [hcell]
  | some value => simp [hcell, hsub cell value hcell]

theorem Disjoint.right_none (hdisj : Disjoint left right) {value : Val}
    (hleft : left cell = some value) : right cell = none := by
  rcases hdisj cell with hnone | hnone
  · rw [hnone] at hleft
    cases hleft
  · exact hnone

section Update

variable [DecidableEq Cell]

@[simp] theorem set_self (heap : Heap Cell Val) (cell : Cell) (value : Val) :
    heap.set cell value cell = some value := by
  simp [set]

variable {other : Cell}

@[simp] theorem set_of_ne (heap : Heap Cell Val) (hne : other ≠ cell) (value : Val) :
    heap.set cell value other = heap other := by
  simp [set, hne]

theorem set_apply (heap : Heap Cell Val) (cell other : Cell) (value : Val) :
    heap.set cell value other = if other = cell then some value else heap other := by
  simp [set, update_apply]

theorem set_eq_some {heap : Heap Cell Val} {new value : Val}
    (hvalue : heap.set cell new other = some value) :
    (other = cell ∧ value = new) ∨ (other ≠ cell ∧ heap other = some value) := by
  by_cases hother : other = cell
  · rw [hother, set_self] at hvalue
    exact .inl ⟨hother, (Option.some.inj hvalue).symm⟩
  · rw [set_of_ne heap hother] at hvalue
    exact .inr ⟨hother, hvalue⟩

theorem single_apply (cell other : Cell) (value : Val) :
    single cell value other = if other = cell then some value else none := by
  simp [single, set_apply]

theorem single_set (cell : Cell) (old new : Val) :
    (single cell old).set cell new = single cell new :=
  update_idem ..

theorem set_comm (heap : Heap Cell Val) (hne : cell ≠ other) (value value' : Val) :
    (heap.set cell value).set other value' = (heap.set other value').set cell value :=
  update_comm hne _ _ heap

theorem set_union (left right : Heap Cell Val) (cell : Cell) (value : Val) :
    left.set cell value ∪ right = (left ∪ right).set cell value := by
  funext other
  by_cases hother : other = cell <;> simp [hother]

theorem set_union_right (right : Heap Cell Val) (hnone : left cell = none) (value : Val) :
    (left ∪ right).set cell value = left ∪ right.set cell value := by
  funext other
  by_cases hother : other = cell
  · subst hother
    simp [hnone]
  · simp [hother]

theorem Sub.set {small large : Heap Cell Val} (hsub : Sub small large) (hnone : small cell = none)
    (value : Val) : Sub small (large.set cell value) := by
  intro other old hother
  have hne : other ≠ cell := by
    rintro rfl
    rw [hnone] at hother
    cases hother
  rw [set_of_ne _ hne]
  exact hsub other old hother

theorem Disjoint.set (hdisj : Disjoint left right) (hright : right cell = none) (value : Val) :
    Disjoint (left.set cell value) right := by
  intro other
  by_cases hother : other = cell
  · subst hother
    exact .inr hright
  · simpa [set_apply, hother] using hdisj other

end Update

/-! ## Splitting a heap among several parties -/

variable {ι : Type}

/-- The parts are pairwise disjoint and make up the total heap. -/
structure Splits (part : ι → Heap Cell Val) (total : Heap Cell Val) : Prop where
  mem : ∀ cell value, total cell = some value ↔ ∃ i, part i cell = some value
  disjoint : ∀ i j, i ≠ j → Disjoint (part i) (part j)

namespace Splits

variable {part : ι → Heap Cell Val} {total : Heap Cell Val}
variable (hsplits : Splits part total)
include hsplits

theorem sub (i : ι) : Sub (part i) total :=
  fun cell value hcell => (hsplits.mem cell value).mpr ⟨i, hcell⟩

theorem sub_without {i j : ι} (hne : j ≠ i) : Sub (part j) (total.without (part i)) := by
  intro cell value hcell
  have hnone : part i cell = none := by
    rcases hsplits.disjoint j i hne cell with hj | hi
    · rw [hj] at hcell
      cases hcell
    · exact hi
  unfold without
  rw [hnone]
  exact hsplits.sub j cell value hcell

variable [DecidableEq ι]

theorem replace (i : ι) {new : Heap Cell Val} (hdisj : Disjoint new (total.without (part i))) :
    Splits (update part i new) (new ∪ total.without (part i)) := by
  have hframe : ∀ j, j ≠ i → Disjoint new (part j) := by
    intro j hne cell
    rcases hdisj cell with hnew | hrest
    · exact .inl hnew
    · right
      cases hcell : part j cell with
      | none => rfl
      | some value =>
        rw [hsplits.sub_without hne cell value hcell] at hrest
        cases hrest
  constructor
  · intro cell value
    constructor
    · intro htotal
      cases hnew : new cell with
      | some found =>
        refine ⟨i, ?_⟩
        simpa [hnew] using htotal
      | none =>
        simp only [union_apply, hnew, Option.none_or] at htotal
        unfold without at htotal
        cases hi : part i cell with
        | some found => simp [hi] at htotal
        | none =>
          simp only [hi] at htotal
          obtain ⟨j, hj⟩ := (hsplits.mem cell value).mp htotal
          have hne : j ≠ i := by
            rintro rfl
            rw [hi] at hj
            cases hj
          exact ⟨j, by rw [update_of_ne hne]; exact hj⟩
    · rintro ⟨j, hj⟩
      by_cases hne : j = i
      · subst hne
        simp only [update_self] at hj
        simp [hj]
      · rw [update_of_ne hne] at hj
        have hnone : new cell = none := by
          rcases hframe j hne cell with hnew | hpart
          · exact hnew
          · rw [hpart] at hj
            cases hj
        simp only [union_apply, hnone, Option.none_or]
        exact hsplits.sub_without hne cell value hj
  · intro j k hjk
    by_cases hj : j = i
    · subst hj
      rw [update_self, update_of_ne (Ne.symm hjk)]
      exact hframe k (Ne.symm hjk)
    · by_cases hk : k = i
      · subst hk
        rw [update_self, update_of_ne hj]
        exact (hframe j hj).symm
      · rw [update_of_ne hj, update_of_ne hk]
        exact hsplits.disjoint j k hjk

theorem give {i j : ι} (hne : i ≠ j) :
    Splits (update (update part j empty) i
      (part i ∪ part j)) total := by
  have hget : ∀ k, update (update part j empty) i (part i ∪ part j) k =
      if k = i then part i ∪ part j else if k = j then empty else part k := by
    intro k
    by_cases hk : k = i
    · subst hk
      simp
    · by_cases hkj : k = j
      · subst hkj
        simp [hk]
      · simp [hk, hkj]
  constructor
  · intro cell value
    rw [hsplits.mem cell value]
    constructor
    · rintro ⟨k, hk⟩
      by_cases hkj : k = j
      · subst hkj
        refine ⟨i, ?_⟩
        have hnone : part i cell = none := by
          rcases hsplits.disjoint i k hne cell with hi | hj
          · exact hi
          · rw [hj] at hk
            cases hk
        rw [hget, if_pos rfl, union_apply, hnone, Option.none_or]
        exact hk
      · refine ⟨k, ?_⟩
        rw [hget]
        by_cases hki : k = i
        · subst hki
          simp [hk]
        · rw [if_neg hki, if_neg hkj]
          exact hk
    · rintro ⟨k, hk⟩
      rw [hget] at hk
      by_cases hki : k = i
      · rw [if_pos hki, union_apply, Option.or_eq_some_iff] at hk
        rcases hk with hi | ⟨_, hj⟩
        · exact ⟨i, hi⟩
        · exact ⟨j, hj⟩
      · rw [if_neg hki] at hk
        by_cases hkj : k = j
        · rw [if_pos hkj] at hk
          cases hk
        · rw [if_neg hkj] at hk
          exact ⟨k, hk⟩
  · intro k l hkl
    rw [hget, hget]
    by_cases hk : k = i
    · subst hk
      rw [if_pos rfl, if_neg (Ne.symm hkl)]
      by_cases hl : l = j
      · rw [if_pos hl]
        exact disjoint_empty_right _
      · rw [if_neg hl]
        exact disjoint_union_left.mpr ⟨hsplits.disjoint k l hkl, hsplits.disjoint j l (Ne.symm hl)⟩
    · rw [if_neg hk]
      by_cases hkj : k = j
      · rw [if_pos hkj]
        exact disjoint_empty_left _
      · rw [if_neg hkj]
        by_cases hl : l = i
        · rw [if_pos hl]
          exact disjoint_union_right.mpr ⟨hsplits.disjoint k i hk, hsplits.disjoint k j hkj⟩
        · rw [if_neg hl]
          by_cases hlj : l = j
          · rw [if_pos hlj]
            exact disjoint_empty_right _
          · rw [if_neg hlj]
            exact hsplits.disjoint k l hkl

theorem lend {i j : ι} (hne : i ≠ j) (hempty : part j = empty) {kept given : Heap Cell Val}
    (hpart : part i = kept ∪ given) (hdisj : Disjoint kept given) :
    Splits (update (update part i kept) j given) total := by
  have hget : ∀ k, update (update part i kept) j given k =
      if k = j then given else if k = i then kept else part k := by
    intro k
    by_cases hk : k = j
    · subst hk
      simp
    · by_cases hki : k = i
      · subst hki
        simp [hk]
      · simp [hk, hki]
  have hpieces : ∀ k, k ≠ i → Disjoint kept (part k) ∧ Disjoint given (part k) := by
    intro k hk
    have hwhole := hsplits.disjoint i k (Ne.symm hk)
    rw [hpart] at hwhole
    exact disjoint_union_left.mp hwhole
  constructor
  · intro cell value
    rw [hsplits.mem cell value]
    constructor
    · rintro ⟨k, hk⟩
      by_cases hki : k = i
      · rw [hki, hpart, union_apply, Option.or_eq_some_iff] at hk
        rcases hk with hkept | ⟨_, hgiven⟩
        · exact ⟨i, by rw [hget, if_neg hne, if_pos rfl]; exact hkept⟩
        · exact ⟨j, by rw [hget, if_pos rfl]; exact hgiven⟩
      · have hkj : k ≠ j := by
          rintro rfl
          rw [hempty] at hk
          cases hk
        exact ⟨k, by rw [hget, if_neg hkj, if_neg hki]; exact hk⟩
    · rintro ⟨k, hk⟩
      rw [hget] at hk
      by_cases hkj : k = j
      · rw [if_pos hkj] at hk
        refine ⟨i, ?_⟩
        rw [hpart, union_comm hdisj]
        exact sub_union_left given kept cell value hk
      · rw [if_neg hkj] at hk
        by_cases hki : k = i
        · rw [if_pos hki] at hk
          refine ⟨i, ?_⟩
          rw [hpart]
          exact sub_union_left kept given cell value hk
        · rw [if_neg hki] at hk
          exact ⟨k, hk⟩
  · intro k l hkl
    rw [hget, hget]
    by_cases hkj : k = j
    · subst hkj
      rw [if_pos rfl, if_neg (Ne.symm hkl)]
      by_cases hl : l = i
      · rw [if_pos hl]
        exact hdisj.symm
      · rw [if_neg hl]
        exact (hpieces l hl).2
    · rw [if_neg hkj]
      by_cases hki : k = i
      · rw [if_pos hki]
        by_cases hl : l = j
        · rw [if_pos hl]
          exact hdisj
        · rw [if_neg hl, if_neg (by rintro rfl; exact hkl hki)]
          exact (hpieces l (by rintro rfl; exact hkl hki)).1
      · rw [if_neg hki]
        by_cases hl : l = j
        · rw [if_pos hl]
          exact (hpieces k hki).2.symm
        · rw [if_neg hl]
          by_cases hli : l = i
          · rw [if_pos hli]
            exact (hpieces k hki).1.symm
          · rw [if_neg hli]
            exact hsplits.disjoint k l hkl

end Splits

end Heap

end ApueFormal.Program
