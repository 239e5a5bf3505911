import ApueFormal.Program.Merge
import Mathlib.Data.List.FinRange

/-!
# Merging the sorted blocks

`barrier.c` sorts an array in blocks, one by each thread, and the main thread merges the
blocks behind a barrier.  `merge` picks the least of the next numbers of all blocks; a
block that is used up is left out, and `LONG_MAX` stands for no number.
-/

namespace ApueFormal.Barrier

open Function Program

def longMax : Int := 2 ^ 63 - 1

variable {nthr : Nat}

/-- `nums[j]`, which is to lie in a block. -/
def readBlock (tnum : Nat) (nums : List Int) (i : Fin nthr) (j : Nat) : Option Int :=
  if i * tnum ≤ j ∧ j < (i + 1) * tnum then nums[j]? else none

/-- The inner loop body: the number of a block is compared with the least one so far. -/
def scanBlock (tnum : Nat) (nums : List Int) (idx : Fin nthr → Nat)
    (best : Int × Fin nthr) (i : Fin nthr) : Option (Int × Fin nthr) :=
  if idx i < (i + 1) * tnum then
    (readBlock tnum nums i (idx i)).map fun value => if value < best.1 then (value, i) else best
  else some best

/-- The inner loop: `num` and `minidx` at its end. -/
def scan [NeZero nthr] (tnum : Nat) (nums : List Int) (idx : Fin nthr → Nat) :
    Option (Int × Fin nthr) :=
  (List.finRange nthr).foldlM (scanBlock tnum nums idx) (longMax, 0)

/-- The outer loop body, on `idx` and `snums`. -/
def mergeStep [NeZero nthr] (tnum : Nat) (nums : List Int)
    (state : (Fin nthr → Nat) × List Int) (sidx : Nat) :
    Option ((Fin nthr → Nat) × List Int) := do
  let (_, minidx) ← scan tnum nums state.1
  let value ← readBlock tnum nums minidx (state.1 minidx)
  some (Function.update state.1 minidx (state.1 minidx + 1), state.2.set sidx value)

/-- `merge`: what it leaves in `snums`.  It fails when it reads a block past its end. -/
def merge (nthr tnum : Nat) [NeZero nthr] (nums snums : List Int) : Option (List Int) :=
  ((List.range (nthr * tnum)).foldlM (mergeStep tnum nums)
    (fun i : Fin nthr => i * tnum, snums)).map Prod.snd

/-! ## What is left of the blocks -/

/-- The numbers of a block that were not taken yet. -/
def rest (tnum : Nat) (nums : List Int) (idx : Fin nthr → Nat) (i : Fin nthr) : List Int :=
  (nums.drop (idx i)).take ((i + 1) * tnum - idx i)

/-- The cursors are in their blocks or at the ends of them. -/
def Inside (tnum : Nat) (idx : Fin nthr → Nat) : Prop :=
  ∀ i : Fin nthr, i * tnum ≤ idx i ∧ idx i ≤ (i + 1) * tnum

variable {tnum : Nat} {nums : List Int} {idx : Fin nthr → Nat}

theorem block_le (tnum : Nat) (i : Fin nthr) : (i + 1) * tnum ≤ nthr * tnum :=
  Nat.mul_le_mul_right tnum i.isLt

theorem head_rest (hlength : nums.length = nthr * tnum) {i : Fin nthr}
    (hlt : idx i < (i + 1) * tnum) :
    ∃ value, nums[idx i]? = some value ∧ rest tnum nums idx i =
      value :: (nums.drop (idx i + 1)).take ((i + 1) * tnum - (idx i + 1)) := by
  have hbound : idx i < nums.length := by
    rw [hlength]
    exact Nat.lt_of_lt_of_le hlt (block_le tnum i)
  refine ⟨nums[idx i], List.getElem?_eq_getElem hbound, ?_⟩
  rw [rest, List.drop_eq_getElem_cons hbound]
  obtain ⟨count, hcount⟩ := Nat.exists_eq_succ_of_ne_zero (Nat.sub_ne_zero_of_lt hlt)
  rw [hcount, List.take_succ_cons, Nat.sub_succ, hcount, Nat.pred_succ]

theorem rest_eq_nil {i : Fin nthr} (hge : (i + 1) * tnum ≤ idx i) : rest tnum nums idx i = [] := by
  rw [rest, Nat.sub_eq_zero_of_le hge, List.take_zero]

theorem rest_update (tnum : Nat) (nums : List Int) (idx : Fin nthr → Nat) (i : Fin nthr) :
    rest tnum nums (update idx i (idx i + 1)) = update (rest tnum nums idx) i
        ((nums.drop (idx i + 1)).take ((i + 1) * tnum - (idx i + 1))) := by
  funext j
  by_cases hj : j = i
  · subst hj
    rw [rest, update_self, update_self]
  · rw [update_of_ne hj, rest, rest, update_of_ne hj]

/-- The inner loop finds a number that is not greater than the next one of any block. -/
theorem scan_spec (hinside : Inside tnum idx) (hlength : nums.length = nthr * tnum)
    (blocks : List (Fin nthr)) (best : Int × Fin nthr) :
    ∃ found, blocks.foldlM (scanBlock tnum nums idx) best = some found ∧
      (found = best ∨ (rest tnum nums idx found.2).head? = some found.1) ∧ found.1 ≤ best.1 ∧
      ∀ i ∈ blocks, ∀ y, (rest tnum nums idx i).head? = some y → found.1 ≤ y := by
  induction blocks generalizing best with
  | nil => exact ⟨best, rfl, .inl rfl, le_refl _, nofun⟩
  | cons i blocks ih =>
    by_cases hlt : idx i < (i + 1) * tnum
    · obtain ⟨value, hvalue, hrest⟩ := head_rest hlength hlt
      have hread : readBlock tnum nums i (idx i) = some value := by
        rw [readBlock, if_pos ⟨(hinside i).1, hlt⟩, hvalue]
      obtain ⟨found, hfound, hfrom, hle, hleast⟩ :=
        ih (if value < best.1 then (value, i) else best)
      refine ⟨found, ?_, ?_, ?_, ?_⟩
      · rw [List.foldlM_cons, scanBlock, if_pos hlt, hread]
        exact hfound
      · rcases hfrom with rfl | hhead
        · split
          · exact .inr (by rw [hrest]; rfl)
          · exact .inl rfl
        · exact .inr hhead
      · refine le_trans hle ?_
        split
        next hless => exact le_of_lt hless
        next => exact le_refl _
      · intro j hmem y hy
        rcases List.mem_cons.mp hmem with rfl | hmem
        · rw [hrest] at hy
          cases hy
          refine le_trans hle ?_
          split
          next => exact le_refl _
          next hless => exact not_lt.mp hless
        · exact hleast j hmem y hy
    · obtain ⟨found, hfound, hfrom, hle, hleast⟩ := ih best
      refine ⟨found, ?_, hfrom, hle, ?_⟩
      · rw [List.foldlM_cons, scanBlock, if_neg hlt]
        exact hfound
      · intro j hmem y hy
        rcases List.mem_cons.mp hmem with rfl | hmem
        · rw [rest_eq_nil (Nat.le_of_not_lt hlt)] at hy
          cases hy
        · exact hleast j hmem y hy

/-- After some rounds: the first numbers of `snums` are those taken out of the blocks. -/
structure Merged (tnum : Nat) (nums : List Int) (state : (Fin nthr → Nat) × List Int)
    (sidx : Nat) : Prop where
  inside : Inside tnum state.1
  length : state.2.length = nthr * tnum
  merging : Merging nums (state.2.take sidx) (rest tnum nums state.1)

theorem Merged.step [NeZero nthr] {state : (Fin nthr → Nat) × List Int} {sidx : Nat}
    (hmerged : Merged tnum nums state sidx) (hlength : nums.length = nthr * tnum)
    (hnums : ∀ value ∈ nums, value < longMax) (hsidx : sidx < nthr * tnum) :
    ∃ state', mergeStep tnum nums state sidx = some state' ∧
      Merged tnum nums state' (sidx + 1) := by
  obtain ⟨idx, snums⟩ := state
  obtain ⟨hinside, hsnums, hmerging⟩ := hmerged
  have htaken : (snums.take sidx).length = sidx := by
    rw [List.length_take, hsnums]
    exact Nat.min_eq_left (Nat.le_of_lt hsidx)
  -- Some block has a number left, and it is less than the mark.
  obtain ⟨i, y, hy⟩ := hmerging.exists_head (by rw [htaken, hlength]; exact hsidx)
  obtain ⟨found, hfound, hfrom, _, hleast⟩ :=
    scan_spec hinside hlength (List.finRange nthr) (longMax, 0)
  have hymem : y ∈ nums := List.mem_of_mem_drop (List.mem_of_mem_take (List.mem_of_mem_head? hy))
  have hless : found.1 < longMax := by
    have hle := hleast i (List.mem_finRange i) y hy
    have hlt := hnums y hymem
    omega
  have hhead : (rest tnum nums idx found.2).head? = some found.1 := by
    rcases hfrom with rfl | hhead
    · exact absurd hless (lt_irrefl _)
    · exact hhead
  have hopen : idx found.2 < (found.2 + 1) * tnum := by
    by_contra hge
    rw [rest_eq_nil (Nat.le_of_not_lt hge)] at hhead
    cases hhead
  obtain ⟨value, hvalue, hrest⟩ := head_rest hlength hopen
  have heq : value = found.1 := by
    rw [hrest] at hhead
    exact Option.some.inj hhead
  have hread : readBlock tnum nums found.2 (idx found.2) = some value := by
    rw [readBlock, if_pos ⟨(hinside found.2).1, hopen⟩, hvalue]
  refine ⟨(update idx found.2 (idx found.2 + 1), snums.set sidx value), ?_, ?_, ?_, ?_⟩
  · rw [mergeStep, scan, hfound]
    simp only [Option.bind_eq_bind, Option.bind_some, hread]
  · intro j
    by_cases hj : j = found.2
    · subst hj
      simp only [update_self]
      exact ⟨Nat.le_succ_of_le (hinside _).1, hopen⟩
    · simp only [update_of_ne hj]
      exact hinside j
  · rw [List.length_set, hsnums]
  · have hout : (snums.set sidx value).take (sidx + 1) = snums.take sidx ++ [value] := by
      rw [List.take_add_one, List.take_set_of_le (Nat.le_refl _),
        List.getElem?_set_self (by rw [hsnums]; exact hsidx)]
      rfl
    rw [hout, rest_update]
    refine hmerging.take hrest fun j z hz => ?_
    rw [heq]
    exact hleast j (List.mem_finRange j) z hz

def block (tnum : Nat) (nums : List Int) (i : Nat) : List Int := (nums.drop (i * tnum)).take tnum

theorem sum_blocks (count tnum : Nat) (nums : List Int) :
    ∑ i : Fin count, (block tnum nums i : Multiset Int) =
      (nums.take (count * tnum) : List Int) := by
  induction count with
  | zero => simp
  | succ count ih =>
    rw [Fin.sum_univ_castSucc, Nat.succ_mul, List.take_add, ← Multiset.coe_add]
    simp only [Fin.val_castSucc, Fin.val_last]
    rw [ih]
    rfl

theorem merged_start {snums : List Int} (hlength : nums.length = nthr * tnum)
    (hblocks : ∀ i : Fin nthr, (block tnum nums i).Pairwise (· ≤ ·))
    (hsnums : snums.length = nthr * tnum) :
    Merged tnum nums (fun i : Fin nthr => i * tnum, snums) 0 := by
  have hrest : rest tnum nums (fun i : Fin nthr => i * tnum) =
      fun i : Fin nthr => block tnum nums i := by
    funext i
    rw [rest, Nat.succ_mul, Nat.add_sub_cancel_left]
    rfl
  refine ⟨fun i => ⟨Nat.le_refl _, Nat.mul_le_mul_right tnum (Nat.le_succ i)⟩, hsnums, ?_⟩
  rw [hrest, List.take_zero]
  refine merging_nil hblocks ?_
  rw [sum_blocks, List.take_of_length_le (Nat.le_of_eq hlength)]

theorem Merged.run [NeZero nthr] {state : (Fin nthr → Nat) × List Int}
    (hmerged : Merged tnum nums state 0) (hlength : nums.length = nthr * tnum)
    (hnums : ∀ value ∈ nums, value < longMax) {count : Nat} (hcount : count ≤ nthr * tnum) :
    ∃ state', (List.range count).foldlM (mergeStep tnum nums) state = some state' ∧
      Merged tnum nums state' count := by
  induction count with
  | zero => exact ⟨state, rfl, hmerged⟩
  | succ count ih =>
    obtain ⟨middle, hmiddle, hbefore⟩ := ih (Nat.le_of_succ_le hcount)
    obtain ⟨state', hstep, hafter⟩ := hbefore.step hlength hnums hcount
    refine ⟨state', ?_, hafter⟩
    rw [List.range_succ, List.foldlM_append, hmiddle]
    simpa using hstep

theorem Merged.merge_eq [NeZero nthr] {snums : List Int}
    (hmerged : Merged tnum nums (fun i : Fin nthr => i * tnum, snums) 0)
    (hlength : nums.length = nthr * tnum) (hnums : ∀ value ∈ nums, value < longMax) :
    ∃ result, merge nthr tnum nums snums = some result ∧ result.Pairwise (· ≤ ·) ∧
      result.Perm nums := by
  obtain ⟨⟨idx, result⟩, hrun, _, hresult, hmerging⟩ :=
    hmerged.run hlength hnums (Nat.le_refl (nthr * tnum))
  rw [List.take_of_length_le (Nat.le_of_eq hresult)] at hmerging
  refine ⟨result, ?_, hmerging.sorted, hmerging.perm (hresult.trans hlength.symm)⟩
  rw [merge, hrun]
  rfl

/-- `merge` turns sorted blocks of numbers below `LONG_MAX` into a sorted permutation of
them, and never reads a block past its end. -/
theorem merge_sorts {nthr tnum : Nat} [NeZero nthr] {nums snums : List Int}
    (hlength : nums.length = nthr * tnum) (hsnums : snums.length = nthr * tnum)
    (hnums : ∀ value ∈ nums, value < longMax)
    (hblocks : ∀ i : Fin nthr, (block tnum nums i).Pairwise (· ≤ ·)) :
    ∃ result, merge nthr tnum nums snums = some result ∧ result.Pairwise (· ≤ ·) ∧
      result.Perm nums :=
  (merged_start hlength hblocks hsnums).merge_eq hlength hnums

/-- Three blocks of two numbers. -/
theorem merge_sorts_three : merge 3 2 [4, 9, -1, 4, 0, 5] (List.replicate 6 0) =
    some [-1, 0, 4, 4, 5, 9] ∧ ∃ result,
      merge 3 2 [4, 9, -1, 4, 0, 5] (List.replicate 6 0) = some result ∧
        result.Pairwise (· ≤ ·) ∧ result.Perm [4, 9, -1, 4, 0, 5] :=
  ⟨by decide, merge_sorts rfl rfl (by decide) (by decide)⟩

end ApueFormal.Barrier
