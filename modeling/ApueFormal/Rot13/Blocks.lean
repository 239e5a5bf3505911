import ApueFormal.Rot13.Model

/-!
# Blocks

The blocks of the input file, what it means that some of them have been copied, and the
copy that the synchronous program makes.
-/

namespace ApueFormal.Rot13

open Libc

variable {input output : Bytes}

def block (input : Bytes) (b : Nat) : Bytes := readAt input (b * bsz) bsz

def blockCount (input : Bytes) : Nat := (input.length + (bsz - 1)) / bsz

theorem length_block (input : Bytes) (b : Nat) :
    (block input b).length = min bsz (input.length - b * bsz) := by
  rw [block, readAt, List.length_take, List.length_drop]

variable {b : Nat}

theorem lt_blockCount : b < blockCount input ↔ b * bsz < input.length := by
  unfold blockCount bsz
  omega

theorem length_block_of_lt (hlt : b + 1 < blockCount input) : (block input b).length = bsz := by
  rw [lt_blockCount] at hlt
  rw [length_block]
  unfold bsz at hlt ⊢
  omega

theorem block_getElem? {j : Nat} (hj : j < bsz) : (block input b)[j]? = input[b * bsz + j]? := by
  rw [block, readAt_getElem?, if_pos hj]

def blockWrite (input : Bytes) (b : Nat) : Int × Bytes :=
  ((b * bsz : Nat), (block input b).map translate)

def blockWrites (input : Bytes) : List (Int × Bytes) :=
  (List.range (blockCount input)).map (blockWrite input)

/-- Some blocks of the output file are those of the translated input. -/
structure Copied (input : Bytes) (written : List Nat) (output : Bytes) : Prop where
  length_le : output.length ≤ input.length
  bytes : ∀ b ∈ written, ∀ j < bsz, b * bsz + j < input.length →
    output[b * bsz + j]? = (input.map translate)[b * bsz + j]?

namespace Copied

variable {written : List Nat}

theorem nil (input : Bytes) : Copied input [] [] :=
  ⟨Nat.zero_le _, fun _ hmem => absurd hmem List.not_mem_nil⟩

theorem write (hcopied : Copied input written output) (hlt : b < blockCount input)
    (hfresh : b ∉ written) :
    Copied input (written ++ [b]) (writeAt output (b * bsz) ((block input b).map translate)) := by
  have hlength : ((block input b).map translate).length = min bsz (input.length - b * bsz) := by
    rw [List.length_map, length_block]
  have hinput := lt_blockCount.mp hlt
  constructor
  · have hle := hcopied.length_le
    rw [length_writeAt, hlength]
    omega
  · intro other hmem j hj hin
    rcases List.mem_append.mp hmem with hold | hnew
    · -- The byte of another block is there already, outside the written range.
      have hbyte := hcopied.bytes other hold j hj hin
      obtain ⟨byte, hsome⟩ : ∃ byte, (input.map translate)[other * bsz + j]? = some byte :=
        ⟨_, List.getElem?_eq_getElem (by rw [List.length_map]; exact hin)⟩
      rw [hsome] at hbyte ⊢
      refine getElem?_writeAt_kept _ _ _ hbyte ?_
      have hne : other ≠ b := by
        rintro rfl
        exact hfresh hold
      unfold bsz at hj hlength ⊢
      omega
    · rw [List.mem_singleton.mp hnew] at hin ⊢
      rw [getElem?_writeAt_inside _ _ _ (by omega), List.getElem?_map, List.getElem?_map,
        block_getElem? hj]

theorem all (hcopied : Copied input written output)
    (hall : ∀ b < blockCount input, b ∈ written) : output = input.map translate := by
  apply List.ext_getElem?
  intro i
  by_cases hi : i < input.length
  · have hsplit : i / bsz * bsz + i % bsz = i := Nat.div_add_mod' i bsz
    have hmod : i % bsz < bsz := Nat.mod_lt i (by decide)
    have hwritten : i / bsz ∈ written := hall _ (lt_blockCount.mpr (by omega))
    have hbyte := hcopied.bytes _ hwritten _ hmod (by omega)
    rwa [hsplit] at hbyte
  · have hle := hcopied.length_le
    rw [List.getElem?_eq_none (by omega),
      List.getElem?_eq_none (by rw [List.length_map]; omega)]

end Copied

theorem writeAt_block (input : Bytes) {pos : Nat} (hpos : pos ≤ input.length) :
    writeAt ((input.take pos).map translate) pos ((readAt input pos bsz).map translate) =
      (input.take (pos + (readAt input pos bsz).length)).map translate := by
  have hlength : ((input.take pos).map translate).length = pos := by
    rw [List.length_map, List.length_take]
    omega
  have hend := writeAt_end ((input.take pos).map translate) ((readAt input pos bsz).map translate)
  rw [hlength] at hend
  rw [hend, ← List.map_append, List.take_add]
  congr 2
  rw [readAt, List.length_take, List.take_eq_take_iff]
  omega

theorem syncLoop_full (input : Bytes) {fuel pos : Nat} (hpos : pos ≤ input.length)
    (hfuel : input.length - pos < fuel) :
    syncLoop .full input fuel pos ((input.take pos).map translate) =
      some (.ok (input.map translate)) := by
  induction fuel generalizing pos with
  | zero => omega
  | succ fuel ih =>
    have hlength : (readAt input pos bsz).length = min bsz (input.length - pos) := by
      rw [readAt, List.length_take, List.length_drop]
    dsimp only [syncLoop, Calls.full]
    rw [Int.toNat_natCast, List.take_length]
    split
    · have hbsz : 0 < bsz := by decide
      rw [List.take_of_length_le (by omega)]
    · rw [if_neg (not_not_intro rfl), writeAt_block input hpos]
      refine ih ?_ ?_
      · omega
      · omega

theorem sync_copies (input : Bytes) :
    syncLoop .full input (input.length + 1) 0 [] = some (.ok (input.map translate)) :=
  syncLoop_full input (Nat.zero_le _) (Nat.lt_succ_of_le (Nat.sub_le _ _))

end ApueFormal.Rot13
