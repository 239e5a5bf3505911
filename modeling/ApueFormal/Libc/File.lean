import ApueFormal.Libc.Text

/-!
# Bytes of a regular file

`readAt` and `writeAt` are the effects of `read` and `write` at a file offset.
-/

namespace ApueFormal.Libc

/-- The bytes that `read` delivers; fewer than asked for at the end of file. -/
def readAt (file : Bytes) (pos len : Nat) : Bytes := (file.drop pos).take len

/-- The file after `write`; a gap before the offset reads as zeros. -/
def writeAt (file : Bytes) (pos : Nat) (bytes : Bytes) : Bytes :=
  file.take pos ++ List.replicate (pos - file.length) 0 ++ bytes ++ file.drop (pos + bytes.length)

theorem cstr_writeAt (buffer : Bytes) {text : Bytes} (hnul : (0 : Byte) ∉ text) :
    cstr (writeAt buffer 0 (text ++ [0])) = text := by
  simp only [writeAt, List.take_zero, Nat.zero_sub, List.replicate_zero, List.nil_append,
    List.append_assoc]
  exact (cstr_append_zero ..).trans (cstr_of_noNul hnul)

theorem readAt_getElem? (file : Bytes) (pos len i : Nat) :
    (readAt file pos len)[i]? = if i < len then file[pos + i]? else none := by
  simp only [readAt, List.getElem?_take, List.getElem?_drop]

variable {pos : Nat}

theorem readAt_congr {left right : Bytes} {len : Nat}
    (hsame : ∀ i, pos ≤ i → i < pos + len → left[i]? = right[i]?) :
    readAt left pos len = readAt right pos len := by
  apply List.ext_getElem?
  intro i
  rw [readAt_getElem?, readAt_getElem?]
  split
  · exact hsame (pos + i) (by omega) (by omega)
  · rfl

variable {i : Nat}

theorem readAt_replicate (text rest : Bytes) {count : Nat} (hi : i < count) :
    readAt ((List.replicate count text).flatten ++ rest) (i * text.length) text.length = text := by
  induction count generalizing i with
  | zero => exact absurd hi (Nat.not_lt_zero i)
  | succ count ih =>
    rw [List.replicate_succ, List.flatten_cons, List.append_assoc]
    cases i with
    | zero => rw [Nat.zero_mul, readAt, List.drop_zero, List.take_left]
    | succ i =>
      have hskip : (i + 1) * text.length = text.length + i * text.length := by
        rw [Nat.succ_mul, Nat.add_comm]
      rw [hskip, readAt, ← List.drop_drop, List.drop_left]
      exact ih (Nat.lt_of_succ_lt_succ hi)

variable {file : Bytes}

theorem readAt_part {len : Nat} {bytes : Bytes} (skip part : Nat)
    (hread : readAt file pos len = bytes) (hfits : skip + part ≤ len) :
    readAt file (pos + skip) part = (bytes.drop skip).take part := by
  subst hread
  apply List.ext_getElem?
  intro i
  simp only [readAt, List.getElem?_take, List.getElem?_drop]
  split
  · rw [if_pos (by omega), Nat.add_assoc]
  · rfl

theorem writeAt_getElem? (hpos : pos ≤ file.length) (bytes : Bytes) (i : Nat) :
    (writeAt file pos bytes)[i]? = if i < pos then file[i]?
      else if i < pos + bytes.length then bytes[i - pos]? else file[i]? := by
  have hgap : pos - file.length = 0 := by omega
  have htake : (file.take pos).length = pos := by
    simp only [List.length_take]
    omega
  unfold writeAt
  rw [hgap, List.replicate_zero, List.append_nil]
  split
  · rename_i hlt
    rw [List.append_assoc, List.getElem?_append_left (by omega),
      List.getElem?_take, if_pos hlt]
  · rename_i hge
    split
    · rename_i hlt
      rw [List.append_assoc, List.getElem?_append_right (by omega), htake,
        List.getElem?_append_left (by omega)]
    · rename_i hafter
      rw [List.append_assoc, List.getElem?_append_right (by omega), htake,
        List.getElem?_append_right (by omega), List.getElem?_drop]
      congr 1
      omega

section Anywhere

variable (file : Bytes) (pos : Nat) (bytes : Bytes)

theorem length_writeAt :
    (writeAt file pos bytes).length = max file.length (pos + bytes.length) := by
  unfold writeAt
  simp only [List.length_append, List.length_take, List.length_replicate, List.length_drop]
  omega

theorem length_before : (file.take pos ++ List.replicate (pos - file.length) 0).length = pos := by
  rw [List.length_append, List.length_take, List.length_replicate]
  omega

theorem getElem?_writeAt_inside (hi : i < bytes.length) :
    (writeAt file pos bytes)[pos + i]? = bytes[i]? := by
  have hbefore := length_before file pos
  unfold writeAt
  rw [List.append_assoc, List.getElem?_append_right (by omega), hbefore,
    Nat.add_sub_cancel_left, List.getElem?_append_left hi]

theorem readAt_writeAt : readAt (writeAt file pos bytes) pos bytes.length = bytes := by
  apply List.ext_getElem?
  intro i
  rw [readAt_getElem?]
  split
  · rename_i hlt
    exact getElem?_writeAt_inside file pos bytes hlt
  · rw [List.getElem?_eq_none (by omega)]

theorem getElem?_writeAt_kept {byte : Byte} (hbyte : file[i]? = some byte)
    (houtside : i < pos ∨ pos + bytes.length ≤ i) :
    (writeAt file pos bytes)[i]? = some byte := by
  have hbefore := length_before file pos
  have hlt : i < file.length := (List.getElem?_eq_some_iff.mp hbyte).1
  unfold writeAt
  rcases houtside with hlow | hhigh
  · have htake : i < (file.take pos).length := by
      rw [List.length_take]
      omega
    rw [List.append_assoc, List.getElem?_append_left (by omega), List.getElem?_append_left htake,
      List.getElem?_take, if_pos hlow, hbyte]
  · rw [List.getElem?_append_right (by rw [List.length_append]; omega), List.length_append, hbefore,
      List.getElem?_drop, Nat.add_sub_cancel' hhigh, hbyte]

end Anywhere

theorem getElem?_writeAt_outside (hpos : pos ≤ file.length) (bytes : Bytes)
    (houtside : i < pos ∨ pos + bytes.length ≤ i) :
    (writeAt file pos bytes)[i]? = file[i]? := by
  rw [writeAt_getElem? hpos]
  rcases houtside with hbefore | hafter
  · rw [if_pos hbefore]
  · rw [if_neg (by omega), if_neg (by omega)]

theorem take_writeAt {size : Nat} (hsize : size ≤ file.length) (hpos : pos ≤ size) (bytes : Bytes) :
    (writeAt file pos bytes).take (max size (pos + bytes.length)) =
      writeAt (file.take size) pos bytes := by
  have hlength : (file.take size).length = size := by
    rw [List.length_take, Nat.min_eq_left hsize]
  apply List.ext_getElem?
  intro i
  rw [List.getElem?_take, writeAt_getElem? (by omega), writeAt_getElem? (by omega),
    List.getElem?_take]
  by_cases hbefore : i < pos
  · rw [if_pos (by omega), if_pos hbefore, if_pos hbefore, if_pos (by omega)]
  · rw [if_neg hbefore, if_neg hbefore]
    by_cases hin : i < pos + bytes.length
    · rw [if_pos (by omega), if_pos hin, if_pos hin]
    · rw [if_neg hin, if_neg hin]
      by_cases hend : i < size
      · rw [if_pos (by omega), if_pos hend]
      · rw [if_neg (by omega), if_neg hend]

theorem take_writeAt_behind {size : Nat} (hsize : size ≤ pos) (hpos : pos ≤ file.length)
    (bytes : Bytes) : (writeAt file pos bytes).take size = file.take size := by
  apply List.ext_getElem?
  intro i
  rw [List.getElem?_take, List.getElem?_take]
  split
  · exact getElem?_writeAt_outside hpos bytes (.inl (by omega))
  · rfl

theorem writeAt_end (file bytes : Bytes) : writeAt file file.length bytes = file ++ bytes := by
  unfold writeAt
  simp

end ApueFormal.Libc
