import Mathlib.Algebra.Order.Ring.Int
import Mathlib.Data.List.TakeWhile
import Mathlib.Tactic.Ring

/-!
# Text functions of the C library

Strings are lists of bytes without their terminating zero.  Numbers are read
and printed as `atoi`, `atol` and `snprintf` of the vendored musl do it.
-/

namespace ApueFormal.Libc

abbrev Byte := UInt8

abbrev Bytes := List UInt8

/-- A C string: a sequence of bytes that ends at its first zero byte. -/
structure CString where
  bytes : Bytes
  noNul : (0 : Byte) ∉ bytes
  deriving DecidableEq

@[ext] theorem CString.ext {left right : CString}
    (hbytes : left.bytes = right.bytes) : left = right := by
  cases left
  cases right
  cases hbytes
  rfl

def CString.strlen (text : CString) : Nat := text.bytes.length

/-- The C string stored at the start of a buffer. -/
def cstr (buffer : Bytes) : Bytes := buffer.takeWhile (· ≠ 0)

theorem cstr_of_noNul {buffer : Bytes} (hnul : (0 : Byte) ∉ buffer) : cstr buffer = buffer := by
  unfold cstr
  rw [List.takeWhile_eq_self_iff]
  intro byte hmem
  have hne : byte ≠ 0 := by
    rintro rfl
    exact hnul hmem
  simpa using hne

theorem cstr_append_zero (text rest : Bytes) : cstr (text ++ 0 :: rest) = cstr text := by
  induction text with
  | nil => rfl
  | cons byte text ih =>
    unfold cstr at ih ⊢
    rw [List.cons_append, List.takeWhile_cons, List.takeWhile_cons, ih]

theorem eq_cstr_append {buf : Bytes} (hnul : (0 : Byte) ∈ buf) :
    ∃ tail, buf = cstr buf ++ 0 :: tail := by
  have hsplit : cstr buf ++ buf.dropWhile (· ≠ 0) = buf := List.takeWhile_append_dropWhile
  cases hdrop : buf.dropWhile (· ≠ 0) with
  | nil =>
    have hall := List.dropWhile_eq_nil_iff.mp hdrop 0 hnul
    simp at hall
  | cons byte tail =>
    have hhead := List.head?_dropWhile_not (fun byte : Byte => decide (byte ≠ 0)) buf
    rw [hdrop] at hhead
    have hbyte : byte = 0 := by simpa using hhead
    subst hbyte
    exact ⟨tail, by rw [← hdrop, hsplit]⟩

theorem zero_not_mem_cstr (buf : Bytes) : (0 : Byte) ∉ cstr buf := by
  intro hmem
  have hne := List.mem_takeWhile_imp hmem
  simp at hne

def ascii (chars : String) : Bytes := chars.toList.map fun char => UInt8.ofNat char.toNat

/-- `snprintf` into a buffer of a given size. -/
def snprintf (size : Nat) (message : Bytes) : Bytes := message.take (size - 1)

/-- Some data hold a format that ends inside them and has no conversion but `%%`, which
takes no argument; `percent` says that a `%` comes before the data. -/
def formatEnds : Bool → Bytes → Bool
  | _, [] => false
  | true, byte :: rest => byte == 37 && formatEnds false rest
  | false, byte :: rest => byte == 0 || formatEnds (byte == 37) rest

/-- `strchr`, as the text before the first `mark` and the text after it. -/
def strchr (mark : Byte) : Bytes → Option (Bytes × Bytes)
  | [] => none
  | byte :: rest =>
    if byte = mark then
      some ([], rest)
    else
      (strchr mark rest).map fun found => (byte :: found.1, found.2)

theorem strchr_append {mark : Byte} {before : Bytes} (hnot : mark ∉ before) (after : Bytes) :
    strchr mark (before ++ mark :: after) = some (before, after) := by
  induction before with
  | nil => simp [strchr]
  | cons byte rest ih =>
    simp only [List.mem_cons, not_or] at hnot
    simp [strchr, Ne.symm hnot.1, ih hnot.2]

/-! ## Machine integers -/

/-- A value stored in a signed integer of `width` bits. -/
def wrap (width : Nat) (value : Int) : Int := Int.bmod value (2 ^ width)

/-- A length stored in an `int`. -/
def toInt (size : Nat) : Int := wrap 32 size

/-- A signed value converted to `size_t`. -/
def toSize (value : Int) : Nat := (value % (2 ^ 64 : Nat)).toNat

theorem wrap_of_lt {width : Nat} {value : Int}
    (hlow : -(2 ^ width : Nat) ≤ value * 2) (hhigh : value * 2 < (2 ^ width : Nat)) :
    wrap width value = value := by
  unfold wrap
  apply Int.bmod_eq_of_le_mul_two <;> omega

variable {size : Nat}

theorem toInt_of_lt (hsize : size < 2 ^ 31) : toInt size = size :=
  wrap_of_lt (by omega) (by omega)

theorem toSize_natCast (hsize : size < 2 ^ 64) : toSize (size : Int) = size := by
  unfold toSize
  omega

theorem toInt_toSize (value : Int) : toInt (toSize value) = wrap 32 value := by
  unfold toInt toSize wrap
  rw [Int.toNat_of_nonneg (Int.emod_nonneg _ (by decide)), Int.bmod_def, Int.bmod_def,
    Int.emod_emod_of_dvd value (by decide)]

theorem eq_zero_of_toSize_toInt (hzero : toSize (toInt size) = 0) : size = 0 ∨ 2 ^ 31 ≤ size := by
  by_cases hsmall : size < 2 ^ 31
  · rw [toInt_of_lt hsmall, toSize_natCast (by omega)] at hzero
    exact .inl hzero
  · exact .inr (by omega)

theorem wrap_mul_sub (width : Nat) (value digit : Int) :
    wrap width (10 * wrap width value - digit) = wrap width (10 * value - digit) := by
  unfold wrap
  rw [Int.sub_bmod, Int.mul_bmod, Int.bmod_bmod, ← Int.mul_bmod,
    ← Int.sub_bmod]

theorem wrap_neg_wrap (width : Nat) (value : Int) :
    wrap width (-wrap width value) = wrap width (-value) := by
  unfold wrap
  simp

/-! ## Reading numbers -/

def isSpace (byte : Byte) : Bool := byte == 32 || (9 ≤ byte && byte ≤ 13)

def isDigit (byte : Byte) : Bool := 48 ≤ byte && byte ≤ 57

def digitValue (byte : Byte) : Nat := byte.toNat - 48

/-- The digit loop of `atoi` and `atol`, which counts downwards. -/
def atoLoop (width : Nat) (value : Int) : Bytes → Int
  | [] => value
  | byte :: rest =>
    if isDigit byte then
      atoLoop width (wrap width (10 * value - digitValue byte)) rest
    else
      value

/-- Read a number of `width` bits: blanks, an optional sign, digits. -/
def ato (width : Nat) (text : Bytes) : Int :=
  match text.dropWhile isSpace with
  | 45 :: rest => atoLoop width 0 rest
  | 43 :: rest => wrap width (-atoLoop width 0 rest)
  | rest => wrap width (-atoLoop width 0 rest)

def atoi (text : Bytes) : Int := ato 32 text

def atol (text : Bytes) : Int := ato 64 text

/-! ## Printing numbers -/

/-- The digit loop of the printing functions, which fills a buffer from its
end.  The fuel is the value, which is never less than the number of digits. -/
def fmtU : Nat → Nat → Bytes → Bytes
  | 0, _, text => text
  | fuel + 1, value, text =>
    if value = 0 then
      text
    else
      fmtU fuel (value / 10) (UInt8.ofNat (48 + value % 10) :: text)

def decimal (value : Nat) : Bytes :=
  if value = 0 then [48] else fmtU value value []

/-- The conversion `%lld` or `%d`. -/
def fmtD (value : Int) : Bytes :=
  if value < 0 then 45 :: decimal value.natAbs else decimal value.toNat

def padLeft (width : Nat) (text : Bytes) : Bytes :=
  List.replicate (width - text.length) 32 ++ text

@[simp] theorem fmtD_natCast (value : Nat) : fmtD value = decimal value := by
  unfold fmtD
  rw [if_neg (by omega), Int.toNat_natCast]

theorem isDigit_ofNat (digit : Nat) (hdigit : digit < 10) :
    isDigit (UInt8.ofNat (48 + digit)) = true ∧ digitValue (UInt8.ofNat (48 + digit)) = digit := by
  have hall : ∀ digit < 10, isDigit (UInt8.ofNat (48 + digit)) = true ∧
      digitValue (UInt8.ofNat (48 + digit)) = digit := by decide
  exact hall digit hdigit

variable {value : Nat} {text : Bytes} {byte : Byte}

theorem fmtU_digits {fuel : Nat} (htext : ∀ byte ∈ text, isDigit byte = true) :
    ∀ byte ∈ fmtU fuel value text, isDigit byte = true := by
  induction fuel generalizing value text with
  | zero => exact htext
  | succ fuel ih =>
    unfold fmtU
    split
    · exact htext
    · refine ih ?_
      intro byte hmem
      rcases List.mem_cons.mp hmem with rfl | hmem
      · exact (isDigit_ofNat _ (Nat.mod_lt _ (by decide))).1
      · exact htext byte hmem

theorem decimal_digits (value : Nat) : ∀ byte ∈ decimal value, isDigit byte = true := by
  unfold decimal
  split
  · intro byte hmem
    rw [List.mem_singleton.mp hmem]
    decide
  · exact fmtU_digits (by simp)

/-- The number that a sequence of digits continues from a value. -/
def ofDigits (value : Nat) (text : Bytes) : Nat :=
  text.foldl (fun total byte => 10 * total + digitValue byte) value

theorem ofDigits_fmtU {fuel : Nat} (hfuel : value ≤ fuel) (text : Bytes) :
    ofDigits 0 (fmtU fuel value text) = ofDigits value text := by
  induction fuel generalizing value text with
  | zero =>
    obtain rfl : value = 0 := by omega
    rfl
  | succ fuel ih =>
    unfold fmtU
    split
    · rename_i hzero
      rw [hzero]
    · rename_i hpos
      rw [ih (by omega)]
      unfold ofDigits
      rw [List.foldl_cons,
        (isDigit_ofNat _ (Nat.mod_lt value (by decide))).2,
        Nat.div_add_mod]

theorem ofDigits_decimal (value : Nat) : ofDigits 0 (decimal value) = value := by
  unfold decimal
  split
  · rename_i hzero
    rw [hzero]
    decide
  · exact ofDigits_fmtU (Nat.le_refl value) []

theorem decimal_ne_nil (value : Nat) : decimal value ≠ [] := by
  intro hnil
  have hvalue := ofDigits_decimal value
  rw [hnil] at hvalue
  have hzero : value = 0 := hvalue.symm
  rw [hzero] at hnil
  cases hnil

theorem length_fmtU (fuel : Nat) {digits : Nat} (hlt : value < 10 ^ digits) (text : Bytes) :
    (fmtU fuel value text).length ≤ digits + text.length := by
  induction fuel generalizing value digits text with
  | zero => exact Nat.le_add_left _ _
  | succ fuel ih =>
    unfold fmtU
    split
    · exact Nat.le_add_left _ _
    · cases digits with
      | zero =>
        simp at hlt
        omega
      | succ digits =>
        have hdiv : value / 10 < 10 ^ digits := by
          rw [Nat.div_lt_iff_lt_mul (by decide)]
          rwa [Nat.pow_succ] at hlt
        have hshort := ih hdiv (UInt8.ofNat (48 + value % 10) :: text)
        simp only [List.length_cons] at hshort
        omega

theorem length_decimal_le {digits : Nat} (hpos : 0 < digits) (hlt : value < 10 ^ digits) :
    (decimal value).length ≤ digits := by
  unfold decimal
  split
  · exact hpos
  · simpa using length_fmtU value hlt []

theorem length_padLeft {width : Nat} (hle : text.length ≤ width) :
    (padLeft width text).length = width := by
  simp only [padLeft, List.length_append, List.length_replicate]
  omega

theorem length_decimal_pos (value : Nat) : 0 < (decimal value).length :=
  List.length_pos_iff.mpr (decimal_ne_nil value)

theorem isDigit_range (hdigit : isDigit byte = true) : 48 ≤ byte.toNat ∧ byte.toNat ≤ 57 := by
  unfold isDigit at hdigit
  simp only [Bool.and_eq_true, decide_eq_true_eq, UInt8.le_iff_toNat_le] at hdigit
  exact hdigit

theorem ofDigits_lt (value : Nat) (hdigits : ∀ byte ∈ text, isDigit byte = true) :
    ofDigits value text < (value + 1) * 10 ^ text.length := by
  induction text generalizing value with
  | nil => simp [ofDigits]
  | cons byte rest ih =>
    obtain ⟨hbyte, hrest⟩ := List.forall_mem_cons.mp hdigits
    have hdigit : digitValue byte ≤ 9 := by
      have hrange := isDigit_range hbyte
      rw [digitValue]
      omega
    have hstep := ih (10 * value + digitValue byte) hrest
    calc ofDigits value (byte :: rest)
        = ofDigits (10 * value + digitValue byte) rest := rfl
      _ < (10 * value + digitValue byte + 1) * 10 ^ rest.length := hstep
      _ ≤ ((value + 1) * 10) * 10 ^ rest.length := Nat.mul_le_mul_right _ (by omega)
      _ = (value + 1) * 10 ^ (byte :: rest).length := by
          rw [List.length_cons, Nat.pow_succ']
          ring

theorem length_decimal_mono {larger : Nat} (hle : value ≤ larger) :
    (decimal value).length ≤ (decimal larger).length := by
  apply length_decimal_le (length_decimal_pos larger)
  have hlt := ofDigits_lt 0 (decimal_digits larger)
  rw [ofDigits_decimal] at hlt
  omega

theorem not_mem_decimal (hnot : isDigit byte = false) (value : Nat) : byte ∉ decimal value := by
  intro hmem
  rw [decimal_digits value byte hmem] at hnot
  cases hnot

theorem atoLoop_digits (width : Nat) (text : Bytes)
    (hdigits : ∀ byte ∈ text, isDigit byte = true) (value : Nat) :
    atoLoop width (wrap width (-value)) text = wrap width (-(ofDigits value text : Nat)) := by
  induction text generalizing value with
  | nil => rfl
  | cons byte rest ih =>
    have hbyte := hdigits byte List.mem_cons_self
    unfold atoLoop
    rw [if_pos hbyte, wrap_mul_sub]
    have hnext : (10 * -(value : Int) - (digitValue byte : Nat)) =
        -((10 * value + digitValue byte : Nat) : Int) := by
      push_cast
      ring
    rw [hnext]
    exact ih (fun other hmem => hdigits other (List.mem_cons_of_mem _ hmem)) _

theorem atoLoop_append (width : Nat) (value : Int) (text : Bytes) {rest : Bytes}
    (hrest : ∀ byte ∈ rest.head?, isDigit byte = false) :
    atoLoop width value (text ++ rest) = atoLoop width value text := by
  induction text generalizing value with
  | nil =>
    cases rest with
    | nil => rfl
    | cons byte rest =>
      have hbyte := hrest byte rfl
      simp [atoLoop, hbyte]
  | cons byte text ih =>
    rw [List.cons_append, atoLoop, atoLoop, ih]

theorem isSpace_of_isDigit (hdigit : isDigit byte = true) : isSpace byte = false := by
  have hrange := isDigit_range hdigit
  unfold isSpace
  simp only [Bool.or_eq_false_iff, beq_eq_false_iff_ne, ne_eq, Bool.and_eq_false_iff,
    decide_eq_false_iff_not, UInt8.le_iff_toNat_le]
  refine ⟨?_, ?_⟩
  · rintro rfl
    exact absurd hrange.1 (by decide)
  · right
    intro hle
    have h13 : (13 : UInt8).toNat = 13 := rfl
    omega

/-- Blanks followed by the digits of a number are read back as the number, whatever
follows the digits. -/
theorem ato_padLeft_append (width pad value : Nat) (hlt : value * 2 < 2 ^ width)
    {rest : Bytes} (hrest : ∀ byte ∈ rest.head?, isDigit byte = false) :
    ato width (padLeft pad (decimal value) ++ rest) = value := by
  have hdrop : (padLeft pad (decimal value) ++ rest).dropWhile isSpace = decimal value ++ rest := by
    unfold padLeft
    rw [List.append_assoc, List.dropWhile_append_of_pos]
    · cases hdecimal : decimal value with
      | nil => exact absurd hdecimal (decimal_ne_nil value)
      | cons byte tail =>
        have hspace := isSpace_of_isDigit (decimal_digits value byte
          (by rw [hdecimal]; exact List.mem_cons_self))
        simp [hspace]
    · intro byte hmem
      rw [List.eq_of_mem_replicate hmem]
      rfl
  have hwrap : wrap width (-atoLoop width 0 (decimal value ++ rest)) = value := by
    have hloop := atoLoop_digits width (decimal value) (decimal_digits value) 0
    have hzero : wrap width (-((0 : Nat) : Int)) = 0 := by
      unfold wrap
      simp
    rw [hzero, ofDigits_decimal] at hloop
    rw [atoLoop_append width 0 _ hrest, hloop, wrap_neg_wrap, Int.neg_neg]
    apply wrap_of_lt <;> omega
  -- The text starts with a digit, so neither sign branch applies.
  have hhead : ∀ byte tail, decimal value ++ rest = byte :: tail → isDigit byte = true := by
    intro byte tail heq
    cases hdecimal : decimal value with
    | nil => exact absurd hdecimal (decimal_ne_nil value)
    | cons first others =>
      rw [hdecimal] at heq
      cases heq
      exact decimal_digits value byte (by rw [hdecimal]; exact List.mem_cons_self)
  unfold ato
  rw [hdrop]
  split
  · rename_i tail hminus
    cases hhead 45 tail hminus
  · rename_i tail hplus
    cases hhead 43 tail hplus
  · exact hwrap

theorem ato_padLeft (width pad value : Nat) (hlt : value * 2 < 2 ^ width) :
    ato width (padLeft pad (decimal value)) = value := by
  have hnone : ∀ byte ∈ ([] : Bytes).head?, isDigit byte = false := fun _ hmem => by cases hmem
  simpa using ato_padLeft_append width pad value hlt hnone

theorem ato_decimal (width value : Nat) (hlt : value * 2 < 2 ^ width) :
    ato width (decimal value) = value := by
  simpa [padLeft] using ato_padLeft width 0 value hlt

end ApueFormal.Libc
