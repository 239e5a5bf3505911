import ApueFormal.Printer.Http
import ApueFormal.Printer.Ipp

/-!
# Reading a request

How a printer takes apart what it is sent: the lines of the HTTP header up to the blank
line, and behind it the IPP header with its attributes.
-/

namespace ApueFormal.Printer

open Libc

/-- The bytes before the first line end, and those behind it. -/
def readLine : Bytes → Option (Bytes × Bytes)
  | 13 :: 10 :: rest => some ([], rest)
  | byte :: rest => (readLine rest).map fun found => (byte :: found.1, found.2)
  | [] => none

/-- The lines before the first blank one, and what is behind it. -/
def readHeader : Nat → Bytes → Option (List Bytes × Bytes)
  | 0, _ => none
  | fuel + 1, text =>
    match readLine text with
    | none => none
    | some ([], rest) => some ([], rest)
    | some (line, rest) =>
      (readHeader fuel rest).map fun found => (line :: found.1, found.2)

def readRequest (sent : Bytes) : Option (List Bytes × Bytes) := readHeader sent.length sent

def contentLengthText : Bytes := ascii "Content-Length: "

/-- The number of the first `Content-Length`. -/
def announcedLength (lines : List Bytes) : Option Int :=
  (lines.find? fun line => line.take 16 == contentLengthText).map fun line => atol (line.drop 16)

theorem readLine_append {line : Bytes} (hline : IsLine line) (rest : Bytes) :
    readLine (line ++ (crlf ++ rest)) = some (line, rest) := by
  induction line with
  | nil => rfl
  | cons byte line ih =>
    obtain ⟨hbyte, hrest⟩ := List.forall_mem_cons.mp hline
    have hcr : byte ≠ 13 := by
      rintro rfl
      cases hbyte
    rw [List.cons_append, readLine, ih hrest]
    · rfl
    · rintro _ rfl
      exact absurd rfl hcr

theorem readHeader_headerLines {lines : List Bytes}
    (hlines : ∀ line ∈ lines, line ≠ [] ∧ IsLine line) (body : Bytes) {fuel : Nat}
    (hfuel : lines.length < fuel) :
    readHeader fuel (headerLines lines ++ (crlf ++ body)) = some (lines, body) := by
  induction lines generalizing fuel with
  | nil =>
    obtain ⟨spare, rfl⟩ := Nat.exists_eq_add_of_lt hfuel
    rfl
  | cons line lines ih =>
    obtain ⟨⟨hne, hline⟩, hrest⟩ := List.forall_mem_cons.mp hlines
    obtain ⟨spare, rfl⟩ := Nat.exists_eq_add_of_lt hfuel
    have hcons : headerLines (line :: lines) ++ (crlf ++ body) =
        line ++ (crlf ++ (headerLines lines ++ (crlf ++ body))) := by
      simp [headerLines]
    have hread := readLine_append hline (headerLines lines ++ (crlf ++ body))
    rw [hcons, readHeader, hread]
    obtain ⟨byte, line, rfl⟩ := List.exists_cons_of_ne_nil hne
    dsimp only
    rw [ih hrest (Nat.lt_of_succ_lt_succ hfuel)]
    rfl

theorem length_lines_le (lines : List Bytes) : lines.length ≤ (headerLines lines).length := by
  induction lines with
  | nil => exact Nat.le_refl 0
  | cons line lines ih =>
    simp only [headerLines, List.map_cons, List.flatten_cons, List.length_append,
      List.length_cons] at ih ⊢
    have hcrlf : crlf.length = 2 := rfl
    omega

theorem readRequest_headerLines {lines : List Bytes}
    (hlines : ∀ line ∈ lines, line ≠ [] ∧ IsLine line) (body : Bytes) :
    readRequest (headerLines lines ++ (crlf ++ body)) = some (lines, body) := by
  apply readHeader_headerLines hlines
  have hle := length_lines_le lines
  have hcrlf : crlf.length = 2 := rfl
  rw [List.length_append, List.length_append]
  omega

def decodeText : Bytes → Option (Bytes × Bytes)
  | high :: low :: rest =>
    let length := 256 * high.toNat + low.toNat
    if length ≤ rest.length then some (rest.take length, rest.drop length) else none
  | _ => none

def decodeAttributes : Nat → Bytes → Option (List Attribute × Bytes)
  | 0, _ => none
  | _, [] => none
  | fuel + 1, tag :: rest =>
    if tag = tagEndOfAttr then some ([], rest)
    else do
      let (name, rest) ← decodeText rest
      let (value, rest) ← decodeText rest
      let (attrs, rest) ← decodeAttributes fuel rest
      some (⟨tag, name, value⟩ :: attrs, rest)

structure IppRequest where
  majorVersion : Byte
  minorVersion : Byte
  operation : Nat
  requestId : Int
  attributes : List Attribute
  deriving DecidableEq

/-- The request at the start of the bytes, and what is behind it. -/
def decodeIpp : Bytes → Option (IppRequest × Bytes)
  | major :: minor :: o₁ :: o₀ :: r₃ :: r₂ :: r₁ :: r₀ :: group :: rest =>
    if group = tagOperationAttr then
      (decodeAttributes rest.length rest).map fun found =>
        (⟨major, minor, bigEndian [o₁, o₀], wrap 32 (bigEndian [r₃, r₂, r₁, r₀]), found.1⟩,
          found.2)
    else none
  | _ => none

theorem toNat_shortBytes {value : Nat} (hvalue : value < 2 ^ 16) :
    256 * (UInt8.ofNat (value / 256)).toNat + (UInt8.ofNat value).toNat = value := by
  rw [UInt8.toNat_ofNat', UInt8.toNat_ofNat']
  omega

theorem decodeText_encodeText {text : Bytes} (htext : text.length < 2 ^ 16) (rest : Bytes) :
    decodeText (encodeText text ++ rest) = some (text, rest) := by
  rw [encodeText, List.cons_append, List.cons_append, decodeText]
  rw [toNat_shortBytes htext, if_pos (by rw [List.length_append]; omega)]
  simp

structure Attribute.Fits (attr : Attribute) : Prop where
  tag : attr.tag ≠ tagEndOfAttr
  name : attr.name.length < 2 ^ 16
  value : attr.value.length < 2 ^ 16

variable {attrs : List Attribute}

theorem decodeAttributes_encode (hfits : ∀ attr ∈ attrs, attr.Fits) (rest : Bytes) {fuel : Nat}
    (hfuel : attrs.length < fuel) :
    decodeAttributes fuel (attrs.flatMap Attribute.encode ++ (tagEndOfAttr :: rest)) =
      some (attrs, rest) := by
  induction attrs generalizing fuel with
  | nil =>
    obtain ⟨spare, rfl⟩ := Nat.exists_eq_add_of_lt hfuel
    rfl
  | cons attr attrs ih =>
    obtain ⟨hattr, hrest⟩ := List.forall_mem_cons.mp hfits
    obtain ⟨spare, rfl⟩ := Nat.exists_eq_add_of_lt hfuel
    have hcons : (attr :: attrs).flatMap Attribute.encode ++ (tagEndOfAttr :: rest) =
        attr.tag :: (encodeText attr.name ++ (encodeText attr.value ++
          (attrs.flatMap Attribute.encode ++ (tagEndOfAttr :: rest)))) := by
      simp [Attribute.encode]
    rw [hcons, decodeAttributes, if_neg hattr.tag, decodeText_encodeText hattr.name]
    dsimp only [Option.bind_eq_bind, Option.bind_some]
    rw [decodeText_encodeText hattr.value]
    dsimp only [Option.bind_some]
    rw [ih hrest (Nat.lt_of_succ_lt_succ hfuel)]
    rfl

theorem length_attributes_le (attrs : List Attribute) :
    attrs.length ≤ (attrs.flatMap Attribute.encode).length := by
  induction attrs with
  | nil => exact Nat.le_refl 0
  | cons attr attrs ih =>
    rw [List.flatMap_cons, List.length_append, length_encode, List.length_cons]
    omega

variable {jobid : Int} (hjobid : -2 ^ 31 ≤ jobid ∧ jobid < 2 ^ 31)
include hjobid

theorem wrap_beBytes : wrap 32 (bigEndian (beBytes (toSize jobid))) = jobid := by
  have hbytes : bigEndian (beBytes (toSize jobid)) = toSize jobid % 2 ^ 32 := by
    simp only [bigEndian, beBytes, List.foldl_cons, List.foldl_nil, UInt8.toNat_ofNat']
    omega
  rw [hbytes, toSize, wrap, Int.bmod_def]
  split <;> omega

theorem decodeIpp_encodeIpp (hfits : ∀ attr ∈ attrs, attr.Fits) (rest : Bytes) :
    decodeIpp (encodeIpp jobid attrs ++ rest) = some (⟨1, 1, opPrintJob, jobid, attrs⟩, rest) := by
  have hle := length_attributes_le attrs
  have hfuel : attrs.length <
      (attrs.flatMap Attribute.encode ++ (tagEndOfAttr :: rest)).length := by
    rw [List.length_append, List.length_cons]
    omega
  have hdecode := decodeAttributes_encode hfits rest hfuel
  have htext : encodeIpp jobid attrs ++ rest = ippHdr jobid ++
      (tagOperationAttr :: (attrs.flatMap Attribute.encode ++ (tagEndOfAttr :: rest))) := by
    simp [encodeIpp]
  have hid := wrap_beBytes hjobid
  rw [beBytes] at hid
  rw [htext]
  simp only [ippHdr, beBytes, List.cons_append, List.nil_append, decodeIpp, hdecode, hid,
    if_true, Option.map_some]
  rfl

end ApueFormal.Printer
