import ApueFormal.Printer.Parse
import ApueFormal.Printer.Spool

/-!
# The IPP header of a print job

`printer_thread` builds the IPP header in `ibuf` with `add_option`, which copies the name
and the value of an option without a bound.
-/

namespace ApueFormal.Printer

open Libc

def ibufsz : Nat := 512

def opPrintJob : Nat := 0x02

def tagOperationAttr : Byte := 0x01

def tagEndOfAttr : Byte := 0x03

def tagNamewolang : Byte := 0x42

def tagUri : Byte := 0x45

def tagCharset : Byte := 0x47

def tagNatulang : Byte := 0x48

def tagMimetype : Byte := 0x49

/-- What the printer thread uses of a job.  The texts are those that `strlen` and `strcpy`
find at the fields of the request. -/
structure PrintJob where
  jobid : Int
  flags : Nat
  usernm : CString
  jobnm : CString
  jobid_range : -2 ^ 31 ≤ jobid ∧ jobid < 2 ^ 31

/-- `jp->req.flags & PR_TEXT`. -/
def PrintJob.isText (job : PrintJob) : Bool := job.flags.testBit 0

def literal (chars : String) (hnul : (0 : Byte) ∉ ascii chars) : CString := ⟨ascii chars, hnul⟩

/-- A buffer that is filled through a pointer into it. -/
structure Ibuf where
  mem : Nat → Byte
  cp : Nat
  /-- All bytes that have been written are below this index. -/
  top : Nat

namespace Ibuf

/-- `*cp++ = byte`. -/
def put (buf : Ibuf) (byte : Byte) : Ibuf where
  mem := fill buf.mem buf.cp [byte]
  cp := buf.cp + 1
  top := max buf.top (buf.cp + 1)

/-- `strcpy(cp, text)`. -/
def strcpy (buf : Ibuf) (text : CString) : Ibuf where
  mem := fill buf.mem buf.cp (text.bytes ++ [0])
  cp := buf.cp
  top := max buf.top (buf.cp + (text.strlen + 1))

/-- `cp += n`. -/
def advance (buf : Ibuf) (n : Nat) : Ibuf := { buf with cp := buf.cp + n }

/-- The two bytes of `htons(n)`. -/
def putShort (buf : Ibuf) (n : Nat) : Ibuf :=
  (buf.put (UInt8.ofNat (n / 256))).put (UInt8.ofNat n)

end Ibuf

/-- `add_option`; the pointer that it returns is that of the buffer. -/
def addOption (buf : Ibuf) (tag : Byte) (optname optval : CString) : Ibuf :=
  let buf := buf.put tag
  let buf := buf.putShort optname.strlen
  let buf := (buf.strcpy optname).advance optname.strlen
  let buf := buf.putShort optval.strlen
  (buf.strcpy optval).advance optval.strlen

def beBytes (value : Nat) : Bytes :=
  [UInt8.ofNat (value / 2 ^ 24), UInt8.ofNat (value / 2 ^ 16), UInt8.ofNat (value / 2 ^ 8),
    UInt8.ofNat value]

/-- `struct ipp_hdr` up to the attributes. -/
def ippHdr (jobid : Int) : Bytes :=
  [1, 1, UInt8.ofNat (opPrintJob / 256), UInt8.ofNat opPrintJob] ++ beBytes (toSize jobid)

def httpText : Bytes := ascii "http://"

def ippText : Bytes := ascii "/ipp"

/-- `snprintf(str, sizeof(str), "http://%s/ipp", printer_name)`. -/
def printerUri (printerName : CString) : CString where
  bytes := snprintf 64 (httpText ++ (printerName.bytes ++ ippText))
  noNul := by
    intro hmem
    rcases List.mem_append.mp (List.mem_of_mem_take hmem) with hhttp | hrest
    · exact absurd hhttp (by decide +kernel)
    · rcases List.mem_append.mp hrest with hname | hipp
      · exact printerName.noNul hname
      · exact absurd hipp (by decide +kernel)

def attributesCharset : CString := literal "attributes-charset" (by decide +kernel)

def utf8 : CString := literal "utf-8" (by decide +kernel)

def attributesNaturalLanguage : CString :=
  literal "attributes-natural-language" (by decide +kernel)

def enUs : CString := literal "en-us" (by decide +kernel)

def printerUriName : CString := literal "printer-uri" (by decide +kernel)

def requestingUserName : CString := literal "requesting-user-name" (by decide +kernel)

def jobName : CString := literal "job-name" (by decide +kernel)

def documentFormat : CString := literal "document-format" (by decide +kernel)

def textPlain : CString := literal "text/plain" (by decide +kernel)

def applicationPostscript : CString := literal "application/postscript" (by decide +kernel)

/-- The value of `document-format`. -/
def PrintJob.format (job : PrintJob) : CString :=
  if job.isText then textPlain else applicationPostscript

/-- "Set up the IPP header", in memory that holds anything before. -/
def setUpIpp (mem : Nat → Byte) (printerName : CString) (job : PrintJob) : Ibuf :=
  let buf : Ibuf := ⟨fill mem 0 (ippHdr job.jobid), 8, 8⟩
  let buf := buf.put tagOperationAttr
  let buf := addOption buf tagCharset attributesCharset utf8
  let buf := addOption buf tagNatulang attributesNaturalLanguage enUs
  let buf := addOption buf tagUri printerUriName (printerUri printerName)
  let buf := addOption buf tagNamewolang requestingUserName job.usernm
  let buf := addOption buf tagNamewolang jobName job.jobnm
  let buf := addOption buf tagMimetype documentFormat job.format
  buf.put tagEndOfAttr

/-! ## What is in the buffer -/

structure Attribute where
  tag : Byte
  name : Bytes
  value : Bytes
  deriving DecidableEq

def encodeText (text : Bytes) : Bytes :=
  UInt8.ofNat (text.length / 256) :: UInt8.ofNat text.length :: text

def Attribute.encode (attr : Attribute) : Bytes :=
  attr.tag :: (encodeText attr.name ++ encodeText attr.value)

def jobAttributes (printerName : CString) (job : PrintJob) : List Attribute :=
  [⟨tagCharset, attributesCharset.bytes, utf8.bytes⟩,
    ⟨tagNatulang, attributesNaturalLanguage.bytes, enUs.bytes⟩,
    ⟨tagUri, printerUriName.bytes, (printerUri printerName).bytes⟩,
    ⟨tagNamewolang, requestingUserName.bytes, job.usernm.bytes⟩,
    ⟨tagNamewolang, jobName.bytes, job.jobnm.bytes⟩,
    ⟨tagMimetype, documentFormat.bytes, job.format.bytes⟩]

def encodeIpp (jobid : Int) (attrs : List Attribute) : Bytes :=
  ippHdr jobid ++ [tagOperationAttr] ++ attrs.flatMap Attribute.encode ++ [tagEndOfAttr]

/-- The bytes before the pointer are a text, and behind them one byte has been written at
most. -/
structure Filled (buf : Ibuf) (text : Bytes) : Prop where
  holds : Holds buf.mem 0 text
  cp : buf.cp = text.length
  top : buf.top ≤ text.length + 1

namespace Filled

variable {buf : Ibuf} {text : Bytes}
variable (hfilled : Filled buf text)
include hfilled

theorem top_put (byte : Byte) : (buf.put byte).top = (text ++ [byte]).length := by
  have hcp := hfilled.cp
  have htop := hfilled.top
  rw [List.length_append, List.length_singleton]
  dsimp only [Ibuf.put]
  omega

theorem put (byte : Byte) : Filled (buf.put byte) (text ++ [byte]) := by
  constructor
  · rw [holds_append, Nat.zero_add, ← hfilled.cp]
    exact ⟨hfilled.holds.fill_outside (.inr (by rw [hfilled.cp, Nat.zero_add])), holds_fill ..⟩
  · rw [List.length_append, List.length_singleton, ← hfilled.cp]
    rfl
  · rw [hfilled.top_put]
    omega

theorem putShort (n : Nat) :
    Filled (buf.putShort n) (text ++ [UInt8.ofNat (n / 256), UInt8.ofNat n]) := by
  have hput := (hfilled.put (UInt8.ofNat (n / 256))).put (UInt8.ofNat n)
  rwa [List.append_assoc] at hput

theorem copy (source : CString) :
    Filled ((buf.strcpy source).advance source.strlen) (text ++ source.bytes) := by
  have hcp := hfilled.cp
  have htop := hfilled.top
  constructor
  · have hcopied : Holds (fill buf.mem buf.cp (source.bytes ++ [0])) buf.cp source.bytes :=
      (holds_append.mp (holds_fill ..)).1
    rw [holds_append, Nat.zero_add, ← hcp]
    exact ⟨hfilled.holds.fill_outside (.inr (by rw [hcp, Nat.zero_add])), hcopied⟩
  · rw [List.length_append, ← hcp]
    rfl
  · rw [List.length_append]
    dsimp only [Ibuf.strcpy, Ibuf.advance, CString.strlen]
    omega

theorem addOption (tag : Byte) (optname optval : CString) :
    Filled (addOption buf tag optname optval)
      (text ++ Attribute.encode ⟨tag, optname.bytes, optval.bytes⟩) := by
  have hname := ((hfilled.put tag).putShort optname.strlen).copy optname
  have hvalue := (hname.putShort optval.strlen).copy optval
  have htext : text ++ [tag] ++ [UInt8.ofNat (optname.strlen / 256), UInt8.ofNat optname.strlen] ++
      optname.bytes ++ [UInt8.ofNat (optval.strlen / 256), UInt8.ofNat optval.strlen] ++
      optval.bytes = text ++ Attribute.encode ⟨tag, optname.bytes, optval.bytes⟩ := by
    simp [Attribute.encode, encodeText, CString.strlen]
  rw [htext] at hvalue
  exact hvalue

end Filled

/-- The header that has been set up, and how far the buffer has been written. -/
theorem setUpIpp_filled (mem : Nat → Byte) (printerName : CString) (job : PrintJob) :
    Filled (setUpIpp mem printerName job) (encodeIpp job.jobid (jobAttributes printerName job)) ∧
      (setUpIpp mem printerName job).top =
        (encodeIpp job.jobid (jobAttributes printerName job)).length := by
  have hstart : Filled ⟨fill mem 0 (ippHdr job.jobid), 8, 8⟩ (ippHdr job.jobid) :=
    ⟨holds_fill mem 0 (ippHdr job.jobid), rfl, Nat.le_succ 8⟩
  have hoptions := ((((((hstart.put tagOperationAttr).addOption
    tagCharset attributesCharset utf8).addOption
    tagNatulang attributesNaturalLanguage enUs).addOption
    tagUri printerUriName (printerUri printerName)).addOption
    tagNamewolang requestingUserName job.usernm).addOption
    tagNamewolang jobName job.jobnm).addOption
    tagMimetype documentFormat job.format
  have htext : ippHdr job.jobid ++ [tagOperationAttr] ++
      Attribute.encode ⟨tagCharset, attributesCharset.bytes, utf8.bytes⟩ ++
      Attribute.encode ⟨tagNatulang, attributesNaturalLanguage.bytes, enUs.bytes⟩ ++
      Attribute.encode ⟨tagUri, printerUriName.bytes, (printerUri printerName).bytes⟩ ++
      Attribute.encode ⟨tagNamewolang, requestingUserName.bytes, job.usernm.bytes⟩ ++
      Attribute.encode ⟨tagNamewolang, jobName.bytes, job.jobnm.bytes⟩ ++
      Attribute.encode ⟨tagMimetype, documentFormat.bytes, job.format.bytes⟩ ++ [tagEndOfAttr] =
        encodeIpp job.jobid (jobAttributes printerName job) := by
    simp [encodeIpp, jobAttributes]
  have hfilled := hoptions.put tagEndOfAttr
  have htop := hoptions.top_put tagEndOfAttr
  rw [htext] at hfilled htop
  exact ⟨hfilled, htop⟩

/-! ## The size of the header -/

theorem length_encode (attr : Attribute) :
    attr.encode.length = attr.name.length + attr.value.length + 5 := by
  simp only [Attribute.encode, encodeText, List.length_cons, List.length_append]
  omega

theorem length_encodeIpp (printerName : CString) (job : PrintJob) :
    (encodeIpp job.jobid (jobAttributes printerName job)).length =
      149 + ((printerUri printerName).strlen + job.usernm.strlen + job.jobnm.strlen +
        job.format.strlen) := by
  have hfixed : attributesCharset.bytes.length = 18 ∧ utf8.bytes.length = 5 ∧
      attributesNaturalLanguage.bytes.length = 27 ∧ enUs.bytes.length = 5 ∧
      printerUriName.bytes.length = 11 ∧ requestingUserName.bytes.length = 20 ∧
      jobName.bytes.length = 8 ∧ documentFormat.bytes.length = 15 := by
    decide +kernel
  have hhdr : (ippHdr job.jobid).length = 8 := rfl
  simp only [encodeIpp, jobAttributes, List.flatMap_cons, List.flatMap_nil, List.length_append,
    length_encode, List.length_singleton, List.length_nil, CString.strlen]
  omega

/-- The header stays inside its buffer exactly when the four texts that vary have at most
363 bytes together. -/
theorem ipp_header_fits_iff (mem : Nat → Byte) (printerName : CString) (job : PrintJob) :
    (setUpIpp mem printerName job).top ≤ ibufsz ↔
      (printerUri printerName).strlen + job.usernm.strlen + job.jobnm.strlen +
        job.format.strlen ≤ 363 := by
  rw [(setUpIpp_filled mem printerName job).2, length_encodeIpp, ibufsz]
  omega

def repeated (count : Nat) : CString :=
  ⟨List.replicate count 97, fun hmem => absurd (List.eq_of_mem_replicate hmem) (by decide)⟩

/-- The longest names that the print client sends, for a PostScript file. -/
def longJob : PrintJob := ⟨1, 0, repeated (usernmMax - 1), repeated (jobnmMax - 1), by decide⟩

/-- The header of such a job has 524 bytes if the name of the printer has 24 letters. -/
theorem long_job_overflows :
    longJob.usernm.strlen ≤ usernmMax - 1 ∧ longJob.jobnm.strlen ≤ jobnmMax - 1 ∧
      (setUpIpp (fun _ => 0) (repeated 24) longJob).top = 524 ∧ ¬ 524 ≤ ibufsz := by
  refine ⟨by decide +kernel, by decide +kernel, ?_, by decide⟩
  rw [(setUpIpp_filled (fun _ => 0) (repeated 24) longJob).2, length_encodeIpp]
  decide +kernel

end ApueFormal.Printer
