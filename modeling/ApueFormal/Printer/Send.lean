import ApueFormal.Printer.Framing
import ApueFormal.Printer.Writen

/-!
# Sending a job to the printer

The part of `printer_thread` that sends a job: the HTTP header with the length of what
follows, the IPP header, a backspace for text, and the file.
-/

namespace ApueFormal.Printer

open Libc

/-- `printer_name`, the canonical name from `getaddrinfo`.  The library keeps it in a buffer
of 256 bytes, and it has no white space. -/
structure PrinterName where
  name : CString
  short : name.strlen < 256
  line : IsLine name.bytes

def hbufsz : Nat := 512

/-- `snprintf` behind the text that is in the buffer. -/
def hprintf (text message : Bytes) : Bytes :=
  text ++ snprintf (toSize ((hbufsz : Int) - text.length)) message

def postLine : Bytes := ascii "POST /ipp HTTP/1.1"

def contentTypeLine : Bytes := ascii "Content-Type: application/ipp"

def hostText : Bytes := ascii "Host: "

def portText : Bytes := ascii ":631"

def setUpHttp (printerName : CString) (length : Int) : Bytes :=
  let text := hprintf [] (postLine ++ crlf)
  let text := hprintf text (contentLengthText ++ fmtD length ++ crlf)
  let text := text ++ (contentTypeLine ++ crlf)
  let text := hprintf text (hostText ++ printerName.bytes ++ portText ++ crlf)
  text ++ crlf

/-- What the system calls return while a job is sent. -/
structure SendCalls where
  writev : Write
  /-- `write` of the backspace. -/
  writeExtra : Write
  /-- `read` on the data file. -/
  reads : List Tread
  /-- `write` of the file. -/
  writes : List Write

structure JobSent where
  sent : Bytes
  /-- A write has failed or was short. -/
  failed : Bool
  /-- The job is put back and the response is not read. -/
  deferred : Bool

/-- The loop that sends the file.  It is still running when the results of `read` are used
up. -/
def copyFile (buf : Nat → Byte) : List Tread → List Write → Option JobSent
  | [], _ => none
  | read :: reads, writes =>
    let nr := (readFile buf read).1
    let buf := (readFile buf read).2
    if nr ≤ 0 then some ⟨[], false, decide (nr < 0)⟩
    else
      let result := writen buf (toSize nr) writes
      if wrap 32 result.value ≠ nr then some ⟨result.sent, true, true⟩
      else
        (copyFile buf reads result.results).map fun rest =>
          ⟨result.sent ++ rest.sent, result.failed || rest.failed, rest.deferred⟩

def PrintJob.extra (job : PrintJob) : Bytes := if job.isText then [8] else []

/-- `write(sockfd, "\b", 1)` for a text, unless it fails. -/
def sendExtra (job : PrintJob) (result : Write) : Option Bytes :=
  if job.isText then
    match result with
    | .wrote 1 => some [8]
    | _ => none
  else some []

def announced (ilen : Nat) (job : PrintJob) (size : Nat) : Int :=
  wrap 64 (size + ilen + job.extra.length)

/-- Send a job, with buffers that hold anything before. -/
def sendJob (mem buf : Nat → Byte) (printerName : PrinterName) (job : PrintJob) (size : Nat)
    (calls : SendCalls) : Option JobSent :=
  let ibuf := setUpIpp mem printerName.name job
  let ilen := ibuf.cp
  let hbuf := setUpHttp printerName.name (announced ilen job size)
  let head := hbuf ++ bytesAt ibuf.mem 0 ilen
  match calls.writev with
  | .failed _ => some ⟨[], true, true⟩
  | .wrote count =>
    if count ≠ hbuf.length + ilen then some ⟨head.take count, true, true⟩
    else
      match sendExtra job calls.writeExtra with
      | none => some ⟨head, true, true⟩
      | some extra =>
        (copyFile buf calls.reads calls.writes).map fun rest =>
          { rest with sent := head ++ (extra ++ rest.sent) }

/-! ## The lines of the header -/

def httpLines (printerName : CString) (length : Int) : List Bytes :=
  [postLine, contentLengthText ++ fmtD length, contentTypeLine,
    hostText ++ printerName.bytes ++ portText]

theorem hprintf_of_fits {text message : Bytes} (hfits : text.length + message.length < hbufsz) :
    hprintf text message = text ++ message := by
  have hsize : (hbufsz : Int) - text.length = ((hbufsz - text.length : Nat) : Int) := by omega
  have hlt : hbufsz - text.length < 2 ^ 64 := by
    rw [hbufsz]
    omega
  rw [hprintf, hsize, toSize_natCast hlt, snprintf, List.take_of_length_le (by omega)]

theorem length_fmtD_le {value : Int} (hvalue : -2 ^ 63 ≤ value ∧ value < 2 ^ 63) :
    (fmtD value).length ≤ 20 := by
  unfold fmtD
  split
  · rw [List.length_cons]
    exact Nat.succ_le_succ (length_decimal_le (by omega) (by omega))
  · exact length_decimal_le (by omega) (by omega)

theorem setUpHttp_lines (printerName : PrinterName) {length : Int}
    (hlength : -2 ^ 63 ≤ length ∧ length < 2 ^ 63) :
    setUpHttp printerName.name length =
      headerLines (httpLines printerName.name length) ++ crlf := by
  have hfixed : postLine.length = 18 ∧ contentLengthText.length = 16 ∧
      contentTypeLine.length = 29 ∧ hostText.length = 6 ∧ portText.length = 4 ∧
      crlf.length = 2 := by
    decide +kernel
  have hdigits := length_fmtD_le hlength
  have hname := printerName.short
  have hsize : hbufsz = 512 := rfl
  unfold CString.strlen at hname
  have hpost : hprintf [] (postLine ++ crlf) = postLine ++ crlf :=
    hprintf_of_fits (by simp only [List.length_append, List.length_nil]; omega)
  have hannounce : hprintf (postLine ++ crlf) (contentLengthText ++ fmtD length ++ crlf) =
      postLine ++ crlf ++ (contentLengthText ++ fmtD length ++ crlf) :=
    hprintf_of_fits (by simp only [List.length_append]; omega)
  unfold setUpHttp
  dsimp only
  rw [hpost, hannounce, hprintf_of_fits (by simp only [List.length_append]; omega)]
  simp [httpLines, headerLines]

theorem isLine_decimal (value : Nat) : IsLine (decimal value) := by
  intro byte hmem
  have hcr : byte ≠ 13 := by
    rintro rfl
    exact absurd (decimal_digits value 13 hmem) (by decide)
  have hlf : byte ≠ 10 := by
    rintro rfl
    exact absurd (decimal_digits value 10 hmem) (by decide)
  simp [isEol, hcr, hlf]

theorem isLine_fmtD (value : Int) : IsLine (fmtD value) := by
  unfold fmtD
  split
  · exact List.forall_mem_cons.mpr ⟨rfl, isLine_decimal _⟩
  · exact isLine_decimal _

theorem IsLine.append {line more : Bytes} (hline : IsLine line) (hmore : IsLine more) :
    IsLine (line ++ more) :=
  List.forall_mem_append.mpr ⟨hline, hmore⟩

theorem httpLines_lines (printerName : PrinterName) (length : Int) :
    ∀ line ∈ httpLines printerName.name length, line ≠ [] ∧ IsLine line := by
  have hfixed : IsLine postLine ∧ IsLine contentLengthText ∧ IsLine contentTypeLine ∧
      IsLine hostText ∧ IsLine portText := by
    unfold IsLine
    decide +kernel
  obtain ⟨hpost, hlength, htype, hhost, hport⟩ := hfixed
  simp only [httpLines, List.forall_mem_cons, List.not_mem_nil, false_implies, implies_true,
    and_true]
  exact ⟨⟨by decide +kernel, hpost⟩, ⟨by simp [contentLengthText, ascii],
    hlength.append (isLine_fmtD length)⟩, ⟨by decide +kernel, htype⟩,
    by simp [hostText, ascii], (hhost.append printerName.line).append hport⟩

/-! ## What is sent -/

variable {chunks : List Bytes}

theorem copyFile_chunks (buf : Nat → Byte)
    (hchunks : ∀ chunk ∈ chunks, chunk ≠ [] ∧ chunk.length ≤ iobufsz) (later : List Tread)
    (writes : List Write) :
    ∃ result, copyFile buf (chunks.map .data ++ .data [] :: later) writes = some result ∧
      (result.failed = false → result.deferred = false ∧ result.sent = chunks.flatten) := by
  induction chunks generalizing buf writes with
  | nil => exact ⟨⟨[], false, false⟩, rfl, fun _ => ⟨rfl, rfl⟩⟩
  | cons chunk chunks ih =>
    obtain ⟨⟨hne, hshort⟩, hrest⟩ := List.forall_mem_cons.mp hchunks
    have hpos : 0 < chunk.length := List.length_pos_iff.mpr hne
    have hnr : (readFile buf (.data chunk)).1 = (chunk.length : Int) := rfl
    have hbuf : (readFile buf (.data chunk)).2 = fill buf 0 chunk := rfl
    have hchunk := writen_chunk buf hshort writes
    rw [List.map_cons, List.cons_append, copyFile]
    simp only [hnr, hbuf]
    rw [if_neg (show ¬ (chunk.length : Int) ≤ 0 by omega)]
    generalize writen (fill buf 0 chunk) (toSize (chunk.length : Int)) writes = result at hchunk ⊢
    cases hchunk with
    | part hsent hpart hnw => exact ⟨_, if_pos hnw, fun hfine => nomatch hfine⟩
    | whole hsent hnw hfailed =>
      obtain ⟨rest, hcopy, hfine⟩ := ih (fill buf 0 chunk) hrest result.results
      rw [if_neg (not_not_intro hnw), hcopy, hsent, hfailed]
      refine ⟨_, rfl, fun hrestFine => ?_⟩
      obtain ⟨hdeferred, hall⟩ := hfine hrestFine
      exact ⟨hdeferred, congrArg (chunk ++ ·) hall⟩

theorem sendExtra_eq_some {job : PrintJob} {result : Write} {extra : Bytes}
    (hextra : sendExtra job result = some extra) : extra = job.extra := by
  unfold sendExtra at hextra
  unfold PrintJob.extra
  split at hextra
  · rw [if_pos ‹_›]
    split at hextra
    · exact (Option.some_inj.mp hextra).symm
    · cases hextra
  · rw [if_neg ‹_›]
    exact (Option.some_inj.mp hextra).symm

/-- What is sent behind the blank line of the HTTP header. -/
def requestBody (printerName : PrinterName) (job : PrintJob) (file : Bytes) : Bytes :=
  encodeIpp job.jobid (jobAttributes printerName.name job) ++ (job.extra ++ file)

theorem announced_range (ilen : Nat) (job : PrintJob) (size : Nat) :
    -2 ^ 63 ≤ announced ilen job size ∧ announced ilen job size < 2 ^ 63 := by
  unfold announced wrap
  constructor
  · exact Int.le_bmod (by decide)
  · exact Int.bmod_lt (by decide)

theorem sendJob_sent (mem buf : Nat → Byte) (printerName : PrinterName) (job : PrintJob)
    (hchunks : ∀ chunk ∈ chunks, chunk ≠ [] ∧ chunk.length ≤ iobufsz) (later : List Tread)
    (size : Nat) (writev writeExtra : Write) (writes : List Write) :
    ∃ result, sendJob mem buf printerName job size
          ⟨writev, writeExtra, chunks.map .data ++ .data [] :: later, writes⟩ = some result ∧
        (result.failed = false → result.deferred = false ∧
          readRequest result.sent =
            some (httpLines printerName.name
                (announced (setUpIpp mem printerName.name job).cp job size),
              requestBody printerName job chunks.flatten)) := by
  have hdeferred : ∀ sent : Bytes, (JobSent.mk sent true true).failed = false → False :=
    fun _ hfalse => nomatch hfalse
  obtain ⟨hfilled, _⟩ := setUpIpp_filled mem printerName.name job
  have hipp : bytesAt (setUpIpp mem printerName.name job).mem 0
      (setUpIpp mem printerName.name job).cp =
        encodeIpp job.jobid (jobAttributes printerName.name job) := by
    rw [hfilled.cp]
    exact bytesAt_of_holds hfilled.holds
  unfold sendJob
  dsimp only
  rw [hipp]
  split
  · exact ⟨_, rfl, fun hfalse => (hdeferred _ hfalse).elim⟩
  · split
    · exact ⟨_, rfl, fun hfalse => (hdeferred _ hfalse).elim⟩
    · split
      · exact ⟨_, rfl, fun hfalse => (hdeferred _ hfalse).elim⟩
      · rename_i extra hextra
        obtain ⟨rest, hcopy, hfine⟩ := copyFile_chunks buf hchunks later writes
        rw [hcopy, sendExtra_eq_some hextra]
        refine ⟨_, rfl, fun hrestFine => ?_⟩
        obtain ⟨hdone, hall⟩ := hfine hrestFine
        refine ⟨hdone, ?_⟩
        dsimp only
        rw [hall, setUpHttp_lines printerName (announced_range _ job size)]
        rw [← readRequest_headerLines (httpLines_lines printerName _)
          (requestBody printerName job chunks.flatten)]
        simp [requestBody]

/-- The bytes that are sent decode to the attributes of the job with the job id as the
request id, and the announced length is the number of bytes behind the blank line. -/
def WellFramed (printerName : PrinterName) (job : PrintJob) (file sent : Bytes) : Prop :=
  ∃ lines body,
    readRequest sent = some (lines, body) ∧ announcedLength lines = some (body.length : Int) ∧
      decodeIpp body =
        some (⟨1, 1, opPrintJob, job.jobid, jobAttributes printerName.name job⟩,
          job.extra ++ file)

theorem announcedLength_httpLines (printerName : CString) (length : Int) :
    announcedLength (httpLines printerName length) = some (atol (fmtD length)) := by
  have hpost : (postLine.take 16 == contentLengthText) = false := by decide +kernel
  have hlength : contentLengthText.length = 16 := by decide +kernel
  have htake : (contentLengthText ++ fmtD length).take 16 = contentLengthText := by
    rw [← hlength, List.take_left]
  have hdrop : (contentLengthText ++ fmtD length).drop 16 = fmtD length := by
    rw [← hlength, List.drop_left]
  rw [announcedLength, httpLines, List.find?_cons, hpost]
  dsimp only
  rw [List.find?_cons, htake, beq_self_eq_true]
  dsimp only [Option.map_some]
  rw [hdrop]

theorem jobAttributes_fit {printerName : CString} {job : PrintJob}
    (hfits : (encodeIpp job.jobid (jobAttributes printerName job)).length ≤ ibufsz) :
    ∀ attr ∈ jobAttributes printerName job, attr.Fits := by
  intro attr hmem
  have hencoded : attr.encode.length ≤
      ((jobAttributes printerName job).flatMap Attribute.encode).length := by
    rw [List.flatMap_def]
    exact (List.sublist_flatten_of_mem (List.mem_map_of_mem hmem)).length_le
  have hsize : ibufsz = 512 := rfl
  rw [length_encode] at hencoded
  simp only [encodeIpp, List.length_append] at hfits
  constructor
  · simp only [jobAttributes, List.mem_cons, List.not_mem_nil, or_false] at hmem
    rcases hmem with rfl | rfl | rfl | rfl | rfl | rfl <;> dsimp only <;> decide
  · omega
  · omega

theorem length_requestBody (mem : Nat → Byte) (printerName : PrinterName) (job : PrintJob)
    (file : Bytes) :
    (requestBody printerName job file).length =
      file.length + (setUpIpp mem printerName.name job).cp + job.extra.length := by
  rw [(setUpIpp_filled mem printerName.name job).1.cp, requestBody, List.length_append,
    List.length_append]
  omega

/-- A job whose IPP header fits its buffer, and whose length is a `long`, is sent in a
well-formed request unless a write fails. -/
theorem request_well_framed (mem buf : Nat → Byte) (printerName : PrinterName) (job : PrintJob)
    (hfits : (setUpIpp mem printerName.name job).top ≤ ibufsz) {chunks : List Bytes}
    (hchunks : ∀ chunk ∈ chunks, chunk ≠ [] ∧ chunk.length ≤ iobufsz)
    (hlong : chunks.flatten.length + (setUpIpp mem printerName.name job).cp + job.extra.length <
      2 ^ 63) (later : List Tread) (writev writeExtra : Write) (writes : List Write) :
    ∃ result, sendJob mem buf printerName job chunks.flatten.length
          ⟨writev, writeExtra, chunks.map .data ++ .data [] :: later, writes⟩ = some result ∧
        (result.failed = false →
          result.deferred = false ∧ WellFramed printerName job chunks.flatten result.sent) := by
  obtain ⟨result, hresult, hsent⟩ := sendJob_sent mem buf printerName job hchunks later
    chunks.flatten.length writev writeExtra writes
  refine ⟨result, hresult, fun hfine => ?_⟩
  obtain ⟨hdone, hread⟩ := hsent hfine
  rw [(setUpIpp_filled mem printerName.name job).2] at hfits
  refine ⟨hdone, _, _, hread, ?_, ?_⟩
  · rw [announcedLength_httpLines, length_requestBody mem, announced,
      wrap_of_lt (by omega) (by omega)]
    exact congrArg some (ato_decimal 64 _ (by omega))
  · exact decodeIpp_encodeIpp job.jobid_range (jobAttributes_fit hfits) _

def defaultPrinter : PrinterName where
  name := literal "printer" (by decide +kernel)
  short := by decide +kernel
  line := by
    unfold IsLine
    decide +kernel

def textJob : PrintJob where
  jobid := 7
  flags := 1
  usernm := literal "u" (by decide +kernel)
  jobnm := literal "j" (by decide +kernel)
  jobid_range := by decide

def textCalls : SendCalls :=
  ⟨.wrote 272, .wrote 1, [.data [97, 98], .data [99], .data []], [.wrote 1, .wrote 1, .wrote 1]⟩

theorem request_well_framed_text : ∃ result,
      sendJob (fun _ => 0) (fun _ => 0) defaultPrinter textJob 3 textCalls = some result ∧
        result.failed = false ∧ result.deferred = false ∧
        WellFramed defaultPrinter textJob [97, 98, 99] result.sent := by
  have hfine : (sendJob (fun _ => 0) (fun _ => 0) defaultPrinter textJob 3 textCalls).map
      JobSent.failed = some false := by
    decide +kernel
  obtain ⟨result, hresult, hframed⟩ := @request_well_framed (fun _ => 0) (fun _ => 0)
    defaultPrinter textJob (by decide +kernel) [[97, 98], [99]] (by decide) (by decide +kernel) []
    (.wrote 272) (.wrote 1) [.wrote 1, .wrote 1, .wrote 1]
  have hsent : sendJob (fun _ => 0) (fun _ => 0) defaultPrinter textJob 3 textCalls =
      some result := hresult
  rw [hsent] at hfine
  have hfailed : result.failed = false := Option.some_inj.mp hfine
  exact ⟨result, hsent, hfailed, hframed hfailed⟩

/-! ## A length that is no long -/

theorem copyFile_bytes (buf : Nat → Byte) (byte : Byte) (n : Nat) :
    ∃ result, copyFile buf ((List.replicate n [byte]).map .data ++ [.data []])
        (List.replicate n (.wrote 1)) = some result ∧ result.failed = false := by
  induction n generalizing buf with
  | zero => exact ⟨_, rfl, rfl⟩
  | succ n ih =>
    obtain ⟨rest, hrest, hfine⟩ := ih (fill buf 0 [byte])
    have hwriten := writen_at_once (fill buf 0 [byte]) Nat.one_pos (by decide)
      (List.replicate n (.wrote 1))
    rw [List.replicate_succ, List.replicate_succ, List.map_cons, List.cons_append, copyFile]
    have hnr : (readFile buf (.data [byte])).1 = 1 := rfl
    have hbuf : (readFile buf (.data [byte])).2 = fill buf 0 [byte] := rfl
    have hcount : toSize 1 = 1 := rfl
    have hnw : wrap 32 ((1 : Nat) : Int) = 1 := rfl
    simp only [hnr, hbuf, hcount, hwriten, hnw, hrest]
    exact ⟨_, rfl, hfine⟩

theorem wrap_lt (value : Int) : wrap 64 value < 2 ^ 63 := Int.bmod_lt (by decide)

theorem atoLoop_lt {value : Int} (hvalue : value < 2 ^ 63) (text : Bytes) :
    atoLoop 64 value text < 2 ^ 63 := by
  induction text generalizing value with
  | nil => exact hvalue
  | cons byte text ih =>
    rw [atoLoop]
    split
    · exact ih (wrap_lt _)
    · exact hvalue

theorem atol_lt (text : Bytes) : atol text < 2 ^ 63 := by
  unfold atol ato
  split
  · exact atoLoop_lt (by decide) _
  · exact wrap_lt _
  · exact wrap_lt _

/-- The calls for a text of zeros that is read and written byte by byte. -/
def zerosCalls (n : Nat) : SendCalls where
  writev := .wrote ((setUpHttp defaultPrinter.name
    (announced (setUpIpp (fun _ => 0) defaultPrinter.name textJob).cp textJob n)).length +
      (setUpIpp (fun _ => 0) defaultPrinter.name textJob).cp)
  writeExtra := .wrote 1
  reads := (List.replicate n [0]).map .data ++ [.data []]
  writes := List.replicate n (.wrote 1)

theorem sendJob_zeros (n : Nat) :
    ∃ result, sendJob (fun _ => 0) (fun _ => 0) defaultPrinter textJob n (zerosCalls n) =
      some result ∧ result.failed = false := by
  obtain ⟨rest, hcopy, hfine⟩ := copyFile_bytes (fun _ => 0) 0 n
  have hextra : sendExtra textJob (.wrote 1) = some [8] := rfl
  unfold sendJob
  dsimp only [zerosCalls]
  rw [if_neg (not_not_intro rfl), hextra]
  dsimp only
  rw [hcopy]
  exact ⟨_, rfl, hfine⟩

theorem delivered_zeros (n : Nat) : delivered (zerosCalls n).reads = List.replicate n 0 := by
  dsimp only [zerosCalls]
  induction n with
  | zero => rfl
  | succ n ih =>
    rw [List.replicate_succ, List.replicate_succ, ← ih]
    rfl

theorem zeros_announced (n : Nat) : ∃ result lines body,
      sendJob (fun _ => 0) (fun _ => 0) defaultPrinter textJob n (zerosCalls n) = some result ∧
        result.failed = false ∧ readRequest result.sent = some (lines, body) ∧ n < body.length ∧
        ∃ length, announcedLength lines = some (atol length) := by
  have hchunks : ∀ chunk ∈ List.replicate n [(0 : Byte)], chunk ≠ [] ∧ chunk.length ≤ iobufsz := by
    intro chunk hmem
    rw [List.eq_of_mem_replicate hmem]
    decide
  obtain ⟨result, hresult, hfine⟩ := sendJob_zeros n
  obtain ⟨result', hresult', hsent⟩ := sendJob_sent (fun _ => 0) (fun _ => 0) defaultPrinter textJob
    hchunks [] n (zerosCalls n).writev (.wrote 1) (List.replicate n (.wrote 1))
  obtain rfl : result = result' := Option.some_inj.mp (hresult.symm.trans hresult')
  refine ⟨result, _, _, hresult, hfine, (hsent hfine).2, ?_, _, announcedLength_httpLines _ _⟩
  rw [length_requestBody (fun _ => 0), List.flatten_replicate_singleton, List.length_replicate]
  have hextra : textJob.extra.length = 1 := rfl
  omega

/-- The number that is announced for a file of 2^63 - 1 bytes is not the number of bytes that
are sent. -/
theorem longest_file_misframed : ∃ result lines body,
      (setUpIpp (fun _ => 0) defaultPrinter.name textJob).top ≤ ibufsz ∧
      delivered (zerosCalls (2 ^ 63 - 1)).reads = List.replicate (2 ^ 63 - 1) 0 ∧
      sendJob (fun _ => 0) (fun _ => 0) defaultPrinter textJob (2 ^ 63 - 1)
        (zerosCalls (2 ^ 63 - 1)) = some result ∧
      result.failed = false ∧ readRequest result.sent = some (lines, body) ∧
      announcedLength lines ≠ some (body.length : Int) := by
  obtain ⟨result, lines, body, hresult, hfine, hread, hlong, length, hannounced⟩ :=
    zeros_announced (2 ^ 63 - 1)
  refine ⟨result, lines, body, by decide +kernel, delivered_zeros (2 ^ 63 - 1), hresult, hfine,
    hread, ?_⟩
  intro hsame
  rw [hannounced] at hsame
  have hlt := atol_lt length
  have heq := Option.some_inj.mp hsame
  omega

end ApueFormal.Printer
