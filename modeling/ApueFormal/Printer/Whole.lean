import ApueFormal.Printer.Http

/-!
# A response in one piece

The decision of `printer_status` on a final response that arrives completely in one read,
with any header lines around its `Content-Length`.
-/

namespace ApueFormal.Printer

open Libc Program

/-- A response with a `Content-Length` whose name does not occur in an earlier header line. -/
structure WholeResponse where
  version : Bytes
  blanks : Bytes
  code : Bytes
  /-- The blank behind the code and the reason phrase. -/
  reason : Bytes
  before : List Bytes
  name : Bytes
  gap : Bytes
  digits : Bytes
  /-- What follows the number in its line. -/
  extra : Bytes
  after : List Bytes
  body : Bytes
  version_length : version.length = 8
  blanks_blank : ∀ byte ∈ blanks, isSpace byte = true
  code_digits : code.length = 3 ∧ ∀ byte ∈ code, isDigit byte = true
  reason_line : IsLine reason
  reason_head : ∀ byte ∈ reason.head?, isDigit byte = false
  before_lines : ∀ line ∈ before, (line ≠ [] ∧ IsLine line) ∧ Avoids (Matches contentLength) line []
  name_matches : name.length = 15 ∧ Matches contentLength name
  gap_blank : ∀ byte ∈ gap, isSpace byte = true ∧ isEol byte = false
  digits_digits : digits ≠ [] ∧ ∀ byte ∈ digits, isDigit byte = true
  extra_line : IsLine extra
  extra_head : ∀ byte ∈ extra.head?, isDigit byte = false
  after_lines : ∀ line ∈ after, line ≠ [] ∧ IsLine line
  body_length : atoi digits = body.length

namespace WholeResponse

/-- The line with the length, the lines behind it and the body. -/
def fromLength (response : WholeResponse) : Bytes :=
  response.name ++ (response.gap ++ (response.digits ++ (response.extra ++
    (crlf ++ (headerLines response.after ++ (crlf ++ response.body))))))

def text (response : WholeResponse) : Bytes :=
  response.version ++ (response.blanks ++ (response.code ++ (response.reason ++
    (crlf ++ (headerLines response.before ++ response.fromLength)))))

/-- The code, the IPP status and the IPP request id of a printed job. -/
def Succeeds (response : WholeResponse) (jobid : Int) : Prop :=
  (200 ≤ atoi response.code ∧ atoi response.code ≤ 299) ∧ (ippOf response.body).1 ≤ 0x00ff ∧
    (ippOf response.body).2 = jobid

instance (response : WholeResponse) (jobid : Int) : Decidable (response.Succeeds jobid) :=
  inferInstanceAs (Decidable (_ ∧ _))

def fromHeader (response : WholeResponse) : Bytes :=
  headerLines response.before ++ response.fromLength

variable (response : WholeResponse)

theorem statusLine :
    ∃ rest, HasStatusLine response.text response.code rest ∧
      (rest = response.fromHeader ∨ rest = 10 :: response.fromHeader) := by
  have hcode : response.code ≠ [] ∧ ∀ byte ∈ response.code, isDigit byte = true := by
    refine ⟨fun hnil => ?_, response.code_digits.2⟩
    have hlength := response.code_digits.1
    rw [hnil] at hlength
    cases hlength
  have hline := response.reason_line
  have hhead := response.reason_head
  cases hreason : response.reason with
  | nil =>
    refine ⟨_, ⟨response.version, response.blanks, 13, [], 10, ?_, response.version_length,
      response.blanks_blank, hcode, rfl, List.forall_mem_nil _, rfl⟩, .inl rfl⟩
    rw [text, hreason]
    rfl
  | cons mark reason =>
    rw [hreason] at hline hhead
    refine ⟨_, ⟨response.version, response.blanks, mark, reason, 13, ?_, response.version_length,
      response.blanks_blank, hcode, hhead mark rfl, (List.forall_mem_cons.mp hline).2, rfl⟩,
      .inr rfl⟩
    rw [text, hreason]
    rfl

theorem headerEnd {extra : Bytes} (hextra : IsLine extra) :
    HeaderEnd (extra ++ (13 :: 10 :: (headerLines response.after ++ (crlf ++ response.body))))
      response.body := by
  have hplain : ∀ byte ∈ extra ++ [13], byte ≠ 10 := by
    intro byte hmem
    rcases List.mem_append.mp hmem with hbyte | hbyte
    · exact (hextra.ne_eol byte hbyte).1
    · rw [List.mem_singleton.mp hbyte]
      decide
  refine ⟨extra ++ [13] ++ linesBetween response.after, ?_, ?_⟩
  · rw [← linesBetween_blankLine]
    simp
  · exact avoids_append.mpr ⟨avoids_blankLine_text hplain _, avoids_blankLine response.after_lines⟩

theorem header : HasHeader response.fromHeader response.digits response.body := by
  have hbefore : Avoids (Matches contentLength) (headerLines response.before) response.name :=
    avoids_headerLines (fun line hmem => (response.before_lines line hmem).2) _
  have hgap : ∀ byte ∈ response.gap, isSpace byte = true :=
    fun byte hmem => (response.gap_blank byte hmem).1
  have hnil : response.digits = [] → ∀ mark : Byte, isSpace mark = false :=
    fun hnil => absurd hnil response.digits_digits.1
  have hline := response.extra_line
  have hhead := response.extra_head
  cases hextra : response.extra with
  | nil =>
    refine ⟨10 :: (headerLines response.after ++ (crlf ++ response.body)),
      ⟨headerLines response.before, response.name, response.gap, 13, ?_, hbefore,
        response.name_matches, hgap, response.digits_digits.2, rfl, fun h => hnil h 13⟩, ?_⟩
    · rw [fromHeader, fromLength, hextra]
      rfl
    · rw [← linesBetween_blankLine]
      exact ⟨_, rfl, avoids_blankLine response.after_lines⟩
  | cons mark extra =>
    rw [hextra] at hline hhead
    refine ⟨extra ++ (13 :: 10 :: (headerLines response.after ++ (crlf ++ response.body))),
      ⟨headerLines response.before, response.name, response.gap, mark, ?_, hbefore,
        response.name_matches, hgap, response.digits_digits.2, hhead mark rfl,
        fun h => hnil h mark⟩, response.headerEnd (List.forall_mem_cons.mp hline).2⟩
    rw [fromHeader, fromLength, hextra]
    rfl

theorem header_lf : HasHeader (10 :: response.fromHeader) response.digits response.body := by
  obtain ⟨tail, hfield, htail⟩ := response.header
  exact ⟨tail, hfield.cons (by decide), htail⟩

end WholeResponse

/-- A final response of at most IOBUFSZ - 1 bytes that arrives in one read: `printer_status`
ends, and returns 1 exactly for the code, the IPP status and the request id of the job. -/
theorem printerStatus_whole (jobid : Int) (mem : Nat → Byte) (ending : Int)
    (response : WholeResponse) (hfinal : ¬ isInfo response.code) (hbody : 8 ≤ response.body.length)
    (hfits : response.text.length ≤ iobufsz - 1) :
    ∃ final, Runs channel (printerStatus jobid) (.start mem [response.text] ending)
      (.ok (decide (response.Succeeds jobid))) final := by
  obtain ⟨rest, hline, hrest⟩ := response.statusLine
  have hheader : HasHeader rest response.digits response.body := by
    rcases hrest with rfl | rfl
    · exact response.header
    · exact response.header_lf
  obtain ⟨success, final, hruns, rfl⟩ := @final_turn jobid response.code response.body hfinal hbody
    (.start mem [response.text] ending) response.text rest [] rfl (by omega) hline rfl
    (fun _ => ⟨response.digits, response.body_length, .inl hheader⟩)
  rw [decide_and_printed] at hruns
  exact ⟨final, hruns⟩

def wholeOk : WholeResponse where
  version := ascii "HTTP/1.1"
  blanks := [32]
  code := ascii "200"
  reason := ascii " OK"
  before := [ascii "Cache-Control: no-cache", ascii "Content-Type: application/ipp"]
  name := ascii "content-length:"
  gap := [32]
  digits := ascii "08"
  extra := [32]
  after := [ascii "Connection: close"]
  body := [1, 1, 0, 1, 0, 0, 0, 7]
  version_length := goResponse.version_length
  blanks_blank := by decide +kernel
  code_digits := by decide +kernel
  reason_line := by
    unfold IsLine
    decide +kernel
  reason_head := by decide +kernel
  before_lines := by
    unfold IsLine
    decide +kernel
  name_matches := ⟨by decide +kernel, by decide +kernel⟩
  gap_blank := by decide +kernel
  digits_digits := by decide +kernel
  extra_line := by
    unfold IsLine
    decide +kernel
  extra_head := by decide +kernel
  after_lines := by
    unfold IsLine
    decide +kernel
  body_length := by decide +kernel

theorem printerStatus_whole_ok : wholeOk.Succeeds 7 ∧
      ∃ final, Runs channel (printerStatus 7) (.start (fun _ => 0) [wholeOk.text] 0)
        (.ok (decide (wholeOk.Succeeds 7))) final :=
  ⟨by decide +kernel, printerStatus_whole 7 (fun _ => 0) 0 wholeOk
    (by decide +kernel) (by decide) (by decide +kernel)⟩

end ApueFormal.Printer
