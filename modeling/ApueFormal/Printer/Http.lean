import ApueFormal.Printer.Response

/-!
# HTTP responses of the printer

The result of `printer_status` for well-formed responses, each of which arrives in
one read, and what goes wrong when they are cut up in other ways.
-/

namespace ApueFormal.Printer

open Libc Program

def crlf : Bytes := [13, 10]

def IsLine (line : Bytes) : Prop := ∀ byte ∈ line, isEol byte = false

structure HttpResponse where
  version : Bytes
  blanks : Bytes
  code : Bytes
  reason : Bytes
  headers : List Bytes
  body : Bytes
  version_length : version.length = 8
  blanks_blank : ∀ byte ∈ blanks, isSpace byte = true
  code_digits : code ≠ [] ∧ ∀ byte ∈ code, isDigit byte = true
  reason_line : IsLine reason
  headers_lines : ∀ line ∈ headers, line ≠ [] ∧ IsLine line

def headerLines (headers : List Bytes) : Bytes := (headers.map fun line => line ++ crlf).flatten

namespace HttpResponse

def text (response : HttpResponse) : Bytes :=
  response.version ++ (response.blanks ++ (response.code ++ (32 :: (response.reason ++
    (crlf ++ (headerLines response.headers ++ (crlf ++ response.body)))))))

/-- A response has a `Content-Length`, and no earlier line of its header contains
that text. -/
def HasLength (response : HttpResponse) : Prop :=
  ∃ before name gap digits after,
    response.headers = before ++ (name ++ (gap ++ digits)) :: after ∧
    (∀ line ∈ before, Avoids (Matches contentLength) line []) ∧
    (name.length = 15 ∧ Matches contentLength name) ∧ (∀ byte ∈ gap, isSpace byte = true) ∧
    (digits ≠ [] ∧ ∀ byte ∈ digits, isDigit byte = true) ∧ atoi digits = response.body.length

end HttpResponse

/-! ## The text of a response -/

theorem HttpResponse.statusLine (response : HttpResponse) :
    HasStatusLine response.text response.code
      (10 :: (headerLines response.headers ++ (crlf ++ response.body))) :=
  ⟨response.version, response.blanks, 32, response.reason, 13, rfl, response.version_length,
    response.blanks_blank, response.code_digits, rfl, response.reason_line, rfl⟩

/-- A byte that no letter of the pattern stands for ends a match. -/
theorem matches_before {pattern text more : Bytes} {byte : Byte} (hbyte : tolower byte ∉ pattern)
    (hmatches : Matches pattern (text ++ byte :: more)) : Matches pattern text := by
  induction text generalizing pattern with
  | nil =>
    cases pattern with
    | nil => rfl
    | cons char pattern =>
      rw [List.nil_append, matches_cons] at hmatches
      exact absurd (hmatches.1 ▸ List.mem_cons_self) hbyte
  | cons first text ih =>
    cases pattern with
    | nil => rfl
    | cons char pattern =>
      rw [List.cons_append, matches_cons] at hmatches
      rw [matches_cons]
      exact ⟨hmatches.1, ih (fun hmem => hbyte (List.mem_cons_of_mem _ hmem)) hmatches.2⟩

theorem avoids_line {line : Bytes} (hline : Avoids (Matches contentLength) line [])
    (more : Bytes) : Avoids (Matches contentLength) (line ++ crlf) more := by
  rw [avoids_append]
  constructor
  · induction line with
    | nil => trivial
    | cons byte line ih =>
      refine ⟨fun hmatch => hline.1 ?_, ih hline.2⟩
      rw [List.append_nil]
      have hcr : tolower 13 ∉ contentLength := by decide +kernel
      exact matches_before hcr hmatch
  · refine ⟨fun hmatch => ?_, fun hmatch => ?_, trivial⟩
    · rcases head_of_matches hmatch with hhead | hhead <;> cases hhead
    · rcases head_of_matches hmatch with hhead | hhead <;> cases hhead

variable {headers : List Bytes}

theorem avoids_headerLines (hheaders : ∀ line ∈ headers, Avoids (Matches contentLength) line [])
    (more : Bytes) : Avoids (Matches contentLength) (headerLines headers) more := by
  induction headers with
  | nil => trivial
  | cons line headers ih =>
    obtain ⟨hline, hrest⟩ := List.forall_mem_cons.mp hheaders
    exact avoids_append.mpr ⟨avoids_line hline _, ih hrest⟩

/-- The lines behind the length, each with the line end before it. -/
def linesBetween : List Bytes → Bytes
  | [] => []
  | line :: rest => 10 :: (line ++ (13 :: linesBetween rest))

theorem linesBetween_blankLine (headers : List Bytes) (body : Bytes) :
    linesBetween headers ++ (blankLine ++ body) =
      10 :: (headerLines headers ++ (crlf ++ body)) := by
  induction headers with
  | nil => rfl
  | cons line headers ih =>
    rw [linesBetween, List.cons_append, List.append_assoc, List.cons_append, ih]
    simp [headerLines, crlf]

theorem not_blankLine {byte : Byte} (hbyte : byte ≠ 10) (text : Bytes) :
    ¬ (byte :: text).take 3 = blankLine :=
  fun htake => hbyte (List.cons.inj htake).1

theorem avoids_blankLine_text {text : Bytes} (htext : ∀ byte ∈ text, byte ≠ 10) (more : Bytes) :
    Avoids (fun text => text.take 3 = blankLine) text more := by
  induction text with
  | nil => trivial
  | cons byte text ih =>
    obtain ⟨hbyte, hrest⟩ := List.forall_mem_cons.mp htext
    exact ⟨not_blankLine hbyte _, ih hrest⟩

theorem IsLine.ne_eol {line : Bytes} (hline : IsLine line) :
    ∀ byte ∈ line, byte ≠ 10 ∧ byte ≠ 13 := by
  intro byte hmem
  have heol := hline byte hmem
  constructor
  · rintro rfl
    cases heol
  · rintro rfl
    cases heol

theorem avoids_blankLine (hheaders : ∀ line ∈ headers, line ≠ [] ∧ IsLine line) :
    Avoids (fun text => text.take 3 = blankLine) (linesBetween headers) blankLine := by
  induction headers with
  | nil => trivial
  | cons line headers ih =>
    obtain ⟨⟨hne, hline⟩, hrest⟩ := List.forall_mem_cons.mp hheaders
    have hplain : ∀ byte ∈ line, byte ≠ 10 := fun byte hmem => (hline.ne_eol byte hmem).1
    refine ⟨?_, avoids_append.mpr ⟨avoids_blankLine_text hplain _, ?_⟩⟩
    · obtain ⟨first, others, rfl⟩ := List.exists_cons_of_ne_nil hne
      intro htake
      have hsecond := (List.cons.inj (List.cons.inj htake).2).1
      exact (hline.ne_eol first List.mem_cons_self).2 hsecond
    · exact ⟨not_blankLine (by decide) _, ih hrest⟩

variable {response : HttpResponse}

theorem HttpResponse.header (hlength : response.HasLength) :
    ∃ digits, atoi digits = response.body.length ∧
      HasHeader (10 :: (headerLines response.headers ++ (crlf ++ response.body))) digits
        response.body := by
  obtain ⟨before, name, gap, digits, after, hheaders, hbefore, hname, hgap, hdigits, hlen⟩ :=
    hlength
  refine ⟨digits, hlen, linesBetween after ++ (blankLine ++ response.body),
    ⟨10 :: headerLines before, name, gap, 13, ?_, ⟨fun hmatch => ?_, avoids_headerLines hbefore _⟩,
      hname, hgap, hdigits.2, rfl, fun hnil => absurd hnil hdigits.1⟩,
    linesBetween after, rfl, avoids_blankLine fun line hmem => ?_⟩
  · rw [linesBetween_blankLine, hheaders]
    simp [headerLines, crlf]
  · rcases head_of_matches hmatch with hhead | hhead <;> cases hhead
  · apply response.headers_lines
    rw [hheaders]
    exact List.mem_append_right _ (List.mem_cons_of_mem _ hmem)

def goResponse : HttpResponse where
  version := ascii "HTTP/1.1"
  blanks := [32]
  code := ascii "100"
  reason := ascii "Go"
  headers := []
  body := []
  version_length := by decide +kernel
  blanks_blank := List.forall_mem_singleton.mpr rfl
  code_digits := by decide +kernel
  reason_line := by
    unfold IsLine
    decide +kernel
  headers_lines := List.forall_mem_nil _

def okResponse : HttpResponse where
  version := ascii "HTTP/1.1"
  blanks := [32]
  code := ascii "200"
  reason := ascii "OK"
  headers := [ascii "Content-Length: 8"]
  body := [1, 1, 0, 0, 0, 0, 0, 7]
  version_length := by decide +kernel
  blanks_blank := List.forall_mem_singleton.mpr rfl
  code_digits := by decide +kernel
  reason_line := by
    unfold IsLine
    decide +kernel
  headers_lines := by
    unfold IsLine
    decide +kernel

theorem okResponse_hasLength : okResponse.HasLength :=
  ⟨[], ascii "Content-Length:", [32], [56], [], by decide +kernel, List.forall_mem_nil _,
    ⟨by decide +kernel, by decide +kernel⟩, List.forall_mem_singleton.mpr rfl,
    by decide +kernel, by decide +kernel⟩

/-- A read without a status code whose text can be printed as a format. -/
def badResponse : Bytes := ascii "HTTP/1.1 Bad 100%%" ++ [0]

theorem badResponse_logged : Logged badResponse :=
  ⟨⟨ascii "HTTP/1.1", [32], 66, ascii "ad 100%%" ++ [0], by decide +kernel, by decide +kernel,
    List.forall_mem_singleton.mpr rfl, by decide, by decide⟩, by decide +kernel⟩

theorem runs_of_run {program : StatusProg Bool} {state : Channel} {fuel : Nat}
    {success inside : Bool}
    (hrun : (run channel fuel program state).map (fun result =>
      (result.1.toOption, result.2.inside)) = some (some success, inside)) :
    ∃ final, Runs channel program state (.ok success) final ∧ final.inside = inside := by
  obtain ⟨⟨outcome, final⟩, hresult, heq⟩ := Option.map_eq_some_iff.mp hrun
  cases outcome with
  | error fault => cases heq
  | ok value =>
    cases heq
    exact ⟨final, ⟨fuel, hresult⟩, rfl⟩

/-! ## Reads that can be followed -/

/-- The result for a final response: its status code, the IPP status and the IPP
request id. -/
def HttpResponse.Succeeds (response : HttpResponse) (jobid : Int) : Prop :=
  isSuccess response.code ∧ (ippOf response.body).1 ≤ 0xff ∧ (ippOf response.body).2 = jobid

instance (code : Bytes) : Decidable (isInfo code) := inferInstanceAs (Decidable (_ ∧ _))

instance (code : Bytes) : Decidable (isSuccess code) := inferInstanceAs (Decidable (_ ∧ _))

instance (response : HttpResponse) (jobid : Int) : Decidable (response.Succeeds jobid) :=
  inferInstanceAs (Decidable (_ ∧ _))

/-- The second read goes on with the header, and with a part of the body, where the
first one ends: before the `Content-Length`, behind the byte after its number, or
behind the header. -/
def Continues (rest second digits part : Bytes) : Prop :=
  (NoLength rest ∧ HasHeader second digits part) ∨
    (LengthField rest digits [] ∧ HeaderEnd second part) ∨
      (HasHeader rest digits [] ∧ second = part)

/-- The reads of a final response: the first one has the status line.  For a status
that means success it has the whole response, or the second one goes on with enough
of the body. -/
def HttpResponse.Delivered (response : HttpResponse) (reads : List Bytes) : Prop :=
  reads.flatten = response.text ∧ ∃ first more rest, reads = first :: more ∧
    first.length ≤ iobufsz ∧ HasStatusLine first response.code rest ∧
    (isSuccess response.code → ∃ digits, atoi digits = response.body.length ∧
      (HasHeader rest digits response.body ∨ ∃ second later part, more = second :: later ∧
        first.length + second.length ≤ grown first.length iobufsz ∧
        Continues rest second digits part ∧ part <+: response.body ∧
        8 ≤ part.length ∧ response.body.length ≤ first.length + part.length))

theorem HttpResponse.delivered_whole (hlength : isSuccess response.code → response.HasLength)
    (hfits : response.text.length ≤ iobufsz) : response.Delivered [response.text] := by
  refine ⟨List.append_nil _, response.text, [], _, rfl, hfits, response.statusLine, ?_⟩
  intro hcode
  obtain ⟨digits, hlen, hheader⟩ := HttpResponse.header (hlength hcode)
  exact ⟨digits, hlen, .inl hheader⟩

theorem ippOf_of_whole {part body : Bytes} (hpart : part <+: body) (hlong : 8 ≤ part.length) :
    ippOf part = ippOf body := by
  obtain ⟨later, rfl⟩ := hpart
  have hsame : ∀ k, k < 8 → (part ++ later).getD k 0 = part.getD k 0 := by
    intro k hk
    rw [List.getD_eq_getElem?_getD, List.getD_eq_getElem?_getD,
      List.getElem?_append_left (by omega)]
  unfold ippOf
  simp only [hsame 2 (by decide), hsame 3 (by decide), hsame 4 (by decide), hsame 5 (by decide),
    hsame 6 (by decide), hsame 7 (by decide)]

/-- The result for a body: the IPP status and the IPP request id. -/
def printed (body : Bytes) (jobid : Int) : Bool :=
  (ippOf body).2 == jobid && decide ((ippOf body).1 ≤ 0xff)

theorem decide_and_printed (code body : Bytes) (jobid : Int) :
    (decide (isSuccess code) && printed body jobid) =
      decide (isSuccess code ∧ (ippOf body).1 ≤ 0xff ∧ (ippOf body).2 = jobid) := by
  rw [Bool.eq_iff_iff, decide_eq_true_iff, printed, Bool.and_eq_true_iff, Bool.and_eq_true_iff,
    decide_eq_true_iff, beq_iff_eq, decide_eq_true_iff]
  exact and_congr_right fun _ => and_comm

theorem ipp_turn {body part digits : Bytes} {jobid : Int} {state : Channel} {vars : Cursor}
    {start : Nat} (hpart : part <+: body) (hlong : 8 ≤ part.length)
    (hstart : Holds state.mem start part) (hinside : start + part.length ≤ state.datsz)
    (hlen : atoi digits ≤ (state.datsz : Int) - start) (hdatsz : vars.datsz = state.datsz) :
    ∃ success final, Runs channel
      ((ippStatus jobid (vars.at start) (atoi digits)).bind
        fun success => Prog.resume (readResponse jobid) .ret (.inr success)) state
      (.ok success) final ∧ success = printed body jobid := by
  have hgoal := forward_runs fun (success : Bool) (_ : Channel) => success = printed body jobid
  refine hgoal.ippStatus hstart hinside hlong hlen hdatsz ⟨_, _, .ret _ _, ?_⟩
  rw [ippOf_of_whole hpart hlong, printed]

theorem header_turn {body digits : Bytes} {jobid : Int} (hbody : 8 ≤ body.length)
    (hlen : atoi digits = body.length) {state : Channel}
    {first rest : Bytes} {more : List Bytes} {pos : Nat}
    (hhead : AtHeader state pos first.length rest) (hchunks : state.chunks = more)
    (hdelivered : HasHeader rest digits body ∨
      ∃ second later part, more = second :: later ∧
        first.length + second.length ≤ grown first.length iobufsz ∧
        Continues rest second digits part ∧ part <+: body ∧
        8 ≤ part.length ∧ body.length ≤ first.length + part.length) :
    ∃ success final, Runs channel
      ((checkResponse jobid ⟨pos, pos, first.length, iobufsz⟩).bind
        fun success => Prog.resume (readResponse jobid) .ret (.inr success)) state
      (.ok success) final ∧ success = printed body jobid := by
  have hgoal := forward_runs fun (success : Bool) (_ : Channel) =>
    success = printed body jobid
  have hsize : iobufsz = 8192 := rfl
  obtain ⟨hrest, hend, hfirst, hdatsz, hbufsz⟩ := id hhead
  rcases hdelivered with ⟨tail, hfield, htail⟩ |
    ⟨second, later, part, rfl, hroom, hcontinues, hpart, hlong, henough⟩
  · refine hgoal.checkResponse_field hhead hfield fun mem start hstart hsum => ?_
    refine hgoal.afterLength_here htail hstart (by dsimp only; omega) hdatsz.symm
      fun start' hstart' hsum' => ?_
    rw [getMoreIf_false _ (by dsimp only [Cursor.at, Cursor.fresh]; omega), Prog.ret_bind, orOut]
    exact ipp_turn (List.prefix_refl _) hbody hstart' (by dsimp only; omega)
      (by rw [hlen]; dsimp only; omega) hdatsz.symm
  · have hgrown : grown first.length iobufsz ≤ 2 * iobufsz := by
      unfold grown
      split <;> omega
    rcases hcontinues with
      ⟨hnone, tail, hfield, htail⟩ | ⟨hfield, htail⟩ | ⟨⟨tail, hfield, htail⟩, rfl⟩
    · -- The first read ends before the `Content-Length`.
      rw [checkResponse_eq, Prog.bind_assoc]
      refine hgoal.findLength_more (hnone.cons not_c_nul) hrest hdatsz.symm (by omega) hchunks
        hbufsz.symm (by rwa [hdatsz]) hfield fun after vars start hvars hafter hstart hsum => ?_
      refine hgoal.afterLength_here htail hstart (by omega) hvars fun start' hstart' hsum' => ?_
      rw [getMoreIf_false _ (by dsimp only [Cursor.at]; omega), Prog.ret_bind, orOut]
      exact ipp_turn hpart hlong hstart' (by omega) (by rw [hlen]; omega) hvars
    · -- It ends behind the number.
      refine hgoal.checkResponse_field hhead hfield fun mem start hstart hsum => ?_
      obtain rfl : start = first.length := hsum
      rw [List.length_cons] at hend
      refine @Forward.afterLength_more _ _ { state with mem }
        ((Cursor.fresh first.length).at first.length) _ _ _ _ _ hgoal (Nat.le_refl _)
        (by dsimp only [Cursor.at, Cursor.fresh]; omega) hchunks hbufsz.symm hroom htail _
        fun after start' hafter hstart' hsum' => ?_
      have hvars := hafter.datsz
      dsimp only [Cursor.at, Cursor.fresh] at hvars hsum'
      exact ipp_turn hpart hlong hstart' (by omega) (by rw [hlen]; omega) hafter.datsz.symm
    · -- It ends with the header.
      refine hgoal.checkResponse_field hhead hfield fun mem start hstart hsum => ?_
      refine hgoal.afterLength_here htail hstart (by dsimp only; omega) hdatsz.symm
        fun start' hstart' hsum' => ?_
      rw [List.length_nil] at hsum'
      have hstart : start' = first.length := by omega
      subst hstart
      rw [getMoreIf_true _ (by dsimp only [Cursor.at, Cursor.fresh]; omega)]
      refine hgoal.getMore_chunk hchunks (by omega) hbufsz.symm hroom fun after hafter => ?_
      have hvars := hafter.datsz
      dsimp only [Cursor.at, Cursor.fresh] at hvars
      refine @ipp_turn body second digits jobid after
        (((Cursor.fresh first.length).at first.length).refilled second.length)
        first.length hpart hlong ?_ (by omega) (by rw [hlen]; omega) hafter.datsz.symm
      rw [hafter.mem]
      exact holds_fill ..

theorem final_turn (jobid : Int) {code body : Bytes} (hcode : ¬ isInfo code)
    (hbody : 8 ≤ body.length) {state : Channel} {first rest : Bytes} {more : List Bytes}
    (hchunks : state.chunks = first :: more) (hfits : first.length ≤ iobufsz)
    (hline : HasStatusLine first code rest) (hbufsz : state.bufsz = iobufsz)
    (hheader : isSuccess code → ∃ digits, atoi digits = body.length ∧
      (HasHeader rest digits body ∨ ∃ second later part, more = second :: later ∧
        first.length + second.length ≤ grown first.length iobufsz ∧
        Continues rest second digits part ∧ part <+: body ∧
        8 ≤ part.length ∧ body.length ≤ first.length + part.length)) :
    ∃ success final, Runs channel (.loop (readResponse jobid) iobufsz .ret) state
      (.ok success) final ∧ success = (decide (isSuccess code) && printed body jobid) := by
  have hgoal := forward_runs fun (success : Bool) (_ : Channel) =>
    success = (decide (isSuccess code) && printed body jobid)
  refine hgoal.turn _ _ _ _
    (hgoal.readResponse hchunks hline.length_pos hfits hbufsz fun mem hmem => ?_)
  refine hgoal.response_line hline hmem ?_ ?_ ?_
  · exact fun hinfo => absurd hinfo hcode
  · intro _ hrefused mem
    refine hgoal.op_any fun _ _ => ⟨_, _, .ret _ _, ?_⟩
    rw [decide_eq_false hrefused, Bool.false_and]
  · intro hsuccess mem pos hhead
    obtain ⟨digits, hlen, hways⟩ := hheader hsuccess
    rw [decide_eq_true hsuccess, Bool.true_and]
    exact header_turn hbody hlen hhead rfl hways

theorem HttpResponse.final_turn {response : HttpResponse} (jobid : Int)
    (hcode : ¬ isInfo response.code) (hbody : 8 ≤ response.body.length) {state : Channel}
    (hdelivered : response.Delivered state.chunks) (hbufsz : state.bufsz = iobufsz) :
    ∃ success final, Runs channel (.loop (readResponse jobid) iobufsz .ret) state
      (.ok success) final ∧ success = decide (response.Succeeds jobid) := by
  obtain ⟨_, first, more, rest, hchunks, hfits, hline, hheader⟩ := hdelivered
  obtain ⟨success, final, hruns, hsuccess⟩ :=
    Printer.final_turn jobid hcode hbody hchunks hfits hline hbufsz hheader
  refine ⟨success, final, hruns, hsuccess.trans ?_⟩
  rw [decide_and_printed]
  rfl

/-- Some responses that announce others and a final one that can be followed:
`printer_status` returns 1 exactly for the status, IPP status and request id of a
printed job. -/
theorem printerStatus_delivered (jobid : Int) (mem : Nat → Byte) (ending : Int)
    {infos : List HttpResponse} {response : HttpResponse} {reads : List Bytes}
    (hinfos : ∀ info ∈ infos, isInfo info.code ∧ info.text.length ≤ iobufsz)
    (hcode : ¬ isInfo response.code) (hbody : 8 ≤ response.body.length)
    (hdelivered : response.Delivered reads) :
    ∃ final, Runs channel (printerStatus jobid)
      (.start mem (infos.map HttpResponse.text ++ reads) ending)
      (.ok (decide (response.Succeeds jobid))) final := by
  suffices hloop : ∀ state : Channel, state.chunks = infos.map HttpResponse.text ++ reads →
      state.bufsz = iobufsz →
      ∃ success final, Runs channel (.loop (readResponse jobid) iobufsz .ret) state
        (.ok success) final ∧ success = decide (response.Succeeds jobid) by
    obtain ⟨_, final, hruns, rfl⟩ := hloop
      (.start mem (infos.map HttpResponse.text ++ reads) ending) rfl rfl
    exact ⟨final, hruns⟩
  induction infos with
  | nil =>
    intro state hchunks hbufsz
    refine HttpResponse.final_turn jobid hcode hbody ?_ hbufsz
    rw [hchunks]
    exact hdelivered
  | cons info infos ih =>
    intro state hchunks hbufsz
    have hgoal := forward_runs fun (success : Bool) (_ : Channel) =>
      success = decide (response.Succeeds jobid)
    obtain ⟨⟨hinfo, hfit⟩, hrest⟩ := List.forall_mem_cons.mp hinfos
    refine hgoal.turn _ _ _ _
      (hgoal.readResponse hchunks info.statusLine.length_pos hfit hbufsz fun mem hmem => ?_)
    refine hgoal.response_line info.statusLine hmem ?_ ?_ ?_
    · exact fun _ mem => ih hrest _ rfl hbufsz
    · exact fun hnot => absurd hinfo hnot
    · exact fun hsuccess => absurd hsuccess (not_isSuccess_of_isInfo hinfo)

theorem printerStatus_delivered_sample : ∃ final, Runs channel (printerStatus 7)
      (.start (fun _ => 0) ([goResponse].map HttpResponse.text ++ [okResponse.text]) 0)
      (.ok (decide (okResponse.Succeeds 7))) final :=
  printerStatus_delivered 7 (fun _ => 0) 0
    (List.forall_mem_singleton.mpr ⟨by decide +kernel, by decide +kernel⟩) (by decide +kernel)
    (by decide) (HttpResponse.delivered_whole (fun _ => okResponse_hasLength) (by decide +kernel))

/-- When both responses arrive in one read, the second one is lost. -/
theorem joined_responses_fail : okResponse.Succeeds 7 ∧ ∃ final, Runs channel (printerStatus 7)
        (.start (fun _ => 0) [goResponse.text ++ okResponse.text] 0) (.ok false) final := by
  refine ⟨by decide +kernel, ?_⟩
  obtain ⟨final, hruns, _⟩ := @runs_of_run (printerStatus 7)
    (.start (fun _ => 0) [goResponse.text ++ okResponse.text] 0) 400 false true (by decide +kernel)
  exact ⟨final, hruns⟩

end ApueFormal.Printer
