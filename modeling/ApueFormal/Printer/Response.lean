import ApueFormal.Printer.Parse

/-!
# Responses that arrive whole

A read is complete when it holds all that `printer_status` looks for before it
asks for more data.  On complete reads the program stays inside the data and stops.
-/

namespace ApueFormal.Printer

open Libc Program

/-- Some data begin with eight bytes and blanks, and then with no digit. -/
def NoStatus (data : Bytes) : Prop :=
  ∃ version gap mark rest, data = version ++ (gap ++ mark :: rest) ∧ version.length = 8 ∧
    (∀ byte ∈ gap, isSpace byte = true) ∧ isSpace mark = false ∧ isDigit mark = false

/-- Some data without a status code can be printed as a format. -/
structure Logged (data : Bytes) : Prop where
  noStatus : NoStatus data
  format : formatEnds false data = true

/-- Some data begin with a line that has a status code. -/
def HasStatusLine (data code rest : Bytes) : Prop :=
  ∃ version gap mark reason eol,
    data = version ++ (gap ++ (code ++ (mark :: (reason ++ eol :: rest)))) ∧
    version.length = 8 ∧ (∀ byte ∈ gap, isSpace byte = true) ∧
    (code ≠ [] ∧ ∀ byte ∈ code, isDigit byte = true) ∧ isDigit mark = false ∧
    (∀ byte ∈ reason, isEol byte = false) ∧ isEol eol = true

/-- A text with a `Content-Length`: the digits of its number, and what follows the
byte behind them. -/
def LengthField (text digits tail : Bytes) : Prop :=
  ∃ before name gap mark, text = before ++ (name ++ (gap ++ (digits ++ mark :: tail))) ∧
    Avoids (Matches contentLength) before name ∧
    (name.length = 15 ∧ Matches contentLength name) ∧ (∀ byte ∈ gap, isSpace byte = true) ∧
    (∀ byte ∈ digits, isDigit byte = true) ∧ isDigit mark = false ∧
    (digits = [] → isSpace mark = false)

/-- A text with no `Content-Length` and without the beginning of one at its end. -/
def NoLength (text : Bytes) : Prop := Avoids (Begins contentLength) text []

/-- A header ends in this text, and a body follows. -/
def HeaderEnd (text body : Bytes) : Prop :=
  ∃ between, text = between ++ (blankLine ++ body) ∧
    Avoids (fun text => text.take 3 = blankLine) between blankLine

/-- What follows a status line is a header with a `Content-Length` and a body. -/
def HasHeader (rest digits body : Bytes) : Prop :=
  ∃ tail, LengthField rest digits tail ∧ HeaderEnd tail body

def isInfo (code : Bytes) : Prop := 100 ≤ atoi code ∧ atoi code ≤ 199

def isSuccess (code : Bytes) : Prop := 200 ≤ atoi code ∧ atoi code ≤ 299

/-- The fields `status` and `request_id` at the start of a body. -/
def ippOf (body : Bytes) : Nat × Int :=
  (256 * (body.getD 2 0).toNat + (body.getD 3 0).toNat,
    wrap 32 (65536 * (256 * (body.getD 4 0).toNat + (body.getD 5 0).toNat : Nat) +
      (256 * (body.getD 6 0).toNat + (body.getD 7 0).toNat : Nat)))

variable {text : Bytes}

theorem Holds.getD {mem : Nat → Byte} {pos : Nat} (hholds : Holds mem pos text) {k : Nat}
    (hk : k < text.length) : mem (pos + k) = text.getD k 0 := by
  induction text generalizing pos k with
  | nil => exact absurd hk (Nat.not_lt_zero k)
  | cons byte rest ih =>
    cases k with
    | zero => exact hholds.1
    | succ k =>
      rw [Nat.add_comm k 1, ← Nat.add_assoc]
      rw [ih hholds.2 (Nat.lt_of_succ_lt_succ hk), Nat.add_comm 1 k]
      rfl

theorem length_blankLine : blankLine.length = 3 := rfl

def grown (off bufsz : Nat) : Nat := if off ≥ bufsz then bufsz + iobufsz else bufsz

def Cursor.refilled (vars : Cursor) (count : Nat) : Cursor :=
  ⟨vars.i, vars.i, vars.datsz + (vars.i + count), grown vars.i vars.bufsz⟩

structure Refilled (state : Channel) (vars : Cursor) (chunk : Bytes) (rest : List Bytes)
    (after : Channel) : Prop where
  mem : after.mem = fill state.mem vars.i chunk
  chunks : after.chunks = rest
  datsz : after.datsz = vars.datsz + (vars.i + chunk.length)
  bufsz : after.bufsz = grown vars.i vars.bufsz

def Cursor.fresh (size : Nat) : Cursor := ⟨0, 0, size, iobufsz⟩

/-- A read at the start of the buffer has brought some data. -/
structure Received (state : Channel) (data : Bytes) : Prop where
  holds : Holds state.mem 0 data
  datsz : state.datsz = data.length
  fits : data.length ≤ iobufsz
  bufsz : state.bufsz = iobufsz

/-- The header of a response follows in the first read, behind the NUL that ends its
status line. -/
structure AtHeader (state : Channel) (pos size : Nat) (text : Bytes) : Prop where
  holds : Holds state.mem pos (0 :: text)
  ends : pos + (0 :: text).length = size
  fits : size ≤ iobufsz
  datsz : state.datsz = size
  bufsz : state.bufsz = iobufsz

theorem headerEnd_or_avoids (text : Bytes) :
    (∃ body, HeaderEnd text body) ∨ Avoids (fun text => text.take 3 = blankLine) text [] := by
  induction text with
  | nil => exact .inr trivial
  | cons byte text ih =>
    by_cases hhere : (byte :: text).take 3 = blankLine
    · refine .inl ⟨(byte :: text).drop 3, [], ?_, trivial⟩
      rw [List.nil_append, ← hhere, List.take_append_drop]
    · rcases ih with ⟨body, between, rfl, hbetween⟩ | hnone
      · refine .inl ⟨body, byte :: between, rfl, fun htake => hhere ?_, hbetween⟩
        rw [← List.append_assoc, ← List.cons_append, List.take_append_of_le_length]
        · exact htake
        · rw [List.length_cons, List.length_append, length_blankLine]
          omega
      · refine .inr ⟨?_, hnone⟩
        rwa [List.append_nil]

theorem not_c_nul : ¬ ((0 : Byte) = 67 ∨ (0 : Byte) = 99) := by decide

theorem not_isSuccess_of_isInfo {code : Bytes} (hinfo : isInfo code) : ¬ isSuccess code := by
  rintro ⟨hlow, _⟩
  have hhigh := hinfo.2
  omega

theorem LengthField.cons {digits tail : Bytes} (hfield : LengthField text digits tail) {byte : Byte}
    (hbyte : ¬ (byte = 67 ∨ byte = 99)) : LengthField (byte :: text) digits tail := by
  obtain ⟨before, name, gap, mark, rfl, hbefore, hrest⟩ := hfield
  refine ⟨byte :: before, name, gap, mark, rfl, ⟨fun hmatches => hbyte ?_, hbefore⟩, hrest⟩
  exact (head_of_matches hmatches).imp Option.some.inj Option.some.inj

theorem NoLength.cons (hnone : NoLength text) {byte : Byte} (hbyte : ¬ (byte = 67 ∨ byte = 99)) :
    NoLength (byte :: text) :=
  ⟨fun hbegins => hbyte (head_of_begins hbegins), hnone⟩

/-- What follows the search for `Content-Length`. -/
def afterLength (jobid : Int) (vars : Cursor) (len : Int) : StatusProg Bool :=
  (getMoreIf (vars.i ≥ vars.datsz) vars).bind (orOut fun vars =>
    (findEnd vars).bind (orOut fun vars => ippStatus jobid vars len))

theorem checkResponse_eq (jobid : Int) (pos size : Nat) :
    checkResponse jobid ⟨pos, pos, size, iobufsz⟩ = (findLength ((Cursor.fresh size).at pos)).bind
      (orOut fun (vars, len) => afterLength jobid vars len) := rfl

theorem getMoreIf_true (vars : Cursor) {need : Prop} [Decidable need] (hneed : need) :
    getMoreIf (decide need) vars = getMore vars := by
  rw [decide_eq_true hneed]
  rfl

namespace Forward

variable {α : Type} {goal : StatusProg α → Channel → Prop} {state : Channel} {vars : Cursor}
  {pos bufsz : Nat} {digits tail chunk body : Bytes} {rest : List Bytes} {jobid len : Int}
  (hgoal : Forward goal)

include hgoal

protected theorem response_noStatus {data : Bytes} (hnone : NoStatus data)
    (hreceived : Received state data) {datsz : Nat} {next : Nat ⊕ Bool → StatusProg α}
    (hnext : goal (logMsg.bind fun _ => next (.inl bufsz)) state) :
    goal ((response jobid bufsz datsz).bind next) state := by
  obtain ⟨version, gap, mark, rest, rfl, hversion, hgap, hspace, hdigit⟩ := hnone
  obtain ⟨hdata, hdatsz, _, _⟩ := hreceived
  rw [holds_append, holds_append, hversion, Nat.zero_add] at hdata
  simp only [List.length_append, hversion, List.length_cons] at hdatsz
  obtain ⟨_, hgapText, hmark, _⟩ := hdata
  unfold response
  simp only [Prog.bind_assoc]
  refine hgoal.skip hgapText hgap (by rwa [hmark]) (by omega) ?_
  refine hgoal.skip (show Holds state.mem _ [] from trivial) (List.forall_mem_nil _) ?_ ?_ ?_
  · rwa [List.length_nil, Nat.add_zero, hmark]
  · simp only [List.length_nil]
    omega
  · rw [List.length_nil, Nat.add_zero, if_pos rfl, Prog.bind_assoc]
    exact hnext

protected theorem response_logged {data : Bytes} (hlogged : Logged data)
    (hreceived : Received state data) {datsz : Nat} {next : Nat ⊕ Bool → StatusProg α}
    (hnext : goal (next (.inl bufsz)) state) :
    goal ((response jobid bufsz datsz).bind next) state :=
  hgoal.response_noStatus hlogged.noStatus hreceived
    (hgoal.log_from hreceived.holds hlogged.format (by rw [hreceived.datsz]; omega) hnext)

protected theorem response_line {data code rest : Bytes} (hline : HasStatusLine data code rest)
    (hreceived : Received state data) {next : Nat ⊕ Bool → StatusProg α}
    (hinfo : isInfo code → ∀ mem, goal (next (.inl iobufsz)) { state with mem })
    (hrefused : ¬ isInfo code → ¬ isSuccess code → ∀ mem,
      goal ((store data.length 0).bind fun _ => next (.inr false)) { state with mem })
    (hsuccess : isSuccess code → ∀ mem pos, AtHeader { state with mem } pos data.length rest →
      goal ((checkResponse jobid ⟨pos, pos, data.length, iobufsz⟩).bind fun success =>
        next (.inr success)) { state with mem }) :
    goal ((response jobid iobufsz data.length).bind next) state := by
  obtain ⟨version, gap, mark, reason, eol, rfl, hversion, hgap, hcode, hmark, hreason, heol⟩ :=
    hline
  obtain ⟨hdata, hdatsz, hfits, hbufsz⟩ := hreceived
  simp only [holds_append, Holds, hversion, Nat.zero_add] at hdata
  obtain ⟨_, hgapText, hcodeText, hmarkText, hreasonText, heolText, hrestText⟩ := hdata
  generalize hlength : (version ++ (gap ++ (code ++ (mark :: (reason ++ eol :: rest))))).length =
    length at *
  simp only [List.length_append, List.length_cons, hversion] at hlength
  obtain ⟨first, others, rfl⟩ := List.exists_cons_of_ne_nil hcode.1
  have hmore : 8 + gap.length + (first :: others).length ≠ 8 + gap.length := by
    rw [List.length_cons]
    omega
  unfold response
  simp only [Prog.bind_assoc]
  refine hgoal.skip hgapText hgap ?_ (by omega) ?_
  · rw [hcodeText.1]
    exact isSpace_of_isDigit (hcode.2 first List.mem_cons_self)
  refine hgoal.skip hcodeText hcode.2 (by rwa [hmarkText]) (by omega) ?_
  rw [if_neg hmore, Prog.bind_assoc]
  refine hgoal.store (by omega) ?_
  rw [Prog.bind_assoc]
  refine hgoal.skip (hreasonText.fill_outside (.inl (Nat.le_refl _))) ?_ ?_
    (by dsimp only; omega) ?_
  · intro byte hmem
    rw [hreason byte hmem]
    rfl
  · dsimp only
    rw [fill_of_ne _ (by omega), heolText, heol]
    rfl
  rw [Prog.bind_assoc]
  refine hgoal.store (by dsimp only; omega) ?_
  rw [Prog.bind_assoc]
  refine hgoal.digitsAt ((hcodeText.fill_outside (.inr (Nat.le_refl _))).fill_outside
    (.inr ?_)) hcode.2 ?_ (by dsimp only; omega) ?_
  · omega
  · dsimp only
    rw [fill_of_ne _ (by omega), fill_self]
    rfl
  split
  · rename_i hcode'
    exact hinfo hcode' _
  · rename_i hnot
    split
    · rename_i hbad
      rw [Prog.bind_assoc]
      exact hrefused hnot hbad _
    · rename_i hgood
      rw [Prog.bind_assoc]
      refine hsuccess (not_not.mp hgood) _ _
        ⟨⟨fill_self .., ?_⟩, by change _ + (rest.length + 1) = _; omega, hfits, hdatsz, hbufsz⟩
      refine (hrestText.fill_outside (.inl ?_)).fill_outside (.inl (Nat.le_refl _))
      rw [List.length_singleton]
      omega

/-- The buffer grows when it is full, and then more data are read. -/
protected theorem readmore {off : Nat} {next : Option Nat × Nat → StatusProg α}
    (hnext : ∀ size, (bufsz = state.bufsz → size = grown off bufsz) →
      goal ((tread off (grown off bufsz - off)).bind fun nr =>
        next (if nr > 0 then (some (off + nr.toNat), grown off bufsz)
          else (none, grown off bufsz))) { state with bufsz := size }) :
    goal ((readmore off bufsz).bind next) state := by
  unfold readmore
  unfold grown at hnext
  rw [Prog.bind_assoc]
  split at hnext
  · rename_i hfull
    rw [if_pos hfull, Prog.bind_assoc]
    exact hgoal.op rfl (hnext _ fun _ => rfl)
  · rename_i hroom
    rw [if_neg hroom]
    exact hnext state.bufsz Eq.symm

/-- A refill fails when there are no more data. -/
protected theorem getMore_end {next : Option Cursor → StatusProg α} (hchunks : state.chunks = [])
    (hending : state.ending ≤ 0) (hnext : ∀ bufsz, goal (next none) { state with bufsz }) :
    goal ((getMore vars).bind next) state := by
  unfold getMore
  rw [Prog.bind_assoc]
  refine hgoal.readmore fun size _ => hgoal.tread_end hchunks ?_
  rw [if_neg (Int.not_lt.mpr hending)]
  exact hnext size

protected theorem getMore_chunk {next : Option Cursor → StatusProg α}
    (hchunks : state.chunks = chunk :: rest) (hpos : 0 < chunk.length)
    (hbufsz : vars.bufsz = state.bufsz) (hfits : vars.i + chunk.length ≤ grown vars.i vars.bufsz)
    (hnext : ∀ after, Refilled state vars chunk rest after →
      goal (next (some (vars.refilled chunk.length))) after) :
    goal ((getMore vars).bind next) state := by
  have hsome : ((chunk.length : Int)) > 0 := by omega
  have hlen : chunk.length ≤ grown vars.i vars.bufsz - vars.i := by omega
  unfold getMore
  rw [Prog.bind_assoc]
  refine hgoal.readmore fun size hsize => hgoal.op rfl ?_
  simp only [hchunks, List.take_of_length_le hlen, leftover, if_pos hlen]
  rw [if_pos hsome, Int.toNat_natCast, Prog.bind_assoc]
  exact hgoal.op rfl (hnext _ ⟨rfl, rfl, rfl, hsize hbufsz⟩)

protected theorem afterLength_here (hend : HeaderEnd tail body) (htail : Holds state.mem pos tail)
    (hinside : pos + tail.length ≤ state.datsz) (hdatsz : vars.datsz = state.datsz)
    {next : Bool → StatusProg α}
    (hnext : ∀ start, Holds state.mem start body → start + body.length = pos + tail.length →
      goal
        ((getMoreIf ((vars.at start).i ≥ (vars.at start).datsz) (vars.at start)).bind fun ended =>
          (orOut (fun vars => ippStatus jobid vars len) ended).bind next) state) :
    goal ((afterLength jobid (vars.at pos) len).bind next) state := by
  obtain ⟨between, rfl, hbetween⟩ := hend
  simp only [List.length_append, length_blankLine] at hinside hnext
  have hneed : ¬ (vars.at pos).i ≥ (vars.at pos).datsz := by
    dsimp only [Cursor.at]
    omega
  rw [← List.append_assoc, holds_append, List.length_append] at htail
  unfold afterLength
  rw [Prog.bind_assoc, getMoreIf_false _ hneed, Prog.ret_bind, orOut, Prog.bind_assoc]
  exact hgoal.findEnd htail.1 hbetween hdatsz (Nat.add_assoc ..) (by omega)
    (hnext _ htail.2 (by omega))

/-- The search for the end of the header stops before the last two bytes. -/
protected theorem scanHeader_none {next : Cursor × Bool → StatusProg α}
    (htail : Holds state.mem pos tail)
    (hnone : Avoids (fun text => text.take 3 = blankLine) tail [])
    (hdatsz : vars.datsz = state.datsz) (hend : pos + tail.length = state.datsz)
    (hsome : 0 < tail.length)
    (hnext : ∀ stop, stop < state.datsz → state.datsz ≤ stop + 2 →
      goal (next (vars.at stop, false)) state) :
    goal ((scanHeader (vars.at pos)).bind next) state := by
  induction tail generalizing pos with
  | nil => exact absurd hsome (Nat.lt_irrefl 0)
  | cons byte tail ih =>
    rw [List.length_cons] at hend
    refine hgoal.turn _ _ _ _ ?_
    by_cases hin : pos + 2 < state.datsz
    · rw [Prog.unroll, if_pos (by dsimp only [Cursor.at]; omega), Prog.bind_assoc]
      refine hgoal.blankLineAt htail (by rw [List.length_cons]; omega)
        (by rw [List.length_cons]; dsimp only [Cursor.at]; omega) ?_
      have hmiss := hnone.1
      rw [List.append_nil] at hmiss
      rw [decide_eq_false hmiss]
      exact ih htail.2 hnone.2 (by omega) (by omega)
    · rw [Prog.unroll, if_neg (by dsimp only [Cursor.at]; omega)]
      exact hnext pos (by omega) (by omega)

/-- Without more data there is no header. -/
protected theorem afterLength_end (hneed : vars.i ≥ vars.datsz) (hchunks : state.chunks = [])
    (hending : state.ending ≤ 0) {next : Bool → StatusProg α}
    (hnext : ∀ bufsz, goal (next false) { state with bufsz }) :
    goal ((afterLength jobid vars len).bind next) state := by
  unfold afterLength
  rw [Prog.bind_assoc, getMoreIf_true _ hneed]
  exact hgoal.getMore_end hchunks hending hnext

protected theorem afterLength_more (hneed : vars.i ≥ vars.datsz) (hdatsz : 0 < vars.datsz)
    (hchunks : state.chunks = chunk :: rest) (hbufsz : vars.bufsz = state.bufsz)
    (hfits : vars.i + chunk.length ≤ grown vars.i vars.bufsz) (hend : HeaderEnd chunk body)
    {next : Bool → StatusProg α}
    (hnext : ∀ after start, Refilled state vars chunk rest after →
      Holds after.mem start body → start + body.length = vars.i + chunk.length →
      goal ((ippStatus jobid ((vars.refilled chunk.length).at start) len).bind next) after) :
    goal ((afterLength jobid vars len).bind next) state := by
  obtain ⟨between, rfl, hbetween⟩ := hend
  simp only [List.length_append, length_blankLine] at hfits hnext
  unfold afterLength
  rw [Prog.bind_assoc, getMoreIf_true _ hneed]
  refine hgoal.getMore_chunk hchunks ?_ hbufsz ?_ fun after hafter => ?_
  · simp only [List.length_append, length_blankLine]
    omega
  · simpa only [List.length_append, length_blankLine] using hfits
  have hsize := hafter.datsz
  have htext : Holds after.mem vars.i (between ++ (blankLine ++ body)) := by
    rw [hafter.mem]
    exact holds_fill ..
  simp only [List.length_append, length_blankLine] at hsize ⊢
  rw [← List.append_assoc, holds_append, List.length_append] at htext
  rw [orOut, Prog.bind_assoc]
  refine @Forward.findEnd _ _ _ (vars.refilled (between.length + (3 + body.length))) vars.i hgoal _
    (vars.i + (between.length + 3)) _ htext.1 hbetween hsize.symm (Nat.add_assoc ..) (by omega) ?_
  rw [getMoreIf_false _ (by dsimp only [Cursor.at, Cursor.refilled]; omega), Prog.ret_bind, orOut]
  exact hnext after _ hafter htext.2 (by omega)

/-- The search finds a `Content-Length` that has been received. -/
protected theorem findLength_field (hfield : LengthField text digits tail)
    (htext : Holds state.mem pos text) (hdatsz : vars.datsz = state.datsz)
    (hinside : pos + text.length ≤ state.datsz) (hbufsz : pos + text.length ≤ state.bufsz)
    {next : Option (Cursor × Int) → StatusProg α}
    (hnext : ∀ mem start, Holds mem start tail → start + tail.length = pos + text.length →
      goal (next (some (vars.at start, atoi digits))) { state with mem }) :
    goal ((findLength (vars.at pos)).bind next) state := by
  obtain ⟨before, name, gap, mark, rfl, hbefore, hname, hnumber⟩ := hfield
  simp only [List.length_append, List.length_cons, hname.1] at hinside hbufsz hnext
  have hsearch : Holds state.mem pos (before ++ (name ++ (gap ++ (digits ++ [mark])))) := by
    simp only [holds_append, Holds] at htext ⊢
    exact ⟨htext.1, htext.2.1, htext.2.2.1, htext.2.2.2.1, htext.2.2.2.2.1, trivial⟩
  simp only [holds_append, Holds, hname.1] at htext
  exact hgoal.findLength hsearch hbefore hname hnumber hdatsz rfl (by omega) (by omega)
    (hnext _ _ (htext.2.2.2.2.2.fill_outside (.inl (Nat.le_refl _))) (by omega))

/-- Without a `Content-Length` in the data the search asks for more. -/
protected theorem findLength_none (hnone : NoLength text) (htext : Holds state.mem pos text)
    (hdatsz : vars.datsz = state.datsz) (hend : pos + text.length = state.datsz)
    {next : Option (Cursor × Int) → StatusProg α}
    (hnext : goal ((getMore (vars.at state.datsz)).bind fun more =>
      (match more with
        | none => (.ret (Sum.inr none) : StatusProg (Cursor ⊕ Option (Cursor × Int)))
        | some vars => compareLength vars).bind (Prog.resume lengthTurn next))
      { state with inside := false }) :
    goal ((findLength (vars.at pos)).bind next) state := by
  refine @Forward.findLength_over _ _ _ vars pos hgoal text [] next
    (by rwa [List.append_nil]) hnone hdatsz (by rw [List.length_nil]; omega) ?_
  intro start plain hsum hplainText hplain
  rw [List.append_nil] at hplainText
  rw [findLength_bind]
  refine hgoal.turn _ _ _ _ ?_
  rw [Prog.unroll, lengthTurn, Prog.bind_assoc]
  refine hgoal.skipToC_end hplainText hplain hdatsz (by omega) ?_
  rw [getMoreIf_true _ (by dsimp only [Cursor.at]; omega), Prog.bind_assoc]
  exact hnext

/-- The search goes on in the next read, which has the `Content-Length`. -/
protected theorem findLength_more (hnone : NoLength text) (htext : Holds state.mem pos text)
    (hdatsz : vars.datsz = state.datsz) (hend : pos + text.length = state.datsz)
    (hchunks : state.chunks = chunk :: rest) (hbufsz : vars.bufsz = state.bufsz)
    (hfits : state.datsz + chunk.length ≤ grown state.datsz vars.bufsz)
    (hfield : LengthField chunk digits tail) {next : Option (Cursor × Int) → StatusProg α}
    (hnext : ∀ (after : Channel) (vars : Cursor) start, vars.datsz = after.datsz →
      after.datsz = state.datsz + (state.datsz + chunk.length) →
      Holds after.mem start tail → start + tail.length = state.datsz + chunk.length →
      goal (next (some (vars.at start, atoi digits))) after) :
    goal ((findLength (vars.at pos)).bind next) state := by
  have hpos : 0 < chunk.length := by
    obtain ⟨before, name, gap, mark, rfl, _, hname, _⟩ := hfield
    simp only [List.length_append, hname.1]
    omega
  refine hgoal.findLength_none hnone htext hdatsz hend ?_
  refine hgoal.getMore_chunk hchunks hpos hbufsz hfits fun after hafter => ?_
  have hmem : Holds after.mem state.datsz chunk := by
    rw [hafter.mem]
    exact holds_fill ..
  have hsize : after.datsz = state.datsz + (state.datsz + chunk.length) :=
    hafter.datsz.trans (by dsimp only [Cursor.at]; rw [hdatsz])
  have hroom : state.datsz + chunk.length ≤ after.bufsz := by
    rw [hafter.bufsz]
    exact hfits
  have hvars : ((vars.at state.datsz).refilled chunk.length).datsz = after.datsz := by
    rw [hsize]
    dsimp only [Cursor.refilled, Cursor.at]
    rw [hdatsz]
  have hcursor : (vars.at state.datsz).refilled chunk.length =
      ((vars.at state.datsz).refilled chunk.length).at state.datsz := rfl
  rw [hcursor]
  obtain ⟨before, name, gap, mark, rfl, hbefore, hname, hfound⟩ := hfield
  cases before with
  | nil =>
    -- The text is compared where the refill was made.
    rw [List.nil_append] at *
    have hfront : Holds after.mem state.datsz (name ++ (gap ++ (digits ++ [mark]))) := by
      simp only [holds_append, Holds] at hmem ⊢
      exact ⟨hmem.1, hmem.2.1, hmem.2.2.1, hmem.2.2.2.1, trivial⟩
    have htotal : (name ++ (gap ++ (digits ++ mark :: tail))).length =
        15 + gap.length + digits.length + 1 + tail.length := by
      simp only [List.length_append, List.length_cons, hname.1]
      omega
    simp only [holds_append, Holds, hname.1] at hmem
    exact hgoal.compareLength_found hfront hname hfound rfl (by omega) (by omega)
      (hnext { after with mem := _ } _ _ hvars hsize
        (hmem.2.2.2.2.fill_outside (.inl (Nat.le_refl _))) (by omega))
  | cons byte before =>
    -- It is not, so the search goes on behind the first byte.
    have hmiss : ¬ Begins contentLength (byte :: before ++ name) :=
      (avoids_begins hbefore hname.1).1
    have hthere : Holds after.mem state.datsz (byte :: before ++ name) := by
      rw [← List.append_assoc, holds_append] at hmem
      exact hmem.1
    have htotal : (byte :: before ++ (name ++ (gap ++ (digits ++ mark :: tail)))).length =
        (before ++ (name ++ (gap ++ (digits ++ mark :: tail)))).length + 1 := rfl
    have hlength : (byte :: before ++ name).length ≤
        (byte :: before ++ (name ++ (gap ++ (digits ++ mark :: tail)))).length := by
      simp only [List.length_append, List.length_cons]
      omega
    refine hgoal.compareLength_miss hthere hmiss (by omega) ?_
    exact hgoal.findLength_field ⟨before, name, gap, mark, rfl, hbefore.2, hname, hfound⟩
      hmem.2 hvars (by omega) (by omega) fun mem start hstart hsum =>
        hnext { after with mem } _ start hvars hsize hstart (by omega)

protected theorem checkResponse_field {size : Nat} (hhead : AtHeader state pos size text)
    (hfield : LengthField text digits tail) {next : Bool → StatusProg α}
    (hnext : ∀ mem start, Holds mem start tail → start + tail.length = size →
      goal ((afterLength jobid ((Cursor.fresh size).at start) (atoi digits)).bind next)
        { state with mem }) :
    goal ((checkResponse jobid ⟨pos, pos, size, iobufsz⟩).bind next) state := by
  obtain ⟨htext, hend, hfits, hdatsz, hbufsz⟩ := hhead
  rw [checkResponse_eq, Prog.bind_assoc]
  exact hgoal.findLength_field (hfield.cons not_c_nul) htext hdatsz.symm (by omega) (by omega)
    fun mem start hstart hsum => hnext mem start hstart (hsum.trans hend)

protected theorem loadShort {cp : Nat} {next : Nat → StatusProg α} (hinside : cp + 1 < state.datsz)
    (hnext : goal (next (256 * (state.mem cp).toNat + (state.mem (cp + 1)).toNat)) state) :
    goal ((loadShort cp).bind next) state := by
  unfold loadShort
  rw [Prog.bind_assoc]
  refine hgoal.load (by omega) ?_
  rw [Prog.bind_assoc]
  exact hgoal.load hinside hnext

protected theorem ippStatus {start : Nat} {next : Bool → StatusProg α}
    (hbody : Holds state.mem start body) (hinside : start + body.length ≤ state.datsz)
    (hlong : 8 ≤ body.length) (hlen : len ≤ (state.datsz : Int) - start)
    (hdatsz : vars.datsz = state.datsz)
    (hnext : goal (next ((ippOf body).2 == jobid && decide ((ippOf body).1 ≤ 0xff))) state) :
    goal ((ippStatus jobid (vars.at start) len).bind next) state := by
  have hneed : ¬ (((vars.at start).datsz : Int) - (vars.at start).i < len) := by
    dsimp only [Cursor.at]
    omega
  unfold ippStatus
  rw [Prog.bind_assoc, getMoreIf_false _ hneed, Prog.ret_bind, orOut, Prog.bind_assoc]
  unfold ippHeader
  simp only [Prog.bind_assoc, show (vars.at start).cp = start from rfl]
  refine hgoal.loadShort (by omega) (hgoal.loadShort (by omega) (hgoal.loadShort (by omega) ?_))
  simp only [Nat.add_assoc, Nat.reduceAdd]
  rw [hbody.getD (by omega), hbody.getD (by omega), hbody.getD (by omega),
    hbody.getD (by omega), hbody.getD (by omega), hbody.getD (by omega)]
  exact hnext

/-! ## Data that may be missing -/

/-- An operation stops, whatever its answer. -/
protected theorem op_any {op : Access} {next : accessSig.Answer op → StatusProg α}
    (hnext : ∀ answer after, goal (next answer) after) :
    goal ((@Prog.op accessSig Undefined op).bind next) state :=
  hgoal.op (Prod.eta _).symm (hnext _ _)

protected theorem loadShort_any {cp : Nat} {next : Nat → StatusProg α}
    (hnext : ∀ value after, goal (next value) after) :
    goal ((loadShort cp).bind next) state := by
  unfold loadShort
  rw [Prog.bind_assoc]
  refine hgoal.op_any fun _ _ => ?_
  rw [Prog.bind_assoc]
  exact hgoal.op_any fun _ _ => hnext _ _

/-- A refill stops, whatever it brings. -/
protected theorem getMoreIf_any {need : Bool} {next : Option Cursor → StatusProg α}
    (hnext : ∀ more after, goal (next more) after) :
    goal ((getMoreIf need vars).bind next) state := by
  unfold getMoreIf
  split
  · unfold getMore
    rw [Prog.bind_assoc]
    refine hgoal.readmore fun size _ => hgoal.op_any fun (nr : Int) after => ?_
    by_cases hnr : nr > 0
    · rw [if_pos hnr, Prog.bind_assoc]
      exact hgoal.op_any fun _ _ => hnext _ _
    · rw [if_neg hnr]
      exact hnext _ _
  · exact hnext _ _

protected theorem ippStatus_any {next : Bool → StatusProg α}
    (hnext : ∀ value after, goal (next value) after) :
    goal ((ippStatus jobid vars len).bind next) state := by
  unfold ippStatus
  rw [Prog.bind_assoc]
  refine hgoal.getMoreIf_any fun more after => ?_
  cases more with
  | none => exact hnext _ _
  | some vars =>
    rw [orOut, Prog.bind_assoc]
    unfold ippHeader
    simp only [Prog.bind_assoc]
    exact hgoal.loadShort_any fun _ _ => hgoal.loadShort_any fun _ _ =>
      hgoal.loadShort_any fun _ _ => hnext _ _

protected theorem readResponse (hchunks : state.chunks = chunk :: rest) (hpos : 0 < chunk.length)
    (hfits : chunk.length ≤ iobufsz) (hbufsz : state.bufsz = iobufsz)
    {next : Nat ⊕ Bool → StatusProg α}
    (hnext : ∀ mem, Received ⟨mem, rest, state.ending, state.bufsz, chunk.length, chunk.length,
      state.inside⟩ chunk → goal ((response jobid iobufsz chunk.length).bind next)
        ⟨mem, rest, state.ending, state.bufsz, chunk.length, chunk.length, state.inside⟩) :
    goal ((readResponse jobid iobufsz).bind next) state := by
  unfold readResponse
  rw [Prog.bind_assoc]
  refine hgoal.tread_start hchunks hfits ?_
  rw [if_neg (by omega), Prog.bind_assoc, Int.toNat_natCast]
  exact hgoal.setDatsz rfl (by dsimp only; omega)
    (hnext _ ⟨holds_fill state.mem 0 chunk, rfl, hfits, hbufsz⟩)

protected theorem readResponse_end (hchunks : state.chunks = []) (hending : state.ending ≤ 0)
    {next : Nat ⊕ Bool → StatusProg α} (hnext : goal (next (.inr false)) state) :
    goal ((readResponse jobid iobufsz).bind next) state := by
  unfold readResponse
  rw [Prog.bind_assoc]
  refine hgoal.tread_end hchunks ?_
  rw [if_pos hending]
  exact hnext

end Forward

theorem NoStatus.length_pos {data : Bytes} (hnone : NoStatus data) : 0 < data.length := by
  obtain ⟨version, gap, mark, rest, rfl, hversion, _⟩ := hnone
  rw [List.length_append, hversion]
  omega

theorem HasStatusLine.length_pos {data code rest : Bytes} (hline : HasStatusLine data code rest) :
    0 < data.length := by
  obtain ⟨version, gap, mark, reason, eol, rfl, hversion, _⟩ := hline
  rw [List.length_append, hversion]
  omega

end ApueFormal.Printer
