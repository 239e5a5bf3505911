import ApueFormal.Printer.Http

/-!
# Accesses outside the data

`printer_status` stays inside the data that have been received exactly when each
scan ends inside the first read of a response and no refill brings more data: a
refill counts the bytes before it twice.
-/

namespace ApueFormal.Printer

open Libc Program

/-- No step of a run is outside. -/
def StaysIn {α : Type} (program : StatusProg α) (state : Channel) : Prop :=
  ∀ steps, (advance channel steps program state).inside = true

def Leaves {α : Type} (program : StatusProg α) (state : Channel) : Prop :=
  ∃ steps, (advance channel steps program state).inside = false

variable {state : Channel} {α : Type} {byte : Byte} {text : Bytes}

/-- An access outside is never forgotten. -/
theorem inside_of_channel {op : Access} (hafter : (channel op state).2.inside = true) :
    state.inside = true := by
  cases op with
  | load index | store index byte | datsz value => exact (Bool.and_eq_true_iff.mp hafter).1
  | grow bufsz => exact hafter
  | tread off len =>
    dsimp only [channel] at hafter
    split at hafter <;> exact hafter
  | noArgument => cases hafter

theorem forward_staysIn {α : Type} : Forward (@StaysIn α) where
  step := by
    intro op next state hnext steps
    cases steps with
    | zero => exact inside_of_channel (hnext 0)
    | succ steps => exact hnext steps
  turn := by
    intro σ τ body start next state hnext steps
    cases steps with
    | zero => exact hnext 0
    | succ steps => exact hnext steps

theorem forward_leaves {α : Type} : Forward (@Leaves α) where
  step := fun _ _ _ ⟨steps, hsteps⟩ => ⟨steps + 1, hsteps⟩
  turn := fun _ _ _ _ ⟨steps, hsteps⟩ => ⟨steps + 1, hsteps⟩

theorem staysIn_ret {value : α} (hinside : state.inside = true) : StaysIn (.ret value) state := by
  intro steps
  cases steps <;> exact hinside

/-! ## Reads that stay inside -/

/-- What follows the `Content-Length` ends with the header or with the data. -/
def InsideBody (len : Int) (body : Bytes) (rest : List Bytes) : Prop :=
  (body = [] → rest = []) ∧
    (body ≠ [] → ((body.length : Int) < len → rest = []) ∧
      (len ≤ body.length → 8 ≤ body.length))

/-- The header of a success has its `Content-Length` in the data, and no refill is
successful. -/
def InsideHeader (text : Bytes) (rest : List Bytes) : Prop :=
  ∃ digits tail, LengthField text digits tail ∧ (tail = [] → rest = []) ∧
    ∀ body, HeaderEnd tail body → InsideBody (atoi digits) body rest

/-- Each read at the start of the buffer has a status line, or no status code at all and
can be logged; the NUL behind the text of a refusal fits into the buffer; and the header of a
success is found without a refill. -/
def StaysInside : List Bytes → Prop
  | [] => True
  | data :: rest =>
    (Logged data ∧ StaysInside rest) ∨
      ∃ code text, HasStatusLine data code text ∧ (isInfo code → StaysInside rest) ∧
        (¬ isInfo code → ¬ isSuccess code → data.length < iobufsz) ∧
        (isSuccess code → InsideHeader text rest)

theorem findEnd_staysIn {vars : Cursor} (hlt : vars.i < vars.datsz)
    (hend : ¬ vars.i < vars.datsz - 2) (next : Option Cursor → StatusProg Bool) {state : Channel}
    (hinside : state.inside = true) : StaysIn ((findEnd vars).bind next) state := by
  have hneed : ¬ vars.i ≥ vars.datsz := Nat.not_le_of_lt hlt
  have htwo : ∀ steps, advance channel (steps + 2) ((findEnd vars).bind next) state =
      advance channel steps ((findEnd vars).bind next) state := by
    intro steps
    conv_lhs => rw [findEnd, Prog.iterate, Prog.loop_bind, advance, Prog.unroll, scanHeader,
      Prog.iterate]
    simp only [Prog.loop_bind, advance, Prog.unroll, if_neg hend, Prog.ret_bind, Prog.resume,
      getMoreIf_false vars hneed, Bool.false_eq_true, if_false]
    rfl
  intro steps
  induction steps using Nat.twoStepInduction with
  | zero => exact hinside
  | one => exact hinside
  | more steps ih _ => rw [htwo, ih]

theorem afterLength_staysIn {tail : Bytes} {rest : List Bytes} {len : Int}
    (htail : tail = [] → rest = []) (hbody : ∀ body, HeaderEnd tail body → InsideBody len body rest)
    {state : Channel} {vars : Cursor} {pos : Nat} (htext : Holds state.mem pos tail)
    (hdatsz : vars.datsz = state.datsz) (hend : pos + tail.length = state.datsz)
    (hchunks : state.chunks = rest) (hending : state.ending ≤ 0) (hinside : state.inside = true)
    {jobid : Int} {next : Bool → StatusProg Bool}
    (hnext : ∀ success (after : Channel), after.inside = true → StaysIn (next success) after) :
    StaysIn ((afterLength jobid (vars.at pos) len).bind next) state := by
  have hgoal := @forward_staysIn Bool
  rcases Nat.eq_zero_or_pos tail.length with hzero | hlong
  · obtain rfl := List.length_eq_zero_iff.mp hzero
    rw [List.length_nil, Nat.add_zero] at hend
    exact hgoal.afterLength_end (by dsimp only [Cursor.at]; omega) (hchunks.trans (htail rfl))
      hending fun bufsz => hnext false _ hinside
  rcases headerEnd_or_avoids tail with ⟨body, hheader⟩ | havoids
  · obtain ⟨hnone, hsome⟩ := hbody body hheader
    refine hgoal.afterLength_here hheader htext (by omega) hdatsz fun start hstart hsum => ?_
    rcases Nat.eq_zero_or_pos body.length with hzero | hpos
    · rw [getMoreIf_true _ (by dsimp only [Cursor.at]; omega)]
      exact hgoal.getMore_end (hchunks.trans (hnone (List.length_eq_zero_iff.mp hzero))) hending
        fun bufsz => hnext false _ hinside
    · obtain ⟨hshort, hwhole⟩ := hsome (List.length_pos_iff.mp hpos)
      rw [getMoreIf_false _ (by dsimp only [Cursor.at]; omega), Prog.ret_bind, orOut]
      by_cases hlen : (body.length : Int) < len
      · unfold ippStatus
        rw [Prog.bind_assoc, getMoreIf_true _ (by dsimp only [Cursor.at]; omega)]
        exact hgoal.getMore_end (hchunks.trans (hshort hlen)) hending
          fun bufsz => hnext false _ hinside
      · exact hgoal.ippStatus hstart (by omega) (hwhole (by omega)) (by omega) hdatsz
          (hnext _ _ hinside)
  · dsimp only [afterLength]
    rw [Prog.bind_assoc, getMoreIf_false _ (by dsimp only [Cursor.at]; omega), Prog.ret_bind,
      orOut, Prog.bind_assoc]
    refine hgoal.turn _ _ _ _ ?_
    rw [Prog.unroll, Prog.bind_assoc]
    refine hgoal.scanHeader_none htext havoids hdatsz hend hlong fun stop hlt hlast => ?_
    rw [Prog.bind_assoc, getMoreIf_false _ (by dsimp only [Cursor.at]; omega)]
    exact @findEnd_staysIn (vars.at stop) (by dsimp only [Cursor.at]; omega)
      (by dsimp only [Cursor.at]; omega) _ _ hinside

/-! ## Reads that lead outside -/

theorem leaves_load {index : Nat} {next : Byte → StatusProg α}
    (hnext : index < state.datsz → Leaves (next (state.mem index)) state) :
    Leaves ((load index).bind next) state := by
  by_cases hindex : index < state.datsz
  · exact forward_leaves.load hindex (hnext hindex)
  · refine ⟨1, ?_⟩
    change (state.inside && decide (index < state.datsz)) = false
    rw [decide_eq_false hindex, Bool.and_false]

variable {next : Unit → StatusProg α}

theorem leaves_store {index : Nat} (hindex : ¬ index < state.bufsz) :
    Leaves ((store index byte).bind next) state := by
  refine ⟨1, ?_⟩
  change (state.inside && decide (index < state.bufsz)) = false
  rw [decide_eq_false hindex, Bool.and_false]

variable {cp : Nat}

theorem leaves_skip {test : Byte → Bool} {next : Nat → StatusProg α}
    (htext : Holds state.mem cp text) (htest : ∀ byte ∈ text, test byte = true)
    (hend : state.datsz ≤ cp + text.length) : Leaves ((skip test cp).bind next) state := by
  induction text generalizing cp with
  | nil =>
    rw [List.length_nil] at hend
    refine forward_leaves.turn _ _ _ _ ?_
    rw [Prog.unroll, Prog.bind_assoc]
    exact leaves_load fun hlt => absurd hlt (by omega)
  | cons byte rest ih =>
    rw [List.length_cons] at hend
    obtain ⟨hbyte, hrest⟩ := List.forall_mem_cons.mp htest
    refine forward_leaves.turn _ _ _ _ ?_
    rw [Prog.unroll, Prog.bind_assoc]
    refine leaves_load fun _ => ?_
    rw [htext.1, hbyte]
    exact ih htext.2 hrest (by omega)

/-- A format that does not end in the data is read behind them, unless a conversion
without an argument comes first. -/
theorem leaves_log {percent : Bool} (htext : Holds state.mem cp text)
    (hformat : formatEnds percent text = false) (hend : state.datsz = cp + text.length) :
    Leaves (.loop logStep (cp, percent) next) state := by
  induction text generalizing cp percent with
  | nil =>
    refine forward_leaves.turn _ _ _ _ ?_
    rw [Prog.unroll, logStep, Prog.bind_assoc]
    exact leaves_load fun hlt => absurd hlt (by rw [hend]; exact Nat.lt_irrefl _)
  | cons byte rest ih =>
    rw [add_length_cons] at hend
    refine forward_leaves.turn _ _ _ _ ?_
    rw [Prog.unroll, logStep, Prog.bind_assoc]
    refine forward_leaves.load (by omega) ?_
    rw [htext.1]
    cases percent with
    | true =>
      rw [if_pos rfl]
      by_cases hbyte : byte = 37
      · rw [if_pos hbyte]
        refine ih htext.2 ?_ hend
        simpa [formatEnds, hbyte] using hformat
      · rw [if_neg hbyte]
        exact ⟨1, rfl⟩
    | false =>
      obtain ⟨hzero, hrest⟩ := Bool.or_eq_false_iff.mp hformat
      rw [if_neg Bool.false_ne_true, if_neg (ne_of_beq_false hzero)]
      exact ih htext.2 hrest hend

theorem split_while (test : Byte → Bool) (text : Bytes) :
    (∀ byte ∈ text, test byte = true) ∨ ∃ front stop back, text = front ++ stop :: back ∧
      (∀ byte ∈ front, test byte = true) ∧ test stop = false := by
  induction text with
  | nil => exact .inl (List.forall_mem_nil _)
  | cons byte text ih =>
    cases hbyte : test byte with
    | false => exact .inr ⟨[], byte, text, rfl, List.forall_mem_nil _, hbyte⟩
    | true =>
      rcases ih with hall | ⟨front, stop, back, rfl, hfront, hstop⟩
      · exact .inl (List.forall_mem_cons.mpr ⟨hbyte, hall⟩)
      · exact .inr ⟨byte :: front, stop, back, rfl,
          List.forall_mem_cons.mpr ⟨hbyte, hfront⟩, hstop⟩

theorem leaves_response {data : Bytes} (hnone : ¬ NoStatus data)
    (hline : ∀ code text, ¬ HasStatusLine data code text) (hreceived : Received state data)
    {jobid : Int} {bufsz datsz : Nat} {next : Nat ⊕ Bool → StatusProg Bool} :
    Leaves ((response jobid bufsz datsz).bind next) state := by
  have hgoal := @forward_leaves Bool
  obtain ⟨hdata, hdatsz, hfits, hbufsz⟩ := hreceived
  unfold response
  simp only [Prog.bind_assoc]
  rcases Nat.lt_or_ge data.length 8 with hshort | hlong
  · exact leaves_skip (show Holds state.mem 8 [] from trivial) (List.forall_mem_nil _)
      (by rw [List.length_nil]; omega)
  obtain ⟨version, line, rfl, hversion⟩ : ∃ version line, data = version ++ line ∧
      version.length = 8 :=
    ⟨data.take 8, data.drop 8, (List.take_append_drop ..).symm, by
      rw [List.length_take, Nat.min_eq_left hlong]⟩
  rw [holds_append, hversion, Nat.zero_add] at hdata
  rw [List.length_append, hversion] at hdatsz hfits
  rcases split_while isSpace line with hall | ⟨gap, first, others, rfl, hgap, hfirst⟩
  · exact leaves_skip hdata.2 hall (by omega)
  have hdigit : isDigit first = true := by
    by_contra hnot
    exact hnone ⟨version, gap, first, others, rfl, hversion, hgap, hfirst,
      Bool.eq_false_of_not_eq_true hnot⟩
  rw [holds_append] at hdata
  obtain ⟨_, hgapText, hcodeText⟩ := hdata
  rw [List.length_append, List.length_cons] at hdatsz hfits
  refine hgoal.skip hgapText hgap (by rwa [hcodeText.1]) (by omega) ?_
  rcases split_while isDigit (first :: others) with hall | ⟨code, mark, line, hcode, hdigits, hmark⟩
  · exact leaves_skip hcodeText hall (by rw [List.length_cons]; omega)
  have hsome : code ≠ [] := by
    rintro rfl
    rw [List.nil_append] at hcode
    rw [(List.cons.inj hcode).1, hmark] at hdigit
    cases hdigit
  have hlength := congrArg List.length hcode
  rw [List.length_cons, List.length_append, List.length_cons] at hlength
  rw [hcode] at hcodeText hline
  rw [holds_append] at hcodeText
  obtain ⟨hcodeText, hmarkText, hlineText⟩ := hcodeText
  have hmore : 8 + gap.length + code.length ≠ 8 + gap.length := by
    have hpos := List.length_pos_iff.mpr hsome
    omega
  refine hgoal.skip hcodeText hdigits (by rwa [hmarkText]) (by omega) ?_
  rw [if_neg hmore, Prog.bind_assoc]
  refine hgoal.store (by omega) ?_
  rw [Prog.bind_assoc]
  rcases split_while (fun byte => !isEol byte) line with hall |
    ⟨reason, eol, text, rfl, hreason, heol⟩
  · exact leaves_skip (hlineText.fill_outside (.inl (Nat.le_refl _))) hall (by dsimp only; omega)
  · refine absurd ⟨version, gap, mark, reason, eol, rfl, hversion, hgap, ⟨hsome, hdigits⟩, hmark,
      fun byte hbyte => ?_, ?_⟩ (hline code text)
    · exact Bool.not_eq_true' _ ▸ hreason byte hbyte
    · simpa using heol

variable {next : Bool → StatusProg Bool}

theorem leaves_strncasecmp {pattern : Bytes} (hbegins : Begins pattern text)
    (hshort : text.length < pattern.length) (htext : Holds state.mem cp text)
    (hend : state.datsz ≤ cp + text.length) :
    Leaves ((strncasecmp cp pattern).bind next) state := by
  induction pattern generalizing cp text with
  | nil => exact absurd hshort (Nat.not_lt_zero _)
  | cons char pattern ih =>
    rw [strncasecmp, Prog.bind_assoc]
    cases text with
    | nil =>
      rw [List.length_nil] at hend
      exact leaves_load fun hlt => absurd hlt (by omega)
    | cons byte text =>
      rw [begins_cons] at hbegins
      simp only [List.length_cons] at hshort hend
      refine leaves_load fun _ => ?_
      rw [htext.1, if_pos hbegins.1]
      exact ih hbegins.2 (by omega) htext.2 (by omega)

theorem avoids_of_plain {plain : Bytes} (hplain : ∀ byte ∈ plain, byte ≠ 67 ∧ byte ≠ 99)
    (more : Bytes) : Avoids (Matches contentLength) plain more := by
  induction plain with
  | nil => trivial
  | cons byte plain ih =>
    obtain ⟨hbyte, hrest⟩ := List.forall_mem_cons.mp hplain
    refine ⟨fun hmatches => ?_, ih hrest⟩
    exact (head_of_matches hmatches).elim (fun heq => hbyte.1 (Option.some.inj heq))
      fun heq => hbyte.2 (Option.some.inj heq)

/-- A `Content-Length` behind text that does not look like one. -/
theorem LengthField.append {plain rest digits tail : Bytes}
    (hfield : LengthField rest digits tail) (hplain : ∀ byte ∈ plain, byte ≠ 67 ∧ byte ≠ 99)
    (hmiss : ¬ Begins contentLength (byte :: rest)) :
    LengthField (plain ++ byte :: rest) digits tail := by
  obtain ⟨before, name, gap, mark, rfl, hbefore, hname, hrest⟩ := hfield
  refine ⟨plain ++ byte :: before, name, gap, mark, ?_, ?_, hname, hrest⟩
  · rw [List.append_assoc, List.cons_append]
  · refine avoids_append.mpr ⟨avoids_of_plain hplain _, fun hmatches => hmiss ?_, hbefore⟩
    have hlong : contentLength.length ≤ (byte :: before ++ name).length := by
      rw [List.length_append, hname.1, length_contentLength]
      omega
    rw [← List.append_assoc, ← List.cons_append, ← List.cons_append, Begins,
      List.take_append_of_le_length hlong]
    exact (begins_iff_matches hlong).mpr hmatches

variable {pos : Nat}

theorem leaves_compareLength (hbegins : Begins contentLength text)
    (hnone : ∀ digits tail, ¬ LengthField text digits tail) {vars : Cursor}
    (htext : Holds state.mem pos text) (hend : pos + text.length = state.datsz)
    {next : Cursor ⊕ Option (Cursor × Int) → StatusProg Bool} :
    Leaves ((compareLength (vars.at pos)).bind next) state := by
  have hgoal := @forward_leaves Bool
  unfold compareLength
  rw [Prog.bind_assoc]
  rcases Nat.lt_or_ge text.length 15 with hshort | hlong
  · exact leaves_strncasecmp hbegins (by rwa [length_contentLength]) htext (Nat.le_of_eq hend.symm)
  have hmatches := (begins_iff_matches (by rwa [length_contentLength])).mp hbegins
  refine hgoal.strncasecmp htext (by rwa [length_contentLength])
    (by dsimp only [Cursor.at]; omega) ?_
  rw [decide_eq_true hmatches, if_pos rfl]
  unfold lengthValue
  simp only [Prog.bind_assoc, length_contentLength]
  obtain ⟨name, value, rfl, hname⟩ : ∃ name value, text = name ++ value ∧ name.length = 15 :=
    ⟨text.take 15, text.drop 15, (List.take_append_drop ..).symm, by
      rw [List.length_take, Nat.min_eq_left hlong]⟩
  have hletters : Matches contentLength name := by
    rwa [Matches, List.take_append_of_le_length (by rw [hname, length_contentLength])] at hmatches
  rw [holds_append, hname] at htext
  rw [List.length_append, hname] at hend
  rcases split_while isSpace value with hall | ⟨gap, first, others, rfl, hgap, hfirst⟩
  · exact leaves_skip htext.2 hall (by dsimp only [Cursor.at]; omega)
  rw [holds_append] at htext
  obtain ⟨_, hgapText, hvalueText⟩ := htext
  rw [List.length_append, List.length_cons] at hend
  refine hgoal.skip hgapText hgap (by dsimp only [Cursor.at]; rwa [hvalueText.1])
    (by dsimp only [Cursor.at]; omega) ?_
  rcases split_while isDigit (first :: others) with hall | ⟨digits, mark, tail, hvalue, hdigits,
    hmark⟩
  · exact leaves_skip hvalueText hall (by rw [List.length_cons]; dsimp only [Cursor.at]; omega)
  · refine absurd ⟨[], name, gap, mark, ?_, trivial, ⟨hname, hletters⟩, hgap, hdigits, hmark, ?_⟩
      (hnone digits tail)
    · rw [List.nil_append, hvalue]
    · rintro rfl
      rw [← (List.cons.inj hvalue).1]
      exact hfirst

theorem leaves_findLength (hnone : ∀ digits tail, ¬ LengthField text digits tail) {vars : Cursor}
    (htext : Holds state.mem pos text) (hdatsz : vars.datsz = state.datsz)
    (hend : pos + text.length = state.datsz) {next : Option (Cursor × Int) → StatusProg Bool} :
    Leaves ((findLength (vars.at pos)).bind next) state := by
  have hgoal := @forward_leaves Bool
  induction hlength : text.length using Nat.strongRecOn generalizing text pos with
  | ind length ih =>
    subst hlength
    rcases split_at_c text with hplain | ⟨plain, byte, rest, rfl, hplain, hbyte⟩
    · rw [findLength_bind]
      refine hgoal.turn _ _ _ _ ?_
      rw [Prog.unroll, lengthTurn, Prog.bind_assoc]
      exact hgoal.skipToC_end htext hplain hdatsz hend ⟨0, rfl⟩
    · rw [holds_append] at htext
      rw [List.length_append, List.length_cons] at hend
      refine hgoal.findLength_turn htext.1 hplain (htext.2.1 ▸ hbyte) hdatsz (by omega) ?_
      by_cases hbegins : Begins contentLength (byte :: rest)
      · refine leaves_compareLength hbegins ?_ htext.2 (by rw [List.length_cons]; omega)
        rintro digits tail ⟨before, name, gap, mark, heq, hbefore, hfield⟩
        refine hnone digits tail ⟨plain ++ before, name, gap, mark, ?_, ?_, hfield⟩
        · rw [heq, List.append_assoc]
        · exact avoids_append.mpr ⟨avoids_of_plain hplain _, hbefore⟩
      · refine hgoal.compareLength_miss htext.2 hbegins (by rw [List.length_cons]; omega) ?_
        refine ih rest.length ?_ (fun digits tail hfield => ?_) htext.2.2 (by omega) rfl
        · rw [List.length_append, List.length_cons]
          omega
        · exact hnone digits tail (hfield.append hplain hbegins)

/-- A refill that brings data counts the bytes before them twice. -/
theorem leaves_getMore {vars : Cursor} {chunk : Bytes} {rest : List Bytes} {state : Channel}
    (hchunks : state.chunks = chunk :: rest) (hpos : 0 < chunk.length) (hi : 0 < vars.i)
    (hroom : vars.i ≤ vars.bufsz) (hdatsz : vars.datsz = state.received)
    {next : Option Cursor → StatusProg Bool} :
    Leaves ((getMore vars).bind next) state := by
  have hgoal := @forward_leaves Bool
  have hlt : vars.i < grown vars.i vars.bufsz := by
    unfold grown
    split
    · exact Nat.lt_of_le_of_lt hroom (Nat.lt_add_of_pos_right (by decide))
    · omega
  have hcount : 0 < (chunk.take (grown vars.i vars.bufsz - vars.i)).length := by
    rw [List.length_take]
    omega
  unfold getMore
  rw [Prog.bind_assoc]
  refine hgoal.readmore fun size _ => hgoal.op rfl ?_
  simp only [hchunks]
  rw [if_pos (by omega), Int.toNat_natCast, Prog.bind_assoc]
  refine hgoal.op rfl ⟨0, ?_⟩
  rw [advance, decide_eq_false, Bool.and_false]
  rintro ⟨hcounted, _⟩
  dsimp only at hcounted
  rw [if_neg (Nat.ne_of_gt hi)] at hcounted
  omega

theorem leaves_afterLength {tail : Bytes} {rest : List Bytes} {len : Int}
    (hleaves : ¬ ((tail = [] → rest = []) ∧ ∀ body, HeaderEnd tail body → InsideBody len body rest))
    (hreads : ∀ chunk ∈ rest, 0 < chunk.length) {state : Channel} {vars : Cursor} {pos : Nat}
    (htext : Holds state.mem pos tail) (hdatsz : vars.datsz = state.datsz)
    (hend : pos + tail.length = state.datsz) (hreceived : state.received = state.datsz)
    (hsome : 0 < pos) (hroom : vars.datsz ≤ vars.bufsz) (hchunks : state.chunks = rest)
    {jobid : Int} {next : Bool → StatusProg Bool} :
    Leaves ((afterLength jobid (vars.at pos) len).bind next) state := by
  have hgoal := @forward_leaves Bool
  have hmore : ∀ start (next : Option Cursor → StatusProg Bool), rest ≠ [] → 0 < start →
      start ≤ state.datsz → Leaves ((getMore (vars.at start)).bind next) state := by
    intro start next hrest hpos hle
    obtain ⟨chunk, later, rfl⟩ := List.exists_cons_of_ne_nil hrest
    exact @leaves_getMore (vars.at start) _ _ _ hchunks (hreads chunk List.mem_cons_self) hpos
      (by dsimp only [Cursor.at]; omega) (hdatsz.trans hreceived.symm) _
  by_cases htail : tail = [] → rest = []
  · obtain ⟨body, hbody⟩ := not_forall.mp (not_and.mp hleaves htail)
    obtain ⟨hheader, hbody⟩ := Classical.not_imp.mp hbody
    refine hgoal.afterLength_here hheader htext (by omega) hdatsz fun start hstart hsum => ?_
    have hpos : pos < start := by
      obtain ⟨between, rfl, _⟩ := hheader
      simp only [List.length_append, length_blankLine] at hsum
      omega
    by_cases hempty : body = [] → rest = []
    · obtain ⟨hnonempty, hbad⟩ := Classical.not_imp.mp (not_and.mp hbody hempty)
      have hlong := List.length_pos_iff.mpr hnonempty
      rw [getMoreIf_false _ (by dsimp only [Cursor.at]; omega), Prog.ret_bind, orOut]
      unfold ippStatus
      rw [Prog.bind_assoc]
      by_cases hshort : (body.length : Int) < len → rest = []
      · obtain ⟨hlen, hfew⟩ := Classical.not_imp.mp (not_and.mp hbad hshort)
        rw [getMoreIf_false _ (by dsimp only [Cursor.at]; omega), Prog.ret_bind, orOut]
        unfold ippHeader loadShort
        simp only [Prog.bind_assoc, Prog.ret_bind]
        refine leaves_load fun _ => leaves_load fun _ => leaves_load fun _ =>
          leaves_load fun _ => leaves_load fun _ => leaves_load fun hlt => absurd hlt ?_
        dsimp only [Cursor.at]
        omega
      · obtain ⟨hlen, hrest⟩ := Classical.not_imp.mp hshort
        rw [getMoreIf_true _ (by dsimp only [Cursor.at]; omega)]
        exact hmore start _ hrest (by omega) (by omega)
    · obtain ⟨rfl, hrest⟩ := Classical.not_imp.mp hempty
      rw [List.length_nil] at hsum
      rw [getMoreIf_true _ (by dsimp only [Cursor.at]; omega)]
      exact hmore start _ hrest (by omega) (by omega)
  · obtain ⟨rfl, hrest⟩ := Classical.not_imp.mp htail
    rw [List.length_nil] at hend
    unfold afterLength
    rw [Prog.bind_assoc, getMoreIf_true _ (by dsimp only [Cursor.at]; omega)]
    exact hmore pos _ hrest hsome (by omega)

theorem LengthField.of_cons {digits tail : Bytes}
    (hfield : LengthField (byte :: text) digits tail) (hbyte : ¬ (byte = 67 ∨ byte = 99)) :
    LengthField text digits tail := by
  obtain ⟨before, name, gap, mark, heq, hbefore, hname, hrest⟩ := hfield
  cases before with
  | nil =>
    refine absurd ?_ hbyte
    cases name with
    | nil => cases hname.1
    | cons first others =>
      obtain ⟨rfl, _⟩ := List.cons.inj heq
      exact (head_of_matches hname.2).imp Option.some.inj Option.some.inj
  | cons first before =>
    obtain ⟨rfl, rfl⟩ := List.cons.inj heq
    exact ⟨before, name, gap, mark, rfl, hbefore.2, hname, hrest⟩

theorem InsideHeader.staysIn {rest : List Bytes} (hheader : InsideHeader text rest) {size : Nat}
    (hhead : AtHeader state pos size text) (hchunks : state.chunks = rest)
    (hending : state.ending ≤ 0) (hinside : state.inside = true) (jobid : Int)
    (hnext : ∀ success (after : Channel), after.inside = true → StaysIn (next success) after) :
    StaysIn ((checkResponse jobid ⟨pos, pos, size, iobufsz⟩).bind next) state := by
  obtain ⟨digits, tail, hfield, htail, hbody⟩ := hheader
  have hdatsz := hhead.datsz
  refine forward_staysIn.checkResponse_field hhead hfield fun mem start hstart hsum => ?_
  exact @afterLength_staysIn tail rest (atoi digits) htail hbody { state with mem } _ start hstart
    hdatsz.symm (hsum.trans hdatsz.symm) hchunks hending hinside jobid next hnext

theorem leaves_checkResponse {rest : List Bytes} (hheader : ¬ InsideHeader text rest)
    (hreads : ∀ chunk ∈ rest, 0 < chunk.length) {size : Nat} (hhead : AtHeader state pos size text)
    (hchunks : state.chunks = rest) (hreceived : state.received = size) (jobid : Int) :
    Leaves ((checkResponse jobid ⟨pos, pos, size, iobufsz⟩).bind next) state := by
  have hdatsz := hhead.datsz
  by_cases hfield : ∃ digits tail, LengthField text digits tail
  · obtain ⟨digits, tail, hfield⟩ := hfield
    refine forward_leaves.checkResponse_field hhead hfield fun mem start hstart hsum => ?_
    have hpos : 0 < start := by
      have hend := hhead.ends
      obtain ⟨before, name, gap, mark, rfl, _⟩ := hfield
      simp only [List.length_append, List.length_cons] at hend
      omega
    exact @leaves_afterLength tail rest (atoi digits)
      (fun hstays => hheader ⟨digits, tail, hfield, hstays⟩) hreads { state with mem }
      (Cursor.fresh size) start hstart hdatsz.symm (hsum.trans hdatsz.symm)
      (hreceived.trans hdatsz.symm) hpos hhead.fits hchunks jobid next
  · rw [checkResponse_eq, Prog.bind_assoc]
    refine leaves_findLength (fun digits tail hcons => ?_) hhead.holds hdatsz.symm
      (hhead.ends.trans hdatsz.symm)
    exact hfield ⟨digits, tail, hcons.of_cons not_c_nul⟩

variable {chunks : List Bytes}

theorem staysInside_turn (jobid : Int) (hstays : StaysInside chunks)
    (hfit : ∀ data ∈ chunks, data.length ≤ iobufsz) (hchunks : state.chunks = chunks)
    (hending : state.ending ≤ 0) (hbufsz : state.bufsz = iobufsz) (hinside : state.inside = true) :
    StaysIn (.loop (readResponse jobid) iobufsz .ret) state := by
  have hgoal := @forward_staysIn Bool
  induction chunks generalizing state with
  | nil =>
    exact hgoal.turn _ _ _ _ (hgoal.readResponse_end hchunks hending (staysIn_ret hinside))
  | cons data rest ih =>
    obtain ⟨hfits, hrest⟩ := List.forall_mem_cons.mp hfit
    have hpos : 0 < data.length := hstays.elim (fun hnone => hnone.1.noStatus.length_pos)
      fun ⟨_, _, hline, _⟩ => hline.length_pos
    refine hgoal.turn _ _ _ _ (hgoal.readResponse hchunks hpos hfits hbufsz fun mem hmem => ?_)
    rcases hstays with ⟨hnone, hlater⟩ | ⟨code, text, hline, hinfo, hrefused, hheader⟩
    · exact hgoal.response_logged hnone hmem (ih hlater hrest rfl hending hbufsz hinside)
    · refine hgoal.response_line hline hmem ?_ ?_ ?_
      · exact fun hcode mem => ih (hinfo hcode) hrest rfl hending hbufsz hinside
      · intro hnotInfo hnotSuccess mem
        refine hgoal.store ?_ (staysIn_ret hinside)
        dsimp only
        rw [hbufsz]
        exact hrefused hnotInfo hnotSuccess
      · exact fun hsuccess mem pos hhead => (hheader hsuccess).staysIn hhead rfl hending hinside
          jobid fun _ _ hafter => staysIn_ret hafter

theorem leaves_turn (jobid : Int) (hleaves : ¬ StaysInside chunks)
    (hreads : ∀ data ∈ chunks, 0 < data.length ∧ data.length ≤ iobufsz)
    (hchunks : state.chunks = chunks) (hbufsz : state.bufsz = iobufsz) :
    Leaves (.loop (readResponse jobid) iobufsz .ret) state := by
  have hgoal := @forward_leaves Bool
  induction chunks generalizing state with
  | nil => exact absurd trivial hleaves
  | cons data rest ih =>
    obtain ⟨⟨hpos, hfits⟩, hrest⟩ := List.forall_mem_cons.mp hreads
    obtain ⟨hnone, hline⟩ := not_or.mp hleaves
    refine hgoal.turn _ _ _ _ (hgoal.readResponse hchunks hpos hfits hbufsz fun mem hmem => ?_)
    by_cases hcode : NoStatus data
    · by_cases hformat : formatEnds false data = true
      · exact hgoal.response_logged ⟨hcode, hformat⟩ hmem
          (ih (not_and.mp hnone ⟨hcode, hformat⟩) hrest rfl hbufsz)
      · refine hgoal.response_noStatus hcode hmem (leaves_log hmem.holds ?_ ?_)
        · exact Bool.eq_false_of_not_eq_true hformat
        · rw [hmem.datsz, Nat.zero_add]
    by_cases hwhole : ∃ code text, HasStatusLine data code text
    · obtain ⟨code, text, hwhole⟩ := hwhole
      have hbad := not_and.mp (not_exists.mp (not_exists.mp hline code) text) hwhole
      refine hgoal.response_line hwhole hmem ?_ ?_ ?_
      · intro hinfo mem
        exact ih (fun hlater => hbad ⟨fun _ => hlater, fun hnot => absurd hinfo hnot,
          fun hsuccess => absurd hsuccess (not_isSuccess_of_isInfo hinfo)⟩) hrest rfl hbufsz
      · intro hnotInfo hnotSuccess mem
        refine leaves_store fun hlt => hbad ⟨fun hinfo => absurd hinfo hnotInfo, ?_,
          fun hsuccess => absurd hsuccess hnotSuccess⟩
        dsimp only at hlt
        rw [hbufsz] at hlt
        exact fun _ _ => hlt
      · intro hsuccess mem pos hhead
        have hinfo : ¬ isInfo code := fun hinfo => not_isSuccess_of_isInfo hinfo hsuccess
        exact leaves_checkResponse (fun hheader => hbad ⟨fun hcode => absurd hcode hinfo,
          fun _ hnot => absurd hsuccess hnot, fun _ => hheader⟩)
          (fun chunk hchunk => (hrest chunk hchunk).1) hhead rfl rfl jobid
    · exact leaves_response hcode (fun code text hwhole' => hwhole ⟨code, text, hwhole'⟩) hmem

/-- Every access of `printer_status` is inside the data and the buffer exactly when the
reads are cut in this way. -/
theorem printerStatus_inside_iff (jobid : Int) (mem : Nat → Byte) {chunks : List Bytes}
    {ending : Int} (hreads : ∀ data ∈ chunks, 0 < data.length ∧ data.length ≤ iobufsz)
    (hending : ending ≤ 0) :
    (∀ steps, (advance channel steps (printerStatus jobid)
      (.start mem chunks ending)).inside = true) ↔ StaysInside chunks := by
  constructor
  · intro hstays
    by_contra hleaves
    obtain ⟨steps, hsteps⟩ := leaves_turn jobid hleaves hreads
      (show (Channel.start mem chunks ending).chunks = chunks from rfl) rfl
    exact absurd ((hstays steps).symm.trans hsteps) (by decide)
  · intro hstays
    exact staysInside_turn jobid hstays (fun data hdata => (hreads data hdata).2)
      (show (Channel.start mem chunks ending).chunks = chunks from rfl) hending rfl rfl

theorem staysInside_samples : StaysInside [badResponse, goResponse.text, okResponse.text] := by
  refine .inl ⟨badResponse_logged, .inr ⟨_, _, goResponse.statusLine, fun _ => ?_,
    fun _ _ => by decide +kernel, ?_⟩⟩
  · obtain ⟨digits, hlen, tail, hfield, htail⟩ := HttpResponse.header okResponse_hasLength
    refine .inr ⟨_, _, okResponse.statusLine, fun _ => trivial, fun _ _ => by decide +kernel,
      fun _ => ⟨_, tail, hfield, fun _ => rfl, fun body hbody => ⟨fun _ => rfl, fun _ => ?_⟩⟩⟩
    refine ⟨fun _ => rfl, fun hle => ?_⟩
    rw [hlen, show okResponse.body.length = 8 from rfl] at hle
    omega
  · exact fun hcode => absurd hcode (by decide +kernel)

theorem printerStatus_inside_sample :
    StaysInside [badResponse, goResponse.text, okResponse.text] ∧
    ∀ steps, (advance channel steps (printerStatus 7)
      (.start (fun _ => 0) [badResponse, goResponse.text, okResponse.text] 0)).inside = true :=
  ⟨staysInside_samples, (printerStatus_inside_iff 7 (fun _ => 0) (by decide +kernel)
    (Int.le_refl 0)).mpr staysInside_samples⟩

/-- When the body arrives in a second read, the bytes of the header are counted
twice. -/
theorem second_read_outside :
    ¬ ∀ steps, (advance channel steps (printerStatus 7) (.start (fun _ => 0)
      [okResponse.text.take 38, okResponse.text.drop 38] 0)).inside = true := by
  intro hstays
  exact absurd (hstays 400) (by decide +kernel)

end ApueFormal.Printer
