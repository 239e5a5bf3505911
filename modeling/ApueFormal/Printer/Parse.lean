import ApueFormal.Printer.Status

/-!
# Scans over received data

Each scan of `printer_status` over bytes that have been received moves the pointer
behind them and changes nothing else.
-/

namespace ApueFormal.Printer

open Libc Program

def Holds (mem : Nat → Byte) : Nat → Bytes → Prop
  | _, [] => True
  | pos, byte :: rest => mem pos = byte ∧ Holds mem (pos + 1) rest

variable {text pattern : Bytes} {byte : Byte}

theorem add_length_cons (pos : Nat) (byte : Byte) (rest : Bytes) :
    pos + (byte :: rest).length = pos + 1 + rest.length := by
  rw [List.length_cons, Nat.add_assoc, Nat.add_comm 1]

theorem holds_append {mem : Nat → Byte} {pos : Nat} {more : Bytes} :
    Holds mem pos (text ++ more) ↔ Holds mem pos text ∧ Holds mem (pos + text.length) more := by
  induction text generalizing pos with
  | nil => simp [Holds]
  | cons byte rest ih =>
    rw [List.cons_append, Holds, Holds, ih, and_assoc, add_length_cons]

theorem Holds.fill_outside {mem : Nat → Byte} {pos : Nat} (hholds : Holds mem pos text)
    {index : Nat} {bytes : Bytes}
    (houtside : index + bytes.length ≤ pos ∨ pos + text.length ≤ index) :
    Holds (fill mem index bytes) pos text := by
  induction text generalizing pos with
  | nil => trivial
  | cons byte rest ih =>
    rw [List.length_cons] at houtside
    refine ⟨?_, ih hholds.2 (by omega)⟩
    rw [← hholds.1, fill]
    split
    · rw [List.getD_eq_getElem?_getD, List.getElem?_eq_none (by omega)]
      rfl
    · rfl

theorem holds_fill (mem : Nat → Byte) (pos : Nat) (bytes : Bytes) :
    Holds (fill mem pos bytes) pos bytes := by
  suffices hsuffix : ∀ front back, bytes = front ++ back →
      Holds (fill mem pos bytes) (pos + front.length) back from hsuffix [] bytes rfl
  intro front back hsplit
  induction back generalizing front with
  | nil => trivial
  | cons byte rest ih =>
    refine ⟨?_, ?_⟩
    · rw [fill, if_pos (Nat.le_add_right ..), Nat.add_sub_cancel_left, hsplit]
      simp
    · have hnext := ih (front ++ [byte]) (by simp [hsplit])
      rwa [List.length_append, ← Nat.add_assoc] at hnext

theorem fill_self (mem : Nat → Byte) (index : Nat) (byte : Byte) :
    fill mem index [byte] index = byte :=
  (holds_fill mem index [byte]).1

theorem fill_of_ne (mem : Nat → Byte) {index other : Nat} (hne : other ≠ index) (byte : Byte) :
    fill mem index [byte] other = mem other := by
  have hholds : Holds mem other [mem other] := ⟨rfl, trivial⟩
  refine (hholds.fill_outside ?_).1
  rw [List.length_singleton, List.length_singleton]
  omega

/-- A text followed by another nowhere starts with something bad. -/
def Avoids (bad : Bytes → Prop) : Bytes → Bytes → Prop
  | [], _ => True
  | byte :: rest, more => ¬ bad (byte :: rest ++ more) ∧ Avoids bad rest more

instance decidableAvoids (bad : Bytes → Prop) [DecidablePred bad] :
    (text more : Bytes) → Decidable (Avoids bad text more)
  | [], _ => isTrue trivial
  | _ :: rest, more => @instDecidableAnd _ _ _ (decidableAvoids bad rest more)

theorem avoids_append {bad : Bytes → Prop} {rest more : Bytes} :
    Avoids bad (text ++ rest) more ↔ Avoids bad text (rest ++ more) ∧ Avoids bad rest more := by
  induction text with
  | nil => simp [Avoids]
  | cons byte text ih =>
    rw [List.cons_append, Avoids, Avoids, ih, and_assoc, ← List.append_assoc]
    rfl

def Matches (pattern text : Bytes) : Prop := (text.take pattern.length).map tolower = pattern

instance (pattern : Bytes) : DecidablePred (Matches pattern) :=
  fun _ => inferInstanceAs (Decidable (_ = _))

theorem matches_cons {char : Byte} :
    Matches (char :: pattern) (byte :: text) ↔ tolower byte = char ∧ Matches pattern text := by
  simp [Matches]

/-- A text has the letters of a pattern as far as it goes. -/
def Begins (pattern text : Bytes) : Prop :=
  (text.take pattern.length).map tolower <+: pattern

theorem begins_cons {char : Byte} :
    Begins (char :: pattern) (byte :: text) ↔ tolower byte = char ∧ Begins pattern text := by
  simp [Begins, List.cons_prefix_cons]

theorem begins_iff_matches (hlong : pattern.length ≤ text.length) :
    Begins pattern text ↔ Matches pattern text := by
  constructor
  · intro hbegins
    apply hbegins.eq_of_length
    rw [List.length_map, List.length_take, Nat.min_eq_left hlong]
  · intro hmatches
    exact ⟨[], (List.append_nil _).trans hmatches⟩

theorem length_contentLength : contentLength.length = 15 := by decide +kernel

theorem avoids_begins {before name : Bytes} (hbefore : Avoids (Matches contentLength) before name)
    (hname : name.length = 15) : Avoids (Begins contentLength) before name := by
  induction before with
  | nil => trivial
  | cons byte before ih =>
    refine ⟨fun hbegins => hbefore.1 ?_, ih hbefore.2⟩
    refine (begins_iff_matches ?_).mp hbegins
    rw [List.length_append, hname, length_contentLength]
    omega

theorem eq_c_of_tolower (hlower : tolower byte = 99) : byte = 67 ∨ byte = 99 := by
  unfold tolower at hlower
  split at hlower
  · left
    apply UInt8.toNat_inj.mp
    have hsum := congrArg UInt8.toNat hlower
    have hlt := UInt8.toNat_lt byte
    rw [UInt8.toNat_add] at hsum
    have h32 : (32 : UInt8).toNat = 32 := rfl
    have h99 : (99 : UInt8).toNat = 99 := rfl
    have h67 : (67 : UInt8).toNat = 67 := rfl
    omega
  · exact .inr hlower

theorem head_of_begins (hbegins : Begins contentLength (byte :: text)) : byte = 67 ∨ byte = 99 := by
  have hpattern : contentLength = 99 :: contentLength.tail := by decide +kernel
  rw [hpattern, begins_cons] at hbegins
  exact eq_c_of_tolower hbegins.1

theorem head_of_matches (hmatches : Matches contentLength text) :
    text.head? = some 67 ∨ text.head? = some 99 := by
  cases text with
  | nil => exact absurd hmatches (by decide +kernel)
  | cons byte text =>
    have hpattern : contentLength = 99 :: contentLength.tail := by decide +kernel
    rw [hpattern, matches_cons] at hmatches
    exact (eq_c_of_tolower hmatches.1).imp (congrArg some) (congrArg some)

theorem split_at_c (text : Bytes) :
    (∀ byte ∈ text, byte ≠ 67 ∧ byte ≠ 99) ∨ ∃ plain byte rest, text = plain ++ byte :: rest ∧
        (∀ byte ∈ plain, byte ≠ 67 ∧ byte ≠ 99) ∧ (byte = 67 ∨ byte = 99) := by
  induction text with
  | nil => exact .inl (List.forall_mem_nil _)
  | cons byte text ih =>
    by_cases hbyte : byte = 67 ∨ byte = 99
    · exact .inr ⟨[], byte, text, rfl, List.forall_mem_nil _, hbyte⟩
    · rw [not_or] at hbyte
      rcases ih with hplain | ⟨plain, other, rest, rfl, hplain, hother⟩
      · exact .inl (List.forall_mem_cons.mpr ⟨hbyte, hplain⟩)
      · exact .inr ⟨byte :: plain, other, rest, rfl,
          List.forall_mem_cons.mpr ⟨hbyte, hplain⟩, hother⟩

def blankLine : Bytes := [10, 13, 10]

/-- The variables with the pointer and the index at a position. -/
def Cursor.at (vars : Cursor) (pos : Nat) : Cursor := { vars with cp := pos, i := pos }

theorem getMoreIf_false (vars : Cursor) {need : Prop} [Decidable need] (hneed : ¬ need) :
    getMoreIf (decide need) vars = .ret (some vars) := by
  rw [decide_eq_false hneed]
  rfl

/-- Blanks and a number, up to the byte behind it. -/
def Number (gap digits : Bytes) (mark : Byte) : Prop :=
  (∀ byte ∈ gap, isSpace byte = true) ∧ (∀ byte ∈ digits, isDigit byte = true) ∧
    isDigit mark = false ∧ (digits = [] → isSpace mark = false)

variable {α : Type}

theorem findLength_bind (vars : Cursor) (next : Option (Cursor × Int) → StatusProg α) :
    (findLength vars).bind next = .loop lengthTurn vars next := rfl

/-- What holds of a program in a state because it holds after the next step: that
it stops with a certain outcome, or that it never stops. -/
structure Forward {α : Type} (goal : StatusProg α → Channel → Prop) : Prop where
  step : ∀ (op : Access) (next : accessSig.Answer op → StatusProg α) (state : Channel),
    goal (next (channel op state).1) (channel op state).2 → goal (.call op next) state
  turn : ∀ {σ τ : Type} (body : σ → StatusProg (σ ⊕ τ)) (start : σ) (next : τ → StatusProg α)
    (state : Channel), goal (Prog.unroll body start next) state → goal (.loop body start next) state

theorem forward_runs (post : α → Channel → Prop) :
    Forward fun program state => ∃ value final,
      Runs channel program state (.ok value) final ∧ post value final where
  step := fun _ _ _ ⟨value, final, hruns, hpost⟩ => ⟨value, final, .call hruns, hpost⟩
  turn := fun _ _ _ _ ⟨value, final, hruns, hpost⟩ => ⟨value, final, .loop hruns, hpost⟩

theorem forward_returns : Forward fun (program : StatusProg α) state =>
      ∃ value final, Runs channel program state (.ok value) final where
  step := fun _ _ _ ⟨value, final, hruns⟩ => ⟨value, final, .call hruns⟩
  turn := fun _ _ _ _ ⟨value, final, hruns⟩ => ⟨value, final, .loop hruns⟩

/-- The program never stops. -/
theorem forward_diverges : Forward fun (program : StatusProg α) state =>
      ∀ outcome final, ¬ Runs channel program state outcome final where
  step := by
    rintro op next state hnever outcome final ⟨fuel, hrun⟩
    cases fuel with
    | zero => cases hrun
    | succ fuel => exact hnever outcome final ⟨fuel, hrun⟩
  turn := by
    rintro σ τ body start next state hnever outcome final ⟨fuel, hrun⟩
    cases fuel with
    | zero => cases hrun
    | succ fuel => exact hnever outcome final ⟨fuel, hrun⟩

namespace Forward

variable {goal : StatusProg α → Channel → Prop} {state : Channel} {vars : Cursor} {cp pos : Nat}
  {gap digits : Bytes} {mark : Byte} (hgoal : Forward goal)

include hgoal

protected theorem op {op : Access} {next : accessSig.Answer op → StatusProg α} {after : Channel}
    {answer : accessSig.Answer op} (hop : channel op state = (answer, after))
    (hnext : goal (next answer) after) :
    goal ((@Prog.op accessSig Undefined op).bind next) state := by
  apply hgoal.step op next state
  rw [hop]
  exact hnext

protected theorem load {index : Nat} {next : Byte → StatusProg α} (hindex : index < state.datsz)
    (hnext : goal (next (state.mem index)) state) :
    goal ((load index).bind next) state := by
  refine hgoal.op ?_ hnext
  simp [channel, hindex]

protected theorem store {index : Nat} {byte : Byte} {next : Unit → StatusProg α}
    (hindex : index < state.bufsz)
    (hnext : goal (next ()) { state with mem := fill state.mem index [byte] }) :
    goal ((store index byte).bind next) state := by
  refine hgoal.op ?_ hnext
  simp [channel, hindex]

protected theorem setDatsz {value : Nat} {next : Unit → StatusProg α}
    (hvalue : value = state.received) (hbufsz : value ≤ state.bufsz)
    (hnext : goal (next ()) { state with datsz := value }) :
    goal ((setDatsz value).bind next) state := by
  refine hgoal.op ?_ hnext
  rw [channel, decide_eq_true ⟨hvalue, hbufsz⟩, Bool.and_true]

protected theorem tread_end {off len : Nat} {next : Int → StatusProg α}
    (hchunks : state.chunks = []) (hnext : goal (next state.ending) state) :
    goal ((tread off len).bind next) state := by
  refine hgoal.op ?_ hnext
  simp [channel, hchunks]

protected theorem tread_start {len : Nat} {next : Int → StatusProg α} {chunk : Bytes}
    {rest : List Bytes} (hchunks : state.chunks = chunk :: rest) (hlen : chunk.length ≤ len)
    (hnext : goal (next chunk.length) { state with
      mem := fill state.mem 0 chunk
      chunks := rest
      received := chunk.length }) :
    goal ((tread 0 len).bind next) state := by
  refine hgoal.op ?_ hnext
  simp [channel, hchunks, leftover, hlen, List.take_of_length_le hlen]

protected theorem loop_load {σ τ : Type} {index : σ → Nat} {step : σ → Byte → StatusProg (σ ⊕ τ)}
    {start : σ} {next : τ → StatusProg α} (hindex : index start < state.datsz)
    (hnext : goal ((step start (state.mem (index start))).bind
      (Prog.resume (fun place => (load (index place)).bind (step place)) next)) state) :
    goal (.loop (fun place => (load (index place)).bind (step place)) start next) state := by
  refine hgoal.turn _ _ _ _ ?_
  rw [Prog.unroll, Prog.bind_assoc]
  exact hgoal.load hindex hnext

protected theorem skip {test : Byte → Bool} {next : Nat → StatusProg α}
    (htext : Holds state.mem cp text) (htest : ∀ byte ∈ text, test byte = true)
    (hstop : test (state.mem (cp + text.length)) = false) (hinside : cp + text.length < state.datsz)
    (hnext : goal (next (cp + text.length)) state) :
    goal ((skip test cp).bind next) state := by
  induction text generalizing cp with
  | nil =>
    refine hgoal.loop_load hinside ?_
    rw [List.length_nil, Nat.add_zero] at hstop
    rw [hstop]
    exact hnext
  | cons byte rest ih =>
    rw [add_length_cons] at hstop hinside hnext
    obtain ⟨hbyte, hrest⟩ := List.forall_mem_cons.mp htest
    refine hgoal.loop_load (by omega) ?_
    rw [htext.1, hbyte]
    exact ih htext.2 hrest hstop hinside hnext

protected theorem digits_from {got : Bytes} {next : Bytes → StatusProg α}
    (htext : Holds state.mem cp text) (hdigits : ∀ byte ∈ text, isDigit byte = true)
    (hstop : isDigit (state.mem (cp + text.length)) = false)
    (hinside : cp + text.length < state.datsz) (hnext : goal (next (got ++ text)) state) :
    goal (.loop (fun (read : Nat × Bytes) => (load read.1).bind fun byte =>
      .ret (if isDigit byte then Sum.inl (read.1 + 1, read.2 ++ [byte]) else Sum.inr read.2))
      (cp, got) next) state := by
  induction text generalizing cp got with
  | nil =>
    refine hgoal.loop_load hinside ?_
    rw [List.length_nil, Nat.add_zero] at hstop
    rw [List.append_nil] at hnext
    rw [hstop]
    exact hnext
  | cons byte rest ih =>
    rw [add_length_cons] at hstop hinside
    rw [List.append_cons] at hnext
    obtain ⟨hbyte, hrest⟩ := List.forall_mem_cons.mp hdigits
    refine hgoal.loop_load (by dsimp only; omega) ?_
    rw [htext.1, hbyte]
    exact ih htext.2 hrest hstop hinside hnext

protected theorem digitsAt {next : Bytes → StatusProg α} (htext : Holds state.mem cp text)
    (hdigits : ∀ byte ∈ text, isDigit byte = true)
    (hstop : isDigit (state.mem (cp + text.length)) = false)
    (hinside : cp + text.length < state.datsz) (hnext : goal (next text) state) :
    goal ((digitsAt cp).bind next) state :=
  hgoal.digits_from htext hdigits hstop hinside hnext

/-- A format that ends in the data has been printed. -/
protected theorem log_from {percent : Bool} {next : Unit → StatusProg α}
    (htext : Holds state.mem cp text) (hformat : formatEnds percent text = true)
    (hinside : cp + text.length ≤ state.datsz) (hnext : goal (next ()) state) :
    goal (.loop logStep (cp, percent) next) state := by
  induction text generalizing cp percent with
  | nil =>
    rw [formatEnds] at hformat
    cases hformat
  | cons byte rest ih =>
    rw [add_length_cons] at hinside
    refine hgoal.turn _ _ _ _ ?_
    rw [Prog.unroll, logStep, Prog.bind_assoc]
    refine hgoal.load (by omega) ?_
    rw [htext.1]
    cases percent with
    | true =>
      obtain ⟨hbyte, hrest⟩ := Bool.and_eq_true_iff.mp hformat
      rw [if_pos rfl, if_pos (eq_of_beq hbyte)]
      exact ih htext.2 hrest hinside
    | false =>
      rw [if_neg Bool.false_ne_true]
      by_cases hzero : byte = 0
      · rw [if_pos hzero]
        exact hnext
      · rw [if_neg hzero]
        have hrest := (Bool.or_eq_true_iff.mp hformat).resolve_left fun h => hzero (eq_of_beq h)
        exact ih htext.2 hrest hinside

protected theorem strncasecmp {next : Bool → StatusProg α} (htext : Holds state.mem cp text)
    (hlong : pattern.length ≤ text.length) (hinside : cp + text.length ≤ state.datsz)
    (hnext : goal (next (decide (Matches pattern text))) state) :
    goal ((strncasecmp cp pattern).bind next) state := by
  induction pattern generalizing cp text with
  | nil => simpa [strncasecmp, Matches] using hnext
  | cons char pattern ih =>
    cases text with
    | nil => exact absurd hlong (Nat.not_succ_le_zero _)
    | cons byte text =>
      simp only [List.length_cons] at hlong hinside
      rw [strncasecmp, Prog.bind_assoc]
      refine hgoal.load (by omega) ?_
      rw [htext.1]
      split
      · rename_i hchar
        refine ih htext.2 (by omega) (by omega) ?_
        simpa [matches_cons, hchar] using hnext
      · rename_i hchar
        simpa [matches_cons, hchar] using hnext

/-! ## The length of the body -/

protected theorem skipToC_over {next : Cursor → StatusProg α} (htext : Holds state.mem pos text)
    (hplain : ∀ byte ∈ text, byte ≠ 67 ∧ byte ≠ 99) (hdatsz : vars.datsz = state.datsz)
    (hinside : pos + text.length ≤ state.datsz)
    (hnext : goal ((skipToC (vars.at (pos + text.length))).bind next) state) :
    goal ((skipToC (vars.at pos)).bind next) state := by
  induction text generalizing pos with
  | nil => exact hnext
  | cons byte rest ih =>
    rw [add_length_cons] at hinside hnext
    obtain ⟨hbyte, hrest⟩ := List.forall_mem_cons.mp hplain
    refine hgoal.loop_load (by dsimp only [Cursor.at]; omega) ?_
    rw [if_pos]
    · exact ih htext.2 hrest hinside hnext
    · rw [show (vars.at pos).cp = pos from rfl, htext.1]
      exact ⟨hbyte.1, hbyte.2, by dsimp only [Cursor.at]; omega⟩

protected theorem skipToC {next : Cursor → StatusProg α} (htext : Holds state.mem pos text)
    (hplain : ∀ byte ∈ text, byte ≠ 67 ∧ byte ≠ 99)
    (hstop : state.mem (pos + text.length) = 67 ∨ state.mem (pos + text.length) = 99)
    (hdatsz : vars.datsz = state.datsz) (hinside : pos + text.length < state.datsz)
    (hnext : goal (next (vars.at (pos + text.length))) state) :
    goal ((skipToC (vars.at pos)).bind next) state := by
  refine hgoal.skipToC_over htext hplain hdatsz (Nat.le_of_lt hinside) ?_
  refine hgoal.loop_load hinside ?_
  rw [if_neg]
  · exact hnext
  · rintro ⟨hupper, hlower, _⟩
    exact hstop.elim hupper hlower

protected theorem skipToC_end {next : Cursor → StatusProg α} (htext : Holds state.mem pos text)
    (hplain : ∀ byte ∈ text, byte ≠ 67 ∧ byte ≠ 99) (hdatsz : vars.datsz = state.datsz)
    (hend : pos + text.length = state.datsz)
    (hnext : goal (next (vars.at state.datsz)) { state with inside := false }) :
    goal ((skipToC (vars.at pos)).bind next) state := by
  refine hgoal.skipToC_over htext hplain hdatsz (Nat.le_of_eq hend) ?_
  rw [hend]
  refine hgoal.turn _ _ _ _ ?_
  rw [Prog.unroll, Prog.bind_assoc]
  refine @Forward.op _ _ _ hgoal (.load state.datsz) _ { state with inside := false }
    (state.mem state.datsz) ?_ ?_
  · rw [channel, decide_eq_false (Nat.lt_irrefl _), Bool.and_false]
  · rw [if_neg]
    · exact hnext
    · rintro ⟨_, _, hlt⟩
      exact absurd hlt (by rw [← hdatsz]; exact Nat.lt_irrefl _)

/-- The number of the header: blanks, digits and a byte behind them. -/
protected theorem lengthValue {stop : Nat} {next : Cursor × Int → StatusProg α}
    (htext : Holds state.mem (pos + 15) (gap ++ (digits ++ [mark])))
    (hnumber : Number gap digits mark) (hstop : pos + 15 + gap.length + digits.length = stop)
    (hinside : stop < state.datsz) (hbufsz : stop < state.bufsz)
    (hnext : goal (next (vars.at (stop + 1), atoi digits))
      { state with mem := fill state.mem stop [0] }) :
    goal ((lengthValue (vars.at pos)).bind next) state := by
  obtain ⟨hgap, hdigits, hmark, hspace⟩ := hnumber
  subst hstop
  rw [holds_append, holds_append] at htext
  obtain ⟨hgapText, hdigitsText, hmarkText, _⟩ := htext
  have hstop : isSpace (state.mem (pos + 15 + gap.length)) = false := by
    cases digits with
    | nil =>
      rw [List.length_nil, Nat.add_zero] at hmarkText
      rw [hmarkText]
      exact hspace rfl
    | cons first others =>
      rw [hdigitsText.1]
      exact isSpace_of_isDigit (hdigits first List.mem_cons_self)
  unfold lengthValue
  simp only [Prog.bind_assoc, length_contentLength]
  refine hgoal.skip hgapText hgap hstop (by dsimp only [Cursor.at]; omega) ?_
  refine hgoal.skip hdigitsText hdigits ?_ (by dsimp only [Cursor.at]; omega) ?_
  · rw [show (vars.at pos).cp = pos from rfl, hmarkText]
    exact hmark
  · refine hgoal.store (by dsimp only [Cursor.at]; omega) ?_
    refine hgoal.digitsAt (hdigitsText.fill_outside (.inr (Nat.le_refl _))) hdigits ?_
      (by dsimp only [Cursor.at]; omega) hnext
    exact congrArg isDigit (fill_self ..)

/-- A text that differs from a pattern is told from it before its end. -/
protected theorem strncasecmp_miss {next : Bool → StatusProg α} (htext : Holds state.mem cp text)
    (hmiss : ¬ Begins pattern text) (hinside : cp + text.length ≤ state.datsz)
    (hnext : goal (next false) state) :
    goal ((strncasecmp cp pattern).bind next) state := by
  induction pattern generalizing cp text with
  | nil => exact absurd (List.prefix_refl _) hmiss
  | cons char pattern ih =>
    cases text with
    | nil => exact absurd List.nil_prefix hmiss
    | cons byte text =>
      rw [begins_cons, not_and] at hmiss
      rw [List.length_cons] at hinside
      rw [strncasecmp, Prog.bind_assoc]
      refine hgoal.load (by omega) ?_
      rw [htext.1]
      split
      · rename_i hchar
        exact ih htext.2 (hmiss hchar) (by omega)
      · exact hnext

protected theorem compareLength_miss {next : Cursor ⊕ Option (Cursor × Int) → StatusProg α}
    (htext : Holds state.mem pos text) (hmiss : ¬ Begins contentLength text)
    (hinside : pos + text.length ≤ state.datsz)
    (hnext : goal (next (.inl (vars.at (pos + 1)))) state) :
    goal ((compareLength (vars.at pos)).bind next) state := by
  unfold compareLength
  rw [Prog.bind_assoc]
  refine hgoal.strncasecmp_miss htext hmiss hinside ?_
  rw [if_neg Bool.false_ne_true]
  exact hnext

protected theorem compareLength_found {name : Bytes} {stop : Nat}
    {next : Cursor ⊕ Option (Cursor × Int) → StatusProg α}
    (htext : Holds state.mem pos (name ++ (gap ++ (digits ++ [mark]))))
    (hname : name.length = 15 ∧ Matches contentLength name) (hnumber : Number gap digits mark)
    (hstop : pos + 15 + gap.length + digits.length = stop) (hinside : stop < state.datsz)
    (hbufsz : stop < state.bufsz)
    (hnext : goal (next (.inr (some (vars.at (stop + 1), atoi digits))))
      { state with mem := fill state.mem stop [0] }) :
    goal ((compareLength (vars.at pos)).bind next) state := by
  rw [holds_append, hname.1] at htext
  unfold compareLength
  rw [Prog.bind_assoc]
  refine hgoal.strncasecmp htext.1 ?_ (by rw [hname.1]; dsimp only [Cursor.at]; omega) ?_
  · rw [hname.1, length_contentLength]
  · rw [decide_eq_true hname.2, if_pos rfl, Prog.bind_assoc]
    exact hgoal.lengthValue htext.2 hnumber hstop hinside hbufsz hnext

protected theorem findLength_turn {plain : Bytes} {next : Option (Cursor × Int) → StatusProg α}
    (hskipped : Holds state.mem pos plain) (hplain : ∀ byte ∈ plain, byte ≠ 67 ∧ byte ≠ 99)
    (hc : state.mem (pos + plain.length) = 67 ∨ state.mem (pos + plain.length) = 99)
    (hdatsz : vars.datsz = state.datsz) (hinside : pos + plain.length < state.datsz)
    (hnext : goal ((compareLength (vars.at (pos + plain.length))).bind
      (Prog.resume lengthTurn next)) state) :
    goal ((findLength (vars.at pos)).bind next) state := by
  have hneed : ¬ (vars.at (pos + plain.length)).i ≥ (vars.at (pos + plain.length)).datsz := by
    dsimp only [Cursor.at]
    omega
  rw [findLength_bind]
  refine hgoal.turn _ _ _ _ ?_
  rw [Prog.unroll, lengthTurn, Prog.bind_assoc]
  refine hgoal.skipToC hskipped hplain hc hdatsz hinside ?_
  rw [getMoreIf_false _ hneed]
  exact hnext

/-- The search passes a text that does not look like the header, up to the last part
without a letter C. -/
protected theorem findLength_over {before more : Bytes}
    {next : Option (Cursor × Int) → StatusProg α} (htext : Holds state.mem pos (before ++ more))
    (hbefore : Avoids (Begins contentLength) before more) (hdatsz : vars.datsz = state.datsz)
    (hinside : pos + before.length + more.length ≤ state.datsz)
    (hlast : ∀ start plain, start + plain.length = pos + before.length →
      Holds state.mem start (plain ++ more) → (∀ byte ∈ plain, byte ≠ 67 ∧ byte ≠ 99) →
      goal ((findLength (vars.at start)).bind next) state) :
    goal ((findLength (vars.at pos)).bind next) state := by
  induction hlength : before.length using Nat.strongRecOn generalizing before pos with
  | ind length ih =>
    subst hlength
    rcases split_at_c before with hplain | ⟨plain, byte, rest, rfl, hplain, hbyte⟩
    · exact hlast pos before rfl htext hplain
    · have hsum : pos + (plain ++ byte :: rest).length =
          pos + plain.length + 1 + rest.length := by
        rw [List.length_append, List.length_cons]
        omega
      rw [hsum] at hinside hlast
      rw [List.append_assoc, holds_append] at htext
      obtain ⟨hplainText, hthere⟩ := htext
      have hlength : (byte :: rest ++ more).length = rest.length + 1 + more.length := by
        rw [List.length_append, List.length_cons]
      refine hgoal.findLength_turn hplainText hplain (hthere.1 ▸ hbyte) hdatsz (by omega) ?_
      refine hgoal.compareLength_miss hthere (avoids_append.mp hbefore).2.1 (by omega) ?_
      refine ih rest.length ?_ hthere.2 (avoids_append.mp hbefore).2.2 hinside hlast rfl
      rw [List.length_append, List.length_cons]
      omega

/-- The header `Content-Length` is found behind text that does not look like it. -/
protected theorem findLength {before name : Bytes} {stop : Nat}
    {next : Option (Cursor × Int) → StatusProg α}
    (htext : Holds state.mem pos (before ++ (name ++ (gap ++ (digits ++ [mark])))))
    (hbefore : Avoids (Matches contentLength) before name)
    (hname : name.length = 15 ∧ Matches contentLength name) (hnumber : Number gap digits mark)
    (hdatsz : vars.datsz = state.datsz)
    (hstop : pos + before.length + 15 + gap.length + digits.length = stop)
    (hinside : stop < state.datsz) (hbufsz : stop < state.bufsz)
    (hnext : goal (next (some (vars.at (stop + 1), atoi digits)))
      { state with mem := fill state.mem stop [0] }) :
    goal ((findLength (vars.at pos)).bind next) state := by
  have hnameText : Holds state.mem pos (before ++ name) := by
    rw [← List.append_assoc, holds_append] at htext
    exact htext.1
  refine hgoal.findLength_over hnameText (avoids_begins hbefore hname.1) hdatsz
    (by rw [hname.1]; omega) ?_
  intro start plain hsum hplainText hplain
  rw [holds_append] at htext hplainText
  rw [← hsum] at htext hstop
  have hletter : state.mem (start + plain.length) = 67 ∨ state.mem (start + plain.length) = 99 := by
    cases name with
    | nil => cases hname.1
    | cons first others =>
      rw [hplainText.2.1]
      exact (head_of_matches hname.2).imp Option.some.inj Option.some.inj
  refine hgoal.findLength_turn hplainText.1 hplain hletter hdatsz (by omega) ?_
  exact hgoal.compareLength_found htext.2 hname hnumber hstop hinside hbufsz hnext

/-! ## The end of the header -/

protected theorem blankLineAt {next : Bool → StatusProg α} (htext : Holds state.mem cp text)
    (hlong : 3 ≤ text.length) (hinside : cp + text.length ≤ state.datsz)
    (hnext : goal (next (decide (text.take 3 = blankLine))) state) :
    goal ((blankLineAt cp).bind next) state := by
  match text, hlong with
  | first :: second :: third :: rest, _ =>
    obtain ⟨hfirst, hsecond, hthird, _⟩ := htext
    simp only [List.length_cons] at hinside
    unfold blankLineAt
    rw [Prog.bind_assoc]
    refine hgoal.load (by omega) ?_
    rw [hfirst]
    split
    · rename_i hne
      simpa [blankLine, hne] using hnext
    · rename_i heq
      rw [Prog.bind_assoc]
      refine hgoal.load (by omega) ?_
      rw [hsecond]
      split
      · rename_i hne
        simpa [blankLine, hne] using hnext
      · rename_i heq'
        rw [Prog.bind_assoc]
        refine hgoal.load (by omega) ?_
        rw [hthird]
        simp only [ne_eq, not_not] at heq heq'
        subst heq heq'
        simpa [blankLine, beq_eq_decide] using hnext

/-- The end of the header is found when it has been received. -/
protected theorem scanHeader {between : Bytes} {next : Cursor × Bool → StatusProg α}
    (htext : Holds state.mem pos (between ++ blankLine))
    (hbetween : Avoids (fun text => text.take 3 = blankLine) between blankLine)
    (hdatsz : vars.datsz = state.datsz) (hinside : pos + between.length + 3 ≤ state.datsz)
    (hnext : goal (next (vars.at (pos + between.length + 3), true)) state) :
    goal ((scanHeader (vars.at pos)).bind next) state := by
  induction between generalizing pos with
  | nil =>
    rw [List.length_nil, Nat.add_zero] at hinside hnext
    refine hgoal.turn _ _ _ _ ?_
    rw [Prog.unroll, if_pos (by dsimp only [Cursor.at]; omega), Prog.bind_assoc]
    exact hgoal.blankLineAt htext (Nat.le_refl 3) hinside hnext
  | cons byte rest ih =>
    rw [add_length_cons] at hinside hnext
    have hlength : (byte :: rest ++ blankLine).length = rest.length + 1 + 3 := by
      rw [List.length_append, List.length_cons]
      rfl
    refine hgoal.turn _ _ _ _ ?_
    rw [Prog.unroll, if_pos (by dsimp only [Cursor.at]; omega), Prog.bind_assoc]
    refine hgoal.blankLineAt htext (by omega) (by dsimp only [Cursor.at]; omega) ?_
    rw [decide_eq_false hbetween.1]
    exact ih htext.2 hbetween.2 hinside hnext

protected theorem findEnd {between : Bytes} {stop : Nat} {next : Option Cursor → StatusProg α}
    (htext : Holds state.mem pos (between ++ blankLine))
    (hbetween : Avoids (fun text => text.take 3 = blankLine) between blankLine)
    (hdatsz : vars.datsz = state.datsz) (hstop : pos + between.length + 3 = stop)
    (hinside : stop ≤ state.datsz)
    (hnext : goal ((getMoreIf ((vars.at stop).i ≥ (vars.at stop).datsz) (vars.at stop)).bind next)
      state) :
    goal ((findEnd (vars.at pos)).bind next) state := by
  subst hstop
  refine hgoal.turn _ _ _ _ ?_
  rw [Prog.unroll, Prog.bind_assoc]
  refine hgoal.scanHeader htext hbetween hdatsz hinside ?_
  rw [Prog.bind_assoc]
  convert hnext using 2
  funext more
  cases more <;> rfl

end Forward

end ApueFormal.Printer
