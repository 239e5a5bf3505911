import ApueFormal.OpenServer.Request

/-!
# The arguments in a buffer

`buf_args` lets `strtok` put zero bytes behind the tokens of a buffer and collects
pointers to them in an array of `MAXARGC` entries.  The model keeps the buffer as bytes
and the pointers as offsets, so that what a pointer shows is read from the buffer as it
is when `optfunc` is called.
-/

namespace ApueFormal.OpenServer

open Libc

/-- The maximal nonempty runs of bytes that are not white space. -/
def words (text : Bytes) : List Bytes := (text.splitOnP white).filter fun word => word ≠ []
variable {lead word text token buf tail : Bytes} {ptr p : Nat} {byte : Byte}
  {argv : List (Option Nat)} {texts : List Bytes}

theorem words_white (hlead : ∀ byte ∈ lead, white byte = true) (text : Bytes) :
    words (lead ++ text) = words text := by
  induction lead with
  | nil => rfl
  | cons sep lead ih =>
    rw [List.forall_mem_cons] at hlead
    have hsplit := @List.splitOnP_append_cons_of_forall_mem _ white [] nofun sep hlead.1
      (lead ++ text)
    rw [List.nil_append] at hsplit
    rw [List.cons_append, words, hsplit, List.filter_cons_of_neg (by simp)]
    exact ih hlead.2

section

variable (hword : ∀ byte ∈ word, white byte = false) (hne : word ≠ [])
include hword hne

theorem words_single : words word = [word] := by
  rw [words, List.splitOnP_eq_singleton hword, List.filter_cons_of_pos (by simpa using hne)]
  rfl

theorem words_cons {sep : Byte} (hsep : white sep = true) (rest : Bytes) :
    words (word ++ sep :: rest) = word :: words rest := by
  rw [words, List.splitOnP_append_cons_of_forall_mem hword sep hsep,
    List.filter_cons_of_pos (by simpa using hne)]
  rfl

end

/-! ## One call of `strtok` -/

theorem strtok_eq_none : strtok text = none ↔ ∀ byte ∈ text, white byte = true := by
  rw [strtok]
  split
  · rename_i hnil
    simpa using hnil
  · rename_i byte rest hcons
    refine ⟨by rintro ⟨⟩, fun hall => ?_⟩
    rw [List.dropWhile_eq_nil_iff.mpr hall] at hcons
    cases hcons

theorem strtok_eq_some {rest : Bytes} (htoken : strtok text = some (token, rest)) :
    token ≠ [] ∧ (∀ byte ∈ token, white byte = false) ∧
      ((text = text.takeWhile white ++ token ∧ rest = []) ∨
        ∃ sep, white sep = true ∧ text = text.takeWhile white ++ token ++ sep :: rest) := by
  rw [strtok] at htoken
  split at htoken
  · cases htoken
  · rename_i byte tail htail
    have hhead : white byte = false := by
      have hnot := List.head?_dropWhile_not white text
      rw [htail] at hnot
      exact hnot
    have htext : text.takeWhile white ++ byte :: tail = text := by
      rw [← htail, List.takeWhile_append_dropWhile]
    have hsplit : (byte :: tail).takeWhile (fun byte => !white byte) ++
        (byte :: tail).dropWhile (fun byte => !white byte) = byte :: tail :=
      List.takeWhile_append_dropWhile
    cases htoken
    refine ⟨?_, ?_, ?_⟩
    · rw [List.takeWhile_cons_of_pos (by simp [hhead])]
      exact List.cons_ne_nil _ _
    · intro other hmem
      have hother := List.mem_takeWhile_imp hmem
      simpa using hother
    · cases hdrop : (byte :: tail).dropWhile fun byte => !white byte with
      | nil =>
        rw [hdrop, List.append_nil] at hsplit
        exact .inl ⟨by rw [hsplit, htext], rfl⟩
      | cons sep rest =>
        rw [hdrop] at hsplit
        have hsep := List.head?_dropWhile_not (fun byte => !white byte) (byte :: tail)
        rw [hdrop] at hsep
        refine .inr ⟨sep, by simpa using hsep, ?_⟩
        rw [List.append_assoc, List.drop_one, List.tail_cons, hsplit, htext]

theorem tokens_none (hnone : strtok text = none) : tokens text = [] := by
  rw [tokens.eq_def, hnone]

theorem tokens_some {rest : Bytes} (htoken : strtok text = some (token, rest)) :
    tokens text = token :: tokens rest := by
  rw [tokens.eq_def, htoken]

theorem mem_tokens (hmem : token ∈ tokens text) :
    token ≠ [] ∧ ∀ byte ∈ token, white byte = false := by
  induction text using tokens.induct with
  | case1 text hnone =>
    rw [tokens_none hnone] at hmem
    cases hmem
  | case2 text first rest htoken ih =>
    rw [tokens_some htoken] at hmem
    rcases List.mem_cons.mp hmem with rfl | hmem
    · obtain ⟨hne, hword, _⟩ := strtok_eq_some htoken
      exact ⟨hne, hword⟩
    · exact ih hmem

theorem tokens_eq_words (text : Bytes) : tokens text = words text := by
  induction text using tokens.induct with
  | case1 text hnone =>
    have hwords := words_white (strtok_eq_none.mp hnone) []
    rw [List.append_nil] at hwords
    rw [tokens_none hnone, hwords]
    rfl
  | case2 text token rest htoken ih =>
    have hlead : ∀ byte ∈ text.takeWhile white, white byte = true := fun byte hmem =>
      List.mem_takeWhile_imp hmem
    rw [tokens_some htoken]
    obtain ⟨hne, hword, ⟨htext, rfl⟩ | ⟨sep, hsep, htext⟩⟩ := strtok_eq_some htoken
    · rw [htext, words_white hlead, words_single hword hne, tokens_none rfl]
    · rw [htext, List.append_assoc, words_white hlead, words_cons hword hne hsep, ih]

/-! ## The code on the buffer -/

/-- The buffer, and the pointer that `strtok` keeps between its calls. -/
structure Strtok where
  buf : Bytes
  p : Option Nat

def strspn (text : Bytes) : Nat := (text.takeWhile white).length

def strcspn (text : Bytes) : Nat := (text.takeWhile fun byte => byte ≠ 0 && !white byte).length

/-- `strtok(s, WHITE)`: the token that is found, and what it leaves behind. -/
def Strtok.next (state : Strtok) (s : Option Nat) : Option Nat × Strtok :=
  match s.or state.p with
  | none => (none, state)
  | some s =>
    let start := s + strspn (state.buf.drop s)
    if state.buf.getD start 0 = 0 then (none, { state with p := none })
    else
      let stop := start + strcspn (state.buf.drop start)
      if state.buf.getD stop 0 = 0 then (some start, { state with p := none })
      else (some start, ⟨state.buf.set stop 0, some (stop + 1)⟩)

/-- An assignment to `argv[i]`; it fails outside the array. -/
def setArgv (argv : List (Option Nat)) (i : Nat) (ptr : Option Nat) : Option (List (Option Nat)) :=
  if i < maxargc then some (argv.set i ptr) else none

/-- The loop and what follows it: `argc`, `argv` and the buffer when `optfunc` is to be
called, and nothing when it is not. -/
def bufArgsWhile (state : Strtok) (argc : Nat) (argv : List (Option Nat)) :
    Option (Option (Nat × List (Option Nat) × Bytes)) :=
  match state.next none with
  | (none, state) =>
    (setArgv argv (argc + 1) none).map fun argv => some (argc + 1, argv, state.buf)
  | (some ptr, state) =>
    if argc + 1 ≥ maxargc - 1 then some none
    else
      (setArgv argv (argc + 1) (some ptr)).bind fun argv => bufArgsWhile state (argc + 1) argv
termination_by maxargc - argc
decreasing_by
  simp only [maxargc] at *
  omega

/-- A call of `optfunc`, with the strings that the pointers of `argv` show. -/
structure OptCall where
  argc : Nat
  argv : List (Option Bytes)
  deriving DecidableEq

/-- `buf_args` up to the call of `optfunc`.  The array is not initialised, and `strtok`
may have been used before. -/
def bufArgsCall (buf : Bytes) (p : Option Nat) (argv : List (Option Nat)) :
    Option (Option OptCall) :=
  match (Strtok.mk buf p).next (some 0) with
  | (none, _) => some none
  | (some _, state) =>
    (setArgv argv 0 (some 0)).bind fun argv =>
      (bufArgsWhile state 0 argv).map fun result =>
        result.map fun (argc, argv, buf) =>
          ⟨argc, argv.map fun ptr => ptr.map fun ptr => cstr (buf.drop ptr)⟩

/-- `buf_args`: what it returns, and the calls of `optfunc` that it makes. -/
def bufArgsRun {σ : Type} (buf : Bytes) (p : Option Nat) (argv : List (Option Nat))
    (optfunc : OptCall → σ → Int × σ) (globals : σ) : Option ((Int × σ) × List OptCall) :=
  (bufArgsCall buf p argv).map fun call =>
    match call with
    | none => ((-1, globals), [])
    | some call => (optfunc call globals, [call])

def Strtok.At (state : Strtok) (rest : Bytes) : Prop :=
  match state.p with
  | none => rest = []
  | some p => (0 : Byte) ∉ rest ∧ ∃ tail, state.buf.drop p = rest ++ 0 :: tail

/-- A pointer to a string that later calls of `strtok` leave alone. -/
def Strtok.Shows (state : Strtok) (ptr : Nat) (text : Bytes) : Prop :=
  (0 : Byte) ∉ text ∧ (∃ tail, state.buf.drop ptr = text ++ 0 :: tail) ∧
    ∀ p, state.p = some p → ptr + text.length < p

variable {state : Strtok} {rest : Bytes}

theorem Strtok.Shows.cstr_eq (hshows : state.Shows ptr text) :
    cstr (state.buf.drop ptr) = text := by
  obtain ⟨hnul, ⟨tail, hdrop⟩, _⟩ := hshows
  rw [hdrop, cstr_append_zero, cstr_of_noNul hnul]

/-- What a call does to the part of the buffer that was split before: nothing. -/
def Strtok.After (state state' : Strtok) : Prop :=
  ∀ ptr text, state.Shows ptr text → state'.Shows ptr text

theorem Strtok.after_end (state : Strtok) : state.After { state with p := none } :=
  fun _ _ hshows => ⟨hshows.1, hshows.2.1, nofun⟩

theorem Strtok.after_set {stop : Nat} (hp : state.p = some p) (hle : p ≤ stop) :
    state.After ⟨state.buf.set stop 0, some (stop + 1)⟩ := by
  rintro ptr text ⟨hnul, ⟨tail, hdrop⟩, hlimit⟩
  have hlt := hlimit p hp
  refine ⟨hnul, ⟨tail.set (stop - ptr - text.length - 1) 0, ?_⟩, ?_⟩
  · obtain ⟨count, hcount⟩ : ∃ count, stop = ptr + text.length + count + 1 :=
      ⟨stop - ptr - text.length - 1, by omega⟩
    have hindex : ptr + text.length + count + 1 - ptr - text.length = count + 1 := by omega
    have hcut : stop - ptr - text.length - 1 = count := by omega
    rw [List.drop_set, if_neg (by omega), hdrop, List.set_append_right _ _ (by omega), hcut, hcount,
      hindex, List.set_cons_succ]
  · rintro q ⟨⟩
    omega

/-! ## One call on the buffer -/

theorem getD_of_drop {i : Nat} (hdrop : buf.drop i = byte :: tail) : buf.getD i 0 = byte := by
  have hget : (buf.drop i)[0]? = some byte := by rw [hdrop]; rfl
  rw [List.getElem?_drop, Nat.add_zero] at hget
  rw [List.getD_eq_getElem?_getD, hget]
  rfl

theorem strspn_append (hlead : ∀ byte ∈ lead, white byte = true)
    (htext : text.head?.any white = false) : strspn (lead ++ text) = lead.length := by
  rw [strspn, List.takeWhile_append_of_pos hlead]
  cases text with
  | nil => rw [List.takeWhile_nil, List.append_nil]
  | cons byte rest =>
    have hbyte : ¬white byte = true := by simpa using htext
    rw [List.takeWhile_cons_of_neg hbyte, List.append_nil]

theorem strcspn_append (hword : ∀ byte ∈ word, white byte = false) (hnul : (0 : Byte) ∉ word)
    (hbyte : byte = 0 ∨ white byte = true) : strcspn (word ++ byte :: tail) = word.length := by
  rw [strcspn, List.takeWhile_append_of_pos, List.takeWhile_cons_of_neg, List.append_nil]
  · rcases hbyte with rfl | hwhite
    · simp
    · simp [hwhite]
  · intro other hmem
    have hne : other ≠ 0 := by
      rintro rfl
      exact hnul hmem
    simp [hword other hmem, hne]

theorem Strtok.next_none (hat : state.At rest) (hnone : strtok rest = none) :
    ∃ state', state.next none = (none, state') ∧ state'.buf = state.buf ∧ state.After state' := by
  obtain ⟨buf, p⟩ := state
  cases p with
  | none => exact ⟨⟨buf, none⟩, rfl, rfl, fun _ _ hshows => hshows⟩
  | some p =>
    obtain ⟨hnul, tail, hdrop⟩ := hat
    have hspan : strspn (buf.drop p) = rest.length := by
      simp only at hdrop
      rw [hdrop, strspn_append (strtok_eq_none.mp hnone) rfl]
    have hend : buf.drop (p + rest.length) = 0 :: tail := by
      rw [← List.drop_drop, hdrop, List.drop_left]
    refine ⟨⟨buf, none⟩, ?_, rfl, Strtok.after_end _⟩
    simp only [Strtok.next, Option.none_or, hspan, getD_of_drop hend, if_true]

theorem Strtok.next_eq (hdrop : buf.drop p = lead ++ (token ++ byte :: tail))
    (hlead : ∀ byte ∈ lead, white byte = true) (hne : token ≠ [])
    (hword : ∀ byte ∈ token, white byte = false) (hnul : (0 : Byte) ∉ token)
    (hbyte : byte = 0 ∨ white byte = true) :
    Strtok.next ⟨buf, some p⟩ none = (some (p + lead.length),
      if byte = 0 then ⟨buf, none⟩
      else ⟨buf.set (p + lead.length + token.length) 0,
        some (p + lead.length + token.length + 1)⟩) := by
  obtain ⟨first, others, rfl⟩ := List.exists_cons_of_ne_nil hne
  have hspan : strspn (buf.drop p) = lead.length := by
    rw [hdrop, strspn_append hlead]
    simpa using hword first List.mem_cons_self
  have hstart : buf.drop (p + lead.length) = first :: others ++ byte :: tail := by
    rw [← List.drop_drop, hdrop, List.drop_left]
  have hstop : buf.drop (p + lead.length + (first :: others).length) = byte :: tail := by
    rw [← List.drop_drop, hstart, List.drop_left]
  have hfirst : first ≠ 0 := fun heq => hnul (heq ▸ List.mem_cons_self)
  have hcspan : strcspn (buf.drop (p + lead.length)) = (first :: others).length := by
    rw [hstart, strcspn_append hword hnul hbyte]
  simp only [Strtok.next, Option.none_or, hspan, hcspan, getD_of_drop hstart, hfirst, if_false,
    getD_of_drop hstop]
  split <;> rfl

theorem Strtok.next_some (hp : state.p = some p) (hat : state.At rest) {rest' : Bytes}
    (htoken : strtok rest = some (token, rest')) :
    ∃ state', state.next none = (some (p + (rest.takeWhile white).length), state') ∧
      state'.At rest' ∧ state'.Shows p (rest.takeWhile white ++ token) ∧ state.After state' := by
  obtain ⟨buf, _⟩ := state
  subst hp
  obtain ⟨hnul, tail, hdrop⟩ := hat
  simp only at hdrop
  obtain ⟨hne, hword, hcases⟩ := strtok_eq_some htoken
  have hlead : ∀ byte ∈ rest.takeWhile white, white byte = true := fun byte hmem =>
    List.mem_takeWhile_imp hmem
  generalize rest.takeWhile white = lead at hcases hlead ⊢
  rcases hcases with ⟨rfl, rfl⟩ | ⟨sep, hsep, rfl⟩
  · -- The token ends with the buffer.
    have hnul' : (0 : Byte) ∉ token := fun hmem => hnul (List.mem_append_right _ hmem)
    refine ⟨_, Strtok.next_eq (hdrop.trans (List.append_assoc ..)) hlead hne hword hnul' (.inl rfl),
      ?_⟩
    rw [if_pos rfl]
    exact ⟨rfl, ⟨hnul, ⟨tail, hdrop⟩, nofun⟩, Strtok.after_end ⟨buf, some p⟩⟩
  · -- The byte behind the token is overwritten.
    rw [List.mem_append, List.mem_cons, not_or, not_or] at hnul
    obtain ⟨hnul, hzero, hrest⟩ := hnul
    have hnul' : (0 : Byte) ∉ token := fun hmem => hnul (List.mem_append_right _ hmem)
    have hdrop' : buf.drop p = lead ++ token ++ sep :: (rest' ++ 0 :: tail) := by
      rw [hdrop, List.append_assoc _ (sep :: rest'), List.cons_append]
    have hstop : p + lead.length + token.length = p + (lead ++ token).length := by
      rw [List.length_append, Nat.add_assoc]
    refine ⟨_, Strtok.next_eq (hdrop'.trans (List.append_assoc ..)) hlead hne hword hnul'
      (.inr hsep), ?_⟩
    rw [if_neg (Ne.symm hzero), hstop]
    refine ⟨⟨hrest, tail, ?_⟩, ⟨hnul, ⟨rest' ++ 0 :: tail, ?_⟩, ?_⟩, ?_⟩
    · simp only
      rw [List.drop_set, if_pos (Nat.lt_succ_self _), ← List.drop_drop, ← List.drop_drop, hdrop',
        List.drop_left, List.drop_one, List.tail_cons]
    · simp only
      rw [List.drop_set, if_neg (Nat.not_lt.mpr (Nat.le_add_right _ _)), hdrop',
        Nat.add_sub_cancel_left, List.set_append_right _ _ (Nat.le_refl _), Nat.sub_self]
      rfl
    · rintro q ⟨⟩
      exact Nat.lt_succ_self _
    · exact Strtok.after_set rfl (Nat.le_add_right _ _)

theorem Strtok.Shows.drop (hshows : state.Shows ptr (lead ++ text)) :
    state.Shows (ptr + lead.length) text := by
  obtain ⟨hnul, ⟨tail, hdrop⟩, hlimit⟩ := hshows
  refine ⟨fun hmem => hnul (List.mem_append_right _ hmem), ⟨tail, ?_⟩, fun p hp => ?_⟩
  · rw [← List.drop_drop, hdrop, List.append_assoc, List.drop_left]
  · have hlt := hlimit p hp
    rw [List.length_append] at hlt
    omega

theorem Strtok.At.exists_p (hat : state.At rest) {found : Bytes × Bytes}
    (htoken : strtok rest = some found) : ∃ p, state.p = some p := by
  obtain ⟨buf, p⟩ := state
  cases p with
  | none =>
    cases hat
    cases htoken
  | some p => exact ⟨p, rfl⟩

/-- The array shows the arguments that were found. -/
structure Collected (state : Strtok) (argv : List (Option Nat)) (texts : List Bytes) : Prop where
  size : argv.length = maxargc
  shows : ∀ (i : Nat) text, texts[i]? = some text → ∃ ptr, argv[i]? = some (some ptr) ∧
    state.Shows ptr text

theorem Collected.after {state' : Strtok} (hcollected : Collected state argv texts)
    (hafter : state.After state') : Collected state' argv texts := by
  refine ⟨hcollected.size, fun i text htext => ?_⟩
  obtain ⟨ptr, hptr, hshows⟩ := hcollected.shows i text htext
  exact ⟨ptr, hptr, hafter ptr text hshows⟩

theorem Collected.push (hcollected : Collected state argv texts) (hshows : state.Shows ptr text)
    (hlt : texts.length < maxargc) :
    Collected state (argv.set texts.length (some ptr)) (texts ++ [text]) := by
  refine ⟨by rw [List.length_set, hcollected.size], fun i other hother => ?_⟩
  rcases Nat.lt_or_ge i texts.length with hi | hi
  · rw [List.getElem?_append_left hi] at hother
    rw [List.getElem?_set_ne (Nat.ne_of_gt hi)]
    exact hcollected.shows i other hother
  · rw [List.getElem?_append_right hi] at hother
    have hindex := (List.getElem?_eq_some_iff.mp hother).1
    rw [List.length_singleton] at hindex
    have heq : i = texts.length := by omega
    subst heq
    rw [Nat.sub_self] at hother
    cases hother
    exact ⟨ptr, List.getElem?_set_self (by rw [hcollected.size]; exact hlt), hshows⟩

/-- What `optfunc` finds in the array. -/
structure Shown (buf : Bytes) (argv : List (Option Nat)) (texts : List Bytes) : Prop where
  shows : ∀ (i : Nat) text, texts[i]? = some text → ∃ ptr, argv[i]? = some (some ptr) ∧
    cstr (buf.drop ptr) = text
  null : argv[texts.length]? = some none

theorem bufArgsWhile_spec {argc : Nat} {argv : List (Option Nat)} {texts : List Bytes}
    (hat : state.At rest) (hcollected : Collected state argv texts)
    (hargc : texts.length = argc + 1) (hlt : argc < maxargc - 1) :
    (bufArgsLoop rest argc texts = none ∧ bufArgsWhile state argc argv = some none) ∨
      ∃ texts' argv' buf', bufArgsLoop rest argc texts = some texts' ∧
        bufArgsWhile state argc argv = some (some (texts'.length, argv', buf')) ∧
        Shown buf' argv' texts' := by
  induction rest, argc, texts using bufArgsLoop.induct generalizing state argv with
  | case1 rest argc texts hnone =>
    obtain ⟨state', hnext, hbuf, hafter⟩ := Strtok.next_none hat hnone
    have hin : argc + 1 < maxargc := by omega
    refine .inr ⟨texts, argv.set (argc + 1) none, state'.buf, ?_, ?_, ?_, ?_⟩
    · rw [bufArgsLoop.eq_def, hnone]
    · rw [bufArgsWhile, hnext]
      simp only
      rw [setArgv, if_pos hin, hargc]
      rfl
    · intro i text htext
      obtain ⟨ptr, hptr, hshows⟩ := (hcollected.after hafter).shows i text htext
      have hi : i < texts.length := (List.getElem?_eq_some_iff.mp htext).1
      refine ⟨ptr, ?_, hshows.cstr_eq⟩
      rw [List.getElem?_set_ne (by omega), hptr]
    · rw [hargc, List.getElem?_set_self (by rw [hcollected.size]; exact hin)]
  | case2 rest argc texts token rest' htoken hmany =>
    obtain ⟨p, hp⟩ := hat.exists_p htoken
    obtain ⟨state', hnext, _⟩ := Strtok.next_some hp hat htoken
    refine .inl ⟨?_, ?_⟩
    · rw [bufArgsLoop.eq_def, htoken]
      exact if_pos hmany
    · rw [bufArgsWhile, hnext]
      exact if_pos hmany
  | case3 rest argc texts token rest' htoken hfew ih =>
    obtain ⟨p, hp⟩ := hat.exists_p htoken
    obtain ⟨state', hnext, hat', hshows, hafter⟩ := Strtok.next_some hp hat htoken
    have hin : argc + 1 < maxargc := by omega
    have hpush := (hcollected.after hafter).push hshows.drop (by omega)
    rw [hargc] at hpush
    have hloop : bufArgsLoop rest argc texts =
        bufArgsLoop rest' (argc + 1) (texts ++ [token]) := by
      rw [bufArgsLoop.eq_def, htoken]
      exact if_neg hfew
    have hwhile : bufArgsWhile state argc argv = bufArgsWhile state' (argc + 1)
        (argv.set (argc + 1) (some (p + (rest.takeWhile white).length))) := by
      rw [bufArgsWhile, hnext]
      simp only
      rw [if_neg hfew, setArgv, if_pos hin]
      rfl
    rw [hloop, hwhile]
    exact ih hat' hpush (by rw [List.length_append, hargc]; rfl) (Nat.lt_of_not_le hfew)

theorem bufArgsCall_spec (hnul : (0 : Byte) ∈ buf) (p : Option Nat)
    (hargv : argv.length = maxargc) :
    (bufArgv buf = none ∧ bufArgsCall buf p argv = some none) ∨
      ∃ texts call, bufArgv buf = some texts ∧ bufArgsCall buf p argv = some (some call) ∧
        call.argc = texts.length ∧
        (∀ (i : Nat) text, texts[i]? = some text → call.argv[i]? = some (some text)) ∧
        call.argv[texts.length]? = some none := by
  obtain ⟨tail, hbuf⟩ := eq_cstr_append hnul
  have hat : Strtok.At ⟨buf, some 0⟩ (cstr buf) := ⟨zero_not_mem_cstr buf, tail, hbuf⟩
  have hfirst : (Strtok.mk buf p).next (some 0) = (Strtok.mk buf (some 0)).next none := rfl
  cases htoken : strtok (cstr buf) with
  | none =>
    obtain ⟨state', hnext, _⟩ := Strtok.next_none hat htoken
    refine .inl ⟨?_, ?_⟩
    · rw [bufArgv, htoken]
    · rw [bufArgsCall, hfirst, hnext]
  | some found =>
    obtain ⟨token, rest⟩ := found
    obtain ⟨state', hnext, hat', hshows, _⟩ := Strtok.next_some rfl hat htoken
    have hempty : Collected state' argv [] := ⟨hargv, by simp⟩
    have hstart : Collected state' (argv.set 0 (some 0)) [(cstr buf).takeWhile white ++ token] :=
      hempty.push hshows (by decide)
    have hcall : bufArgsCall buf p argv =
        (bufArgsWhile state' 0 (argv.set 0 (some 0))).map fun result =>
          result.map fun (argc, argv, buf) =>
            ⟨argc, argv.map fun ptr => ptr.map fun ptr => cstr (buf.drop ptr)⟩ := by
      rw [bufArgsCall, hfirst, hnext]
      rfl
    rcases @bufArgsWhile_spec _ _ 0 _ _ hat' hstart rfl (by decide) with
      ⟨hloop, hwhile⟩ | ⟨texts, argv', buf', hloop, hwhile, hshown⟩
    · refine .inl ⟨?_, ?_⟩
      · rw [bufArgv, htoken]
        exact hloop
      · rw [hcall, hwhile]
        rfl
    · refine .inr ⟨texts, ⟨texts.length,
        argv'.map fun ptr => ptr.map fun ptr => cstr (buf'.drop ptr)⟩, ?_, ?_, rfl, ?_, ?_⟩
      · rw [bufArgv, htoken]
        exact hloop
      · rw [hcall, hwhile]
        rfl
      · intro i text htext
        obtain ⟨ptr, hptr, htext⟩ := hshown.shows i text htext
        rw [List.getElem?_map, hptr, Option.map_some, Option.map_some, htext]
      · rw [List.getElem?_map, hshown.null, Option.map_some, Option.map_none]

theorem bufArgsLoop_eq {argc : Nat} {texts' : List Bytes}
    (hloop : bufArgsLoop rest argc texts = some texts') : texts' = texts ++ tokens rest := by
  induction rest, argc, texts using bufArgsLoop.induct with
  | case1 rest argc texts hnone =>
    rw [bufArgsLoop.eq_def, hnone] at hloop
    cases hloop
    rw [tokens_none hnone, List.append_nil]
  | case2 rest argc texts token rest' htoken hmany =>
    rw [bufArgsLoop.eq_def, htoken] at hloop
    simp only [if_pos hmany] at hloop
    cases hloop
  | case3 rest argc texts token rest' htoken hfew ih =>
    rw [bufArgsLoop.eq_def, htoken] at hloop
    simp only [if_neg hfew] at hloop
    rw [ih hloop, tokens_some htoken, List.append_assoc]
    rfl

/-- The arguments are the words, except that the first one begins with the buffer. -/
theorem bufArgv_eq (hargv : bufArgv buf = some texts) :
    ∃ word others, words (cstr buf) = word :: others ∧
      texts = ((cstr buf).takeWhile white ++ word) :: others := by
  rw [bufArgv] at hargv
  cases htoken : strtok (cstr buf) with
  | none =>
    rw [htoken] at hargv
    cases hargv
  | some found =>
    obtain ⟨token, rest⟩ := found
    rw [htoken] at hargv
    refine ⟨token, tokens rest, ?_, bufArgsLoop_eq hargv⟩
    rw [← tokens_eq_words, tokens_some htoken]

/-! ## What `buf_args` is for -/

/-- The number of arguments that the array has room for. -/
def Fits (buf : Bytes) : Prop :=
  1 ≤ (words (cstr buf)).length ∧ (words (cstr buf)).length ≤ maxargc - 1

instance (buf : Bytes) : Decidable (Fits buf) := inferInstanceAs (Decidable (_ ∧ _))

/-- `optfunc` is called once, with the words of the buffer, when there is room for them, and
not at all otherwise. -/
def SplitsWords (buf : Bytes) : Prop :=
  ∀ (σ : Type) (optfunc : OptCall → σ → Int × σ) (globals : σ) (p : Option Nat)
    (argv : List (Option Nat)), argv.length = maxargc → if Fits buf then
      ∃ call, bufArgsRun buf p argv optfunc globals = some (optfunc call globals, [call]) ∧
        call.argc = (words (cstr buf)).length ∧
        (∀ (i : Nat) word, (words (cstr buf))[i]? = some word →
          call.argv[i]? = some (some word)) ∧
        call.argv[(words (cstr buf)).length]? = some none
    else bufArgsRun buf p argv optfunc globals = some ((-1, globals), [])

theorem bufArgv_isSome_iff_fits (buf : Bytes) : (bufArgv buf).isSome ↔ Fits buf := by
  rw [bufArgv_isSome, tokens_eq_words, Fits]
  exact and_congr_right fun _ => Nat.lt_iff_le_pred (by decide)

/-- The array is never left, and the buffer is split into its words exactly when it does not
begin with white space or has no word or too many. -/
theorem bufArgs_splits_iff {buf : Bytes} (hnul : (0 : Byte) ∈ buf) :
    (∀ (σ : Type) (optfunc : OptCall → σ → Int × σ) (globals : σ) (p : Option Nat)
      (argv : List (Option Nat)), argv.length = maxargc →
      (bufArgsRun buf p argv optfunc globals).isSome) ∧
      (SplitsWords buf ↔ (cstr buf).takeWhile white = [] ∨ ¬Fits buf) := by
  refine ⟨fun σ optfunc globals p argv hargv => ?_, ?_, ?_⟩
  · rcases bufArgsCall_spec hnul p hargv with ⟨_, hcall⟩ | ⟨texts, call, _, hcall, _⟩
    · rw [bufArgsRun, hcall]
      rfl
    · rw [bufArgsRun, hcall]
      rfl
  · intro hsplits
    by_cases hfits : Fits buf
    · refine .inl ?_
      have hargv : (List.replicate maxargc (none : Option Nat)).length = maxargc := by
        rw [List.length_replicate]
      have hrun := hsplits Unit (fun _ _ => (0, ())) () none _ hargv
      rw [if_pos hfits] at hrun
      obtain ⟨call, hrun, _, hwords, _⟩ := hrun
      rcases bufArgsCall_spec hnul none hargv with
        ⟨hnone, _⟩ | ⟨texts, call', htexts, hcall, _, hshown, _⟩
      · rw [← bufArgv_isSome_iff_fits, hnone] at hfits
        cases hfits
      · rw [bufArgsRun, hcall] at hrun
        have heq : call' = call := by simpa using hrun
        subst heq
        obtain ⟨word, others, hword, rfl⟩ := bufArgv_eq htexts
        have hfirst := hshown 0 _ rfl
        rw [hwords 0 word (by rw [hword]; rfl), Option.some.injEq, Option.some.injEq] at hfirst
        exact List.append_left_eq_self.mp hfirst.symm
    · exact .inr hfits
  · intro hbuf σ optfunc globals p argv hargv
    rcases bufArgsCall_spec hnul p hargv with
      ⟨hnone, hcall⟩ | ⟨texts, call, htexts, hcall, hargc, hshown, hnull⟩
    · have hfits : ¬Fits buf := by
        rw [← bufArgv_isSome_iff_fits, hnone]
        exact nofun
      rw [if_neg hfits, bufArgsRun, hcall]
      rfl
    · have hfits : Fits buf := by
        rw [← bufArgv_isSome_iff_fits, htexts]
        rfl
      obtain ⟨word, others, hword, rfl⟩ := bufArgv_eq htexts
      rw [hbuf.resolve_right (not_not_intro hfits), List.nil_append, ← hword] at hargc hshown hnull
      rw [if_pos hfits]
      exact ⟨call, by rw [bufArgsRun, hcall]; rfl, hargc, hshown, hnull⟩

theorem bufArgs_splits_iff_open : SplitsWords (ascii "open /etc/motd 0" ++ [0]) :=
  (bufArgs_splits_iff (by decide)).2.mpr (.inl (by decide +kernel))

/-- A blank before the first word becomes part of it. -/
theorem leading_blank_kept : bufArgsCall (ascii " open" ++ [0]) none (List.replicate maxargc none) =
      some (some ⟨1, some (ascii " open") :: List.replicate 49 none⟩) ∧
    ¬SplitsWords (ascii " open" ++ [0]) := by
  have hcall : bufArgsCall (ascii " open" ++ [0]) none (List.replicate maxargc none) =
      some (some ⟨1, some (ascii " open") :: List.replicate 49 none⟩) := by decide +kernel
  refine ⟨hcall, fun hsplits => ?_⟩
  have hrun := hsplits Unit (fun _ _ => (0, ())) () none (List.replicate maxargc none) rfl
  rw [if_pos (by decide +kernel)] at hrun
  obtain ⟨call, hrun, _, hwords, _⟩ := hrun
  rw [bufArgsRun, hcall] at hrun
  have heq : ⟨1, some (ascii " open") :: List.replicate 49 none⟩ = call := by simpa using hrun
  subst heq
  have hfirst := hwords 0 (ascii "open") (by decide +kernel)
  exact absurd hfirst (by decide +kernel)

end ApueFormal.OpenServer
