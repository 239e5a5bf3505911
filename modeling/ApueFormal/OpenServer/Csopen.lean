import ApueFormal.OpenServer.BufArgs

/-!
# Requests of the client

`csopen` puts the request together from its parts: the command, the name and the flags,
with blanks between them and a zero byte at the end.  A name is only found again when it
has no white space.
-/

namespace ApueFormal.OpenServer

open Libc

/-- The array `buf` of `csopen`, up to its zero byte. -/
def oflagText (oflag : Int) : Bytes := snprintf 12 (ascii " " ++ fmtD oflag)

/-- What `csopen` writes to the server. -/
def csopenRequest (name : CString) (oflag : Int) : Bytes :=
  (clOpen ++ ascii " ") ++ name.bytes ++ (oflagText oflag ++ [0])

variable {oflag : Nat}

theorem oflagText_eq (hoflag : oflag < 2 ^ 31) : oflagText oflag = 32 :: decimal oflag := by
  have hlength : (decimal oflag).length ≤ 10 := length_decimal_le (by decide) (by omega)
  rw [oflagText, snprintf, fmtD_natCast, List.take_of_length_le]
  · rfl
  · rw [List.length_append]
    simp only [ascii, List.length_map]
    exact Nat.add_le_add_left hlength 1

theorem white_of_isDigit {byte : Byte} (hdigit : isDigit byte = true) : white byte = false := by
  by_contra hwhite
  have hrange := isDigit_range hdigit
  rw [Bool.not_eq_false, white] at hwhite
  simp only [Bool.or_eq_true, beq_iff_eq] at hwhite
  rcases hwhite with (rfl | rfl) | rfl <;> exact absurd hrange.1 (by decide)

theorem cstr_csopenRequest (name : CString) (hoflag : oflag < 2 ^ 31) :
    cstr (csopenRequest name oflag) = clOpen ++ 32 :: (name.bytes ++ 32 :: decimal oflag) := by
  have hnul : (0 : Byte) ∉ clOpen ++ 32 :: (name.bytes ++ 32 :: decimal oflag) := by
    intro hmem
    rcases List.mem_append.mp hmem with hmem | hmem
    · exact absurd hmem (by decide)
    · rcases List.mem_cons.mp hmem with hzero | hmem
      · exact absurd hzero (by decide)
      · rcases List.mem_append.mp hmem with hmem | hmem
        · exact name.noNul hmem
        · rcases List.mem_cons.mp hmem with hzero | hmem
          · exact absurd hzero (by decide)
          · exact not_mem_decimal rfl oflag hmem
  have hrequest : csopenRequest name oflag =
      (clOpen ++ 32 :: (name.bytes ++ 32 :: decimal oflag)) ++ [0] := by
    rw [csopenRequest, oflagText_eq hoflag]
    simp [ascii]
  rw [hrequest, cstr_append_zero, cstr_of_noNul hnul]

theorem words_csopenRequest (name : CString) (hoflag : oflag < 2 ^ 31) (hne : name.bytes ≠ [])
    (hname : ∀ byte ∈ name.bytes, white byte = false) :
    words (cstr (csopenRequest name oflag)) = [clOpen, name.bytes, decimal oflag] := by
  have hdigits : ∀ byte ∈ decimal oflag, white byte = false := fun byte hmem =>
    white_of_isDigit (decimal_digits oflag byte hmem)
  rw [cstr_csopenRequest name hoflag, words_cons (by decide +kernel) (by decide) (by decide),
    words_cons hname hne (by decide), words_single hdigits (decimal_ne_nil oflag)]

theorem bufArgs_csopenRequest {name : CString} (hoflag : oflag < 2 ^ 31) (hne : name.bytes ≠ [])
    (hname : ∀ byte ∈ name.bytes, white byte = false) (globals : Globals) :
    bufArgs (csopenRequest name oflag) cliArgs globals =
      (0, { globals with pathname := name.bytes, oflag := oflag }) := by
  have hwords := words_csopenRequest name hoflag hne hname
  have hfits : Fits (csopenRequest name oflag) := by
    rw [Fits, hwords]
    exact (show 1 ≤ 3 ∧ 3 ≤ maxargc - 1 by decide)
  obtain ⟨texts, hargv⟩ := Option.isSome_iff_exists.mp ((bufArgv_isSome_iff_fits _).mpr hfits)
  obtain ⟨word, others, hsplit, rfl⟩ := bufArgv_eq hargv
  cases hwords.symm.trans hsplit
  rw [cstr_csopenRequest name hoflag] at hargv
  have hatoi : atoi (decimal oflag) = oflag := ato_decimal 32 oflag (by omega)
  rw [bufArgs, hargv, ← hatoi]
  rfl

/-- The server finds the name and the flags of a request exactly when the name is not empty
and has no white space. -/
theorem open_request_round_trip (name : CString) {oflag : Int} (hnonneg : 0 ≤ oflag)
    (hoflag : oflag < 2 ^ 31) (globals : Globals) :
    (csopenRequest name oflag).getLast? = some 0 ∧
      ((0 ≤ (bufArgs (csopenRequest name oflag) cliArgs globals).1 ∧
        (bufArgs (csopenRequest name oflag) cliArgs globals).2.pathname = name.bytes ∧
        (bufArgs (csopenRequest name oflag) cliArgs globals).2.oflag = oflag) ↔
      (name.bytes ≠ [] ∧ ∀ byte ∈ name.bytes, white byte = false)) := by
  obtain ⟨oflag, rfl⟩ := Int.eq_ofNat_of_zero_le hnonneg
  have hoflag' : oflag < 2 ^ 31 := by omega
  refine ⟨?_, ?_, ?_⟩
  · rw [csopenRequest, ← List.append_assoc, List.getLast?_append]
    rfl
  · rintro ⟨hdone, hpathname, _⟩
    cases hargv : bufArgv (csopenRequest name oflag) with
    | none =>
      rw [bufArgs, hargv] at hdone
      exact absurd hdone (show ¬(0 : Int) ≤ -1 by decide)
    | some texts =>
      obtain ⟨word, others, hwords, rfl⟩ := bufArgv_eq hargv
      simp only [bufArgs, hargv, cliArgs] at hdone hpathname
      split at hdone
      · exact absurd hdone (show ¬(0 : Int) ≤ -1 by decide)
      · rename_i hargs
        rw [if_neg hargs] at hpathname
        rw [not_or, not_not, List.length_cons] at hargs
        -- The name is the second argument, so it is a word.
        obtain ⟨second, rest, rfl⟩ :=
          List.exists_cons_of_length_pos (by omega : 0 < others.length)
        have hsecond : second = name.bytes := hpathname
        have hmem : second ∈ tokens (cstr (csopenRequest name oflag)) := by
          rw [tokens_eq_words, hwords]
          simp
        exact hsecond ▸ mem_tokens hmem
  · rintro ⟨hne, hname⟩
    rw [bufArgs_csopenRequest hoflag' hne hname]
    exact ⟨Int.le_refl 0, rfl, rfl⟩

theorem open_request_round_trip_motd :
    (bufArgs (csopenRequest ⟨ascii "/etc/motd", by decide⟩ 1) cliArgs ⟨[], [], 0⟩).2 =
      ⟨[], ascii "/etc/motd", 1⟩ ∧
    (0 : Int) ≤ (bufArgs (csopenRequest ⟨ascii "/etc/motd", by decide⟩ 1) cliArgs ⟨[], [], 0⟩).1 :=
  ⟨by decide +kernel, ((open_request_round_trip ⟨ascii "/etc/motd", by decide⟩ (by decide)
    (by decide) ⟨[], [], 0⟩).2.mpr ⟨by decide, by decide +kernel⟩).1⟩

end ApueFormal.OpenServer
