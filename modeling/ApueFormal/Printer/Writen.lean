import ApueFormal.Printer.Parse
import ApueFormal.Printer.Spool

/-!
# writen

`writen` repeats `write` until all bytes have been taken.  What `write` returns is given as
a list; a result that is missing from the list is an error.
-/

namespace ApueFormal.Printer

open Libc

def bytesAt (mem : Nat → Byte) (start count : Nat) : Bytes := (List.range' start count).map mem

/-- What a call of `writen` has done. -/
structure Writen where
  value : Int
  sent : Bytes
  /-- A `write` has returned -1 or 0. -/
  failed : Bool
  /-- The results that have not been used. -/
  results : List Write

/-- `n - nleft` as a `ssize_t`. -/
def amountWritten (n nleft : Nat) : Int := wrap 64 ((n : Int) - nleft)

/-- The loop of `writen`; it starts with `nleft` equal to `n`. -/
def writenLoop (mem : Nat → Byte) (n nleft : Nat) : List Write → Writen
  | [] =>
    if nleft = 0 then ⟨amountWritten n 0, [], false, []⟩
    else ⟨if nleft = n then -1 else amountWritten n nleft, [], true, []⟩
  | result :: results =>
    if nleft = 0 then ⟨amountWritten n 0, [], false, result :: results⟩
    else
      match result with
      | .failed _ => ⟨if nleft = n then -1 else amountWritten n nleft, [], true, results⟩
      | .wrote 0 => ⟨amountWritten n nleft, [], true, results⟩
      | .wrote (count + 1) =>
        -- No more is taken than is offered.
        let nwritten := min (count + 1) nleft
        let rest := writenLoop mem n (nleft - nwritten) results
        { rest with sent := bytesAt mem (n - nleft) nwritten ++ rest.sent }

def writen (mem : Nat → Byte) (n : Nat) (results : List Write) : Writen :=
  writenLoop mem n n results

/-- How `writen` ends when `left` bytes have not been taken. -/
structure WritenEnds (mem : Nat → Byte) (n nleft left : Nat) (result : Writen) : Prop where
  le : left ≤ nleft
  sent : result.sent = bytesAt mem (n - nleft) (nleft - left)
  failed : result.failed = true ↔ 0 < left
  value : (left = 0 ∧ result.value = n) ∨ (0 < left ∧ -1 ≤ result.value ∧ result.value < n)

theorem bytesAt_append (mem : Nat → Byte) (start count more : Nat) :
    bytesAt mem start count ++ bytesAt mem (start + count) more =
      bytesAt mem start (count + more) := by
  unfold bytesAt
  rw [← List.map_append, List.range'_append_1]

variable {n nleft : Nat} {mem : Nat → Byte}

theorem amountWritten_of_lt (hle : nleft ≤ n) (hn : n < 2 ^ 63) :
    amountWritten n nleft = (n : Int) - nleft :=
  wrap_of_lt (by omega) (by omega)

theorem writenEnds_left (hle : nleft ≤ n) (hn : n < 2 ^ 63) (hleft : 0 < nleft) {value : Int}
    (hvalue : value = -1 ∨ value = amountWritten n nleft) (results : List Write) :
    WritenEnds mem n nleft nleft ⟨value, [], true, results⟩ := by
  rw [amountWritten_of_lt hle hn] at hvalue
  constructor
  · exact Nat.le_refl nleft
  · rw [Nat.sub_self]
    rfl
  · exact iff_of_true rfl hleft
  · refine .inr ⟨hleft, ?_⟩
    dsimp only
    omega

theorem writenEnds_done (hn : n < 2 ^ 63) (results : List Write) :
    WritenEnds mem n 0 0 ⟨amountWritten n 0, [], false, results⟩ := by
  constructor
  · exact Nat.le_refl 0
  · rfl
  · exact iff_of_false (by simp) (Nat.lt_irrefl 0)
  · exact .inl ⟨rfl, by rw [amountWritten_of_lt (Nat.zero_le n) hn]; simp⟩

theorem writenLoop_ends (mem : Nat → Byte) (hle : nleft ≤ n) (hn : n < 2 ^ 63)
    (results : List Write) :
    ∃ left, WritenEnds mem n nleft left (writenLoop mem n nleft results) := by
  induction results generalizing nleft with
  | nil =>
    rw [writenLoop]
    split
    · rename_i hzero
      subst hzero
      exact ⟨0, writenEnds_done hn _⟩
    · refine ⟨nleft, writenEnds_left hle hn (by omega) ?_ _⟩
      split
      · exact .inl rfl
      · exact .inr rfl
  | cons result results ih =>
    unfold writenLoop
    split
    · rename_i hzero
      subst hzero
      exact ⟨0, writenEnds_done hn _⟩
    · match result with
      | .failed _ =>
        refine ⟨nleft, writenEnds_left hle hn (by omega) ?_ _⟩
        split
        · exact .inl rfl
        · exact .inr rfl
      | .wrote 0 => exact ⟨nleft, writenEnds_left hle hn (by omega) (.inr rfl) _⟩
      | .wrote (count + 1) =>
        dsimp only
        have hmin : min (count + 1) nleft ≤ nleft := Nat.min_le_right _ _
        generalize min (count + 1) nleft = nwritten at hmin
        obtain ⟨left, hends⟩ := ih (show nleft - nwritten ≤ n by omega)
        have hleft := hends.le
        refine ⟨left, by omega, ?_, hends.failed, hends.value⟩
        have hnext : n - (nleft - nwritten) = n - nleft + nwritten := by omega
        have hcount : nwritten + (nleft - nwritten - left) = nleft - left := by omega
        dsimp only
        rw [hends.sent, hnext, bytesAt_append, hcount]

theorem writenLoop_done (mem : Nat → Byte) (hn : n < 2 ^ 63) (results : List Write) :
    writenLoop mem n 0 results = ⟨n, [], false, results⟩ := by
  have hamount := amountWritten_of_lt (Nat.zero_le n) hn
  rw [Int.natCast_zero, Int.sub_zero] at hamount
  cases results <;> simp [writenLoop, hamount]

theorem writen_at_once (mem : Nat → Byte) (hpos : 0 < n) (hn : n < 2 ^ 63) (results : List Write) :
    writen mem n (.wrote n :: results) = ⟨n, bytesAt mem 0 n, false, results⟩ := by
  obtain ⟨m, rfl⟩ := Nat.exists_eq_succ_of_ne_zero (Nat.ne_of_gt hpos)
  unfold writen writenLoop
  simp [writenLoop_done mem hn]

theorem bytesAt_of_holds {pos : Nat} {text : Bytes} (hholds : Holds mem pos text) :
    bytesAt mem pos text.length = text := by
  induction text generalizing pos with
  | nil => rfl
  | cons byte rest ih =>
    rw [bytesAt, List.length_cons, List.range'_succ, List.map_cons, hholds.1]
    exact congrArg (byte :: ·) (ih hholds.2)

/-- A text has been sent, or only the beginning of it and `writen` says so. -/
inductive WritenText (text : Bytes) (result : Writen) : Prop where
  | whole (hsent : result.sent = text) (hvalue : result.value = text.length)
      (hfailed : result.failed = false)
  | part (hsent : result.sent <+: text) (hne : result.sent ≠ text)
      (hvalue : -1 ≤ result.value ∧ result.value < text.length) (hfailed : result.failed = true)

theorem writen_text {text : Bytes} (hholds : Holds mem 0 text) (hlength : text.length < 2 ^ 63)
    (results : List Write) : WritenText text (writen mem text.length results) := by
  obtain ⟨left, hle, hsent, hfailed, hvalue⟩ :=
    writenLoop_ends mem (Nat.le_refl text.length) hlength results
  rw [Nat.sub_self] at hsent
  have hwhole : bytesAt mem 0 (text.length - left) ++ bytesAt mem (0 + (text.length - left)) left =
      text := by
    rw [bytesAt_append, Nat.sub_add_cancel hle]
    exact bytesAt_of_holds hholds
  rcases hvalue with ⟨rfl, hvalue⟩ | ⟨hpos, hvalue⟩
  · have hfine : (writen mem text.length results).failed = false :=
      Bool.eq_false_iff.mpr fun htrue => absurd (hfailed.mp htrue) (Nat.lt_irrefl 0)
    refine .whole ?_ hvalue hfine
    exact hsent.trans (bytesAt_of_holds hholds)
  · refine .part ⟨_, (congrArg (· ++ _) hsent).trans hwhole⟩ (fun heq => ?_) hvalue
      (hfailed.mpr hpos)
    have hcount := congrArg List.length (hsent.symm.trans heq)
    rw [bytesAt, List.length_map, List.length_range'] at hcount
    omega

/-! ## A chunk of a file -/

/-- What `read` returns and what the buffer holds then. -/
def readFile (buf : Nat → Byte) : Tread → Int × (Nat → Byte)
  | .failed _ => (-1, buf)
  | .data bytes => (bytes.length, fill buf 0 bytes)

/-- A chunk has been sent and `nw` is its length, or not the whole chunk and `nw` is something
else. -/
inductive WritenChunk (chunk : Bytes) (result : Writen) : Prop where
  | whole (hsent : result.sent = chunk) (hnw : wrap 32 result.value = chunk.length)
      (hfailed : result.failed = false)
  | part (hsent : result.sent <+: chunk) (hne : result.sent ≠ chunk)
      (hnw : wrap 32 result.value ≠ chunk.length)

theorem writen_chunk (buf : Nat → Byte) {chunk : Bytes} (hshort : chunk.length ≤ iobufsz)
    (writes : List Write) :
    WritenChunk chunk (writen (fill buf 0 chunk) (toSize (chunk.length : Int)) writes) := by
  have hsize : iobufsz = 8192 := rfl
  rw [toSize_natCast (by omega)]
  have htext := writen_text (holds_fill buf 0 chunk) (by omega) writes
  generalize writen (fill buf 0 chunk) chunk.length writes = result at htext ⊢
  cases htext with
  | whole hsent hvalue hfailed =>
    refine .whole hsent ?_ hfailed
    rw [hvalue]
    exact wrap_of_lt (by omega) (by omega)
  | part hsent hne hvalue hfailed =>
    refine .part hsent hne ?_
    rw [wrap_of_lt (by omega) (by omega)]
    omega

end ApueFormal.Printer
