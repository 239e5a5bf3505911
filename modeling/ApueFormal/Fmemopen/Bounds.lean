import ApueFormal.Fmemopen.Model
import Mathlib.Data.List.TakeWhile

/-!
# Bounds of memory streams

The position of a stream is not behind its contents, and the contents are not
longer than the buffer.  Under these bounds no conversion between the integer
types loses anything, and every access is inside the buffer.
-/

namespace ApueFormal.Fmemopen

open Libc

/-- The buffer has this size, and every access was inside. -/
structure Memory.Inside (mem : Memory) (size : Nat) : Prop where
  length : mem.bytes.length = size
  touched : ∀ index ∈ mem.touched, index < size

variable {count : Nat}

namespace Memory.Inside

variable {mem : Memory} {size : Nat}
variable (hmem : mem.Inside size)
include hmem

theorem load {index : Nat} (hindex : index < size) : (mem.load index).2.Inside size where
  length := hmem.length
  touched := List.forall_mem_cons.mpr ⟨hindex, hmem.touched⟩

theorem store {index : Nat} (hindex : index < size) (byte : Byte) :
    (mem.store index byte).Inside size where
  length := by
    have hle : index ≤ mem.bytes.length := by
      rw [hmem.length]
      exact Nat.le_of_lt hindex
    rw [Memory.store, length_writeAt, hmem.length, List.length_singleton]
    exact Nat.max_eq_left hindex
  touched := List.forall_mem_cons.mpr ⟨hindex, hmem.touched⟩

theorem copyOut {off : Nat} (hfits : off + count ≤ size) :
    (mem.copyOut off count).2.Inside size where
  length := hmem.length
  touched := by
    intro index hindex
    rcases List.mem_append.mp hindex with hrange | hold
    · have hlt := (List.mem_range'_1.mp hrange).2
      omega
    · exact hmem.touched index hold

theorem copyIn {off : Nat} {bytes : Bytes}
    (hfits : off + bytes.length ≤ size) : (mem.copyIn off bytes).Inside size where
  length := by
    have hle : off ≤ mem.bytes.length := by
      rw [hmem.length]
      omega
    rw [Memory.copyIn, length_writeAt, hmem.length]
    exact Nat.max_eq_left hfits
  touched := by
    intro index hindex
    rcases List.mem_append.mp hindex with hrange | hold
    · have hlt := (List.mem_range'_1.mp hrange).2
      omega
    · exact hmem.touched index hold

theorem findEndFrom {fuel off : Nat} (hfuel : off + fuel = size) :
    (findEndFrom size fuel off mem).1 = off + ((mem.bytes.drop off).takeWhile (· ≠ 0)).length ∧
      (findEndFrom size fuel off mem).2.bytes = mem.bytes ∧
      (findEndFrom size fuel off mem).2.Inside size := by
  induction fuel generalizing off mem with
  | zero =>
    have hnil : mem.bytes.drop off = [] := List.drop_of_length_le (by
      rw [hmem.length]
      omega)
    rw [hnil]
    exact ⟨rfl, rfl, hmem⟩
  | succ fuel ih =>
    have hlt : off < mem.bytes.length := by
      rw [hmem.length]
      omega
    have hload : (mem.load off).1 = mem.bytes[off] := by
      rw [Memory.load, List.getD_eq_getElem?_getD, List.getElem?_eq_getElem hlt]
      rfl
    rw [Fmemopen.findEndFrom, if_pos (by omega), List.drop_eq_getElem_cons hlt]
    dsimp only
    rw [hload]
    by_cases hzero : mem.bytes[off] = 0
    · rw [if_pos hzero, List.takeWhile_cons_of_neg (by simpa using hzero)]
      exact ⟨rfl, rfl, hmem.load (by omega)⟩
    · have hnext : (mem.load off).2.Inside size := hmem.load (by omega)
      obtain ⟨hend, hbytes, hinside⟩ := @ih (mem.load off).2 hnext (off + 1) (by omega)
      rw [if_neg hzero, List.takeWhile_cons_of_pos (by simpa using hzero), List.length_cons]
      refine ⟨hend.trans ?_, hbytes, hinside⟩
      rw [Nat.add_assoc, Nat.add_comm 1]
      rfl

end Memory.Inside

/-- A stream over a buffer whose size is an `int`. -/
structure MemStream.Sound (ms : MemStream) : Prop where
  curpos_le : ms.curpos ≤ ms.vsize
  vsize_le : ms.vsize ≤ ms.rsize
  rsize_pos : 0 < ms.rsize
  rsize_lt : ms.rsize < 2 ^ 31
  inside : ms.mem.Inside ms.rsize

def MemStream.writeStart (ms : MemStream) : Nat :=
  if ms.flags.append then ms.vsize else ms.curpos

variable {ms : MemStream}

theorem terminate_of_read (hread : ms.flags.read = true) : terminate ms = ms := by
  unfold terminate
  rw [hread, Bool.not_true, Bool.and_false, if_neg Bool.false_ne_true]

namespace MemStream.Sound

variable (hsound : ms.Sound)
include hsound

theorem writeStart_le : ms.writeStart ≤ ms.vsize := by
  unfold writeStart
  split
  · exact Nat.le_refl _
  · exact hsound.curpos_le

theorem mstreamRead_eq (hread : ms.flags.read = true) (len : Int)
    (hcount : count = min (toSize len) (ms.vsize - ms.curpos)) :
    mstreamRead ms len = ((.ok count, readAt ms.mem.bytes ms.curpos count),
      { ms with mem := (ms.mem.copyOut ms.curpos count).2, curpos := ms.curpos + count }) := by
  have hcurpos := hsound.curpos_le
  have hvsize := hsound.vsize_le
  have hrsize := hsound.rsize_lt
  unfold mstreamRead
  rw [hread, Bool.not_true, if_neg Bool.false_ne_true]
  split
  · rename_i hend
    have hzero : count = 0 := by omega
    subst hzero
    rfl
  · have hleft : toSize ((ms.vsize : Int) - ms.curpos) = ms.vsize - ms.curpos := by
      rw [← Nat.cast_sub hcurpos]
      exact toSize_natCast (by omega)
    have hsum : toSize ((ms.curpos : Int) + count) = ms.curpos + count := by
      rw [← Nat.cast_add]
      exact toSize_natCast (by omega)
    rw [hleft, ← hcount, toInt_of_lt (by omega)]
    dsimp only
    rw [toSize_natCast (by omega), hsum]
    rfl

theorem mstreamWrite_eq (hwrite : (ms.flags.append || ms.flags.write) = true) (bytes : Bytes)
    (len : Int) (hcount : count = min (toSize len) (ms.rsize - ms.writeStart)) :
    mstreamWrite ms bytes len = (.ok count, terminate (extend { ms with
      mem := ms.mem.copyIn ms.writeStart (bytes.take count)
      curpos := ms.writeStart + count })) := by
  have hstart := hsound.writeStart_le
  have hvsize := hsound.vsize_le
  have hrsize := hsound.rsize_lt
  have hroom : toSize ((ms.rsize : Int) - ms.writeStart) = ms.rsize - ms.writeStart := by
    rw [← Nat.cast_sub (by omega)]
    exact toSize_natCast (by omega)
  have hsum : toSize ((ms.writeStart : Int) + count) = ms.writeStart + count := by
    rw [← Nat.cast_add]
    exact toSize_natCast (by omega)
  have hoff : toInt ms.writeStart = ms.writeStart := toInt_of_lt (by omega)
  have hnw : toInt count = count := toInt_of_lt (by omega)
  unfold mstreamWrite
  rw [hwrite, Bool.not_true, if_neg Bool.false_ne_true]
  dsimp only
  rw [show (if ms.flags.append = true then ms.vsize else ms.curpos) = ms.writeStart from rfl,
    hoff, hroom, ← hcount, hnw, toSize_natCast (by omega), toSize_natCast (by omega), hsum]

omit hsound in
theorem extend (hcurpos : ms.curpos ≤ ms.rsize) (hvsize : ms.vsize ≤ ms.rsize) (hpos : 0 < ms.rsize)
    (hlt : ms.rsize < 2 ^ 31) (hinside : ms.mem.Inside ms.rsize) : (extend ms).Sound := by
  unfold Fmemopen.extend
  split
  · dsimp only
    split
    · rename_i hbelow
      simp only [Bool.and_eq_true, decide_eq_true_eq] at hbelow
      exact ⟨Nat.le_refl _, hcurpos, hpos, hlt, hinside.store hbelow.2 0⟩
    · exact ⟨Nat.le_refl _, hcurpos, hpos, hlt, hinside⟩
  · rename_i hle
    exact ⟨Nat.le_of_not_lt hle, hvsize, hpos, hlt, hinside⟩

theorem terminate : (terminate ms).Sound := by
  unfold Fmemopen.terminate
  split
  · split
    · rename_i hlt
      exact { hsound with inside := hsound.inside.store hlt 0 }
    · refine { hsound with inside := hsound.inside.store ?_ 0 }
      have hpos := hsound.rsize_pos
      have hlt := hsound.rsize_lt
      have hlast : toSize ((ms.rsize : Int) - 1) = ms.rsize - 1 := by
        unfold toSize
        omega
      rw [hlast]
      omega
  · exact hsound

theorem mstreamRead (len : Int) : (mstreamRead ms len).2.Sound := by
  have hcurpos := hsound.curpos_le
  have hvsize := hsound.vsize_le
  cases hread : ms.flags.read with
  | false =>
    unfold Fmemopen.mstreamRead
    rw [hread]
    exact hsound
  | true =>
    rw [hsound.mstreamRead_eq hread len rfl]
    refine ⟨?_, hsound.vsize_le, hsound.rsize_pos, hsound.rsize_lt, hsound.inside.copyOut ?_⟩
    · dsimp only
      omega
    · omega

theorem mstreamWrite (bytes : Bytes) (len : Int) : (mstreamWrite ms bytes len).2.Sound := by
  have hstart := hsound.writeStart_le
  have hvsize := hsound.vsize_le
  cases hwrite : ms.flags.append || ms.flags.write with
  | false =>
    unfold Fmemopen.mstreamWrite
    rw [hwrite]
    exact hsound
  | true =>
    rw [hsound.mstreamWrite_eq hwrite bytes len rfl]
    have hcopied : (ms.mem.copyIn ms.writeStart
        (bytes.take (min (toSize len) (ms.rsize - ms.writeStart)))).Inside ms.rsize := by
      refine hsound.inside.copyIn ?_
      rw [List.length_take]
      omega
    refine terminate (extend ?_ hvsize hsound.rsize_pos hsound.rsize_lt hcopied)
    dsimp only
    omega

theorem mstreamSeek (pos : Int) (whence : Whence) : (mstreamSeek ms pos whence).2.Sound := by
  unfold Fmemopen.mstreamSeek
  dsimp only
  split
  · exact hsound
  · rename_i hrange
    exact { hsound with curpos_le := Nat.le_of_not_lt (not_or.mp hrange).2 }

theorem perform (call : Call) : (perform ms call).2.Sound := by
  cases call with
  | read len => exact hsound.mstreamRead len
  | write bytes => exact hsound.mstreamWrite bytes bytes.length
  | seek pos whence => exact hsound.mstreamSeek pos whence

theorem performAll (calls : List Call) : (performAll ms calls).2.Sound := by
  induction calls generalizing ms with
  | nil => exact hsound
  | cons call rest ih => exact ih (hsound.perform call)

end MemStream.Sound

/-! ## What calls leave alone -/

/-- The size of the buffer and the flags are the same. -/
def MemStream.Keeps (ms ms' : MemStream) : Prop := ms'.rsize = ms.rsize ∧ ms'.flags = ms.flags

section

variable (ms : MemStream)

theorem extend_keeps : ms.Keeps (extend ms) := by
  unfold extend
  split
  · dsimp only
    split <;> exact ⟨rfl, rfl⟩
  · exact ⟨rfl, rfl⟩

theorem terminate_keeps : ms.Keeps (terminate ms) := by
  unfold terminate
  split
  · split <;> exact ⟨rfl, rfl⟩
  · exact ⟨rfl, rfl⟩

theorem mstreamWrite_keeps (bytes : Bytes) (len : Int) :
    ms.Keeps (mstreamWrite ms bytes len).2 := by
  unfold mstreamWrite
  split
  · exact ⟨rfl, rfl⟩
  · dsimp only
    generalize hcopied : MemStream.mk _ _ _ _ _ = copied
    have hkeeps : ms.Keeps copied := by
      subst hcopied
      exact ⟨rfl, rfl⟩
    obtain ⟨hsize, hflags⟩ := terminate_keeps (extend copied)
    obtain ⟨hsize', hflags'⟩ := extend_keeps copied
    exact ⟨(hsize.trans hsize').trans hkeeps.1, (hflags.trans hflags').trans hkeeps.2⟩

theorem mstreamRead_keeps (len : Int) : ms.Keeps (mstreamRead ms len).2 := by
  unfold mstreamRead
  split
  · exact ⟨rfl, rfl⟩
  · split
    · exact ⟨rfl, rfl⟩
    · dsimp only
      exact ⟨rfl, rfl⟩

theorem mstreamSeek_keeps (pos : Int) (whence : Whence) :
    ms.Keeps (mstreamSeek ms pos whence).2 := by
  unfold mstreamSeek
  dsimp only
  split
  · exact ⟨rfl, rfl⟩
  · exact ⟨rfl, rfl⟩

theorem perform_keeps (call : Call) : ms.Keeps (perform ms call).2 := by
  cases call with
  | read len => exact mstreamRead_keeps ms len
  | write bytes => exact mstreamWrite_keeps ms bytes bytes.length
  | seek pos whence => exact mstreamSeek_keeps ms pos whence

theorem performAll_keeps (calls : List Call) : ms.Keeps (performAll ms calls).2 := by
  induction calls generalizing ms with
  | nil => exact ⟨rfl, rfl⟩
  | cons call rest ih =>
    obtain ⟨hsize, hflags⟩ := perform_keeps ms call
    obtain ⟨hsize', hflags'⟩ := ih (perform ms call).2
    exact ⟨hsize'.trans hsize, hflags'.trans hflags⟩

end

/-! ## Streams that have been opened -/

def streamBuffer (res : Resources) (buf : Option Bytes) : Bytes := buf.getD (res.buffer.getD [])

theorem fmemopen_ok {res : Resources} {buf : Option Bytes} {size : Nat} {type : Bytes}
    (hopen : fmemopen res buf size type = .ok ms) :
    0 < size ∧ ms = openBuffer buf.isSome (streamBuffer res buf) size (typeToFlags type) := by
  unfold fmemopen at hopen
  split at hopen
  · cases hopen
  rename_i hsize
  refine ⟨Nat.pos_of_ne_zero hsize, ?_⟩
  split at hopen
  · cases hopen
  dsimp only at hopen
  split at hopen
  · cases hopen
  have hfile : ∀ {value : MemStream}, res.funopen.map (fun _ => value) = .ok ms → ms = value := by
    intro value hmap
    cases hfunopen : res.funopen with
    | error errno =>
      rw [hfunopen] at hmap
      cases hmap
    | ok result =>
      rw [hfunopen] at hmap
      exact (Except.ok.inj hmap).symm
  cases buf with
  | some bytes => exact hfile hopen
  | none =>
    dsimp only at hopen
    split at hopen
    · cases hopen
    cases hbuffer : res.buffer with
    | none =>
      rw [hbuffer] at hopen
      cases hopen
    | some bytes =>
      rw [hbuffer] at hopen
      rw [streamBuffer, hbuffer]
      exact hfile hopen

theorem startPos_spec (given : Bool) (flags : Flags) (bytes : Bytes) :
    (startPos given flags ⟨bytes, []⟩ bytes.length).1 =
        (if given && flags.append then (cstr bytes).length else 0) ∧
      (startPos given flags ⟨bytes, []⟩ bytes.length).2.bytes = bytes ∧
      (startPos given flags ⟨bytes, []⟩ bytes.length).2.Inside bytes.length := by
  have hinside : Memory.Inside ⟨bytes, []⟩ bytes.length := ⟨rfl, List.forall_mem_nil _⟩
  unfold startPos
  split
  · obtain ⟨hend, hbytes, hafter⟩ := hinside.findEndFrom (Nat.zero_add bytes.length)
    refine ⟨hend.trans ?_, hbytes, hafter⟩
    rw [List.drop_zero, Nat.zero_add]
    rfl
  · exact ⟨rfl, rfl, hinside⟩

theorem openBuffer_sound (given : Bool) {bytes : Bytes} {size : Nat} (flags : Flags)
    (hlength : bytes.length = size) (hpos : 0 < size) (hlt : size < 2 ^ 31) :
    (openBuffer given bytes size flags).Sound := by
  subst hlength
  obtain ⟨hstart, _, hinside⟩ := startPos_spec given flags bytes
  have hle : (startPos given flags ⟨bytes, []⟩ bytes.length).1 ≤ bytes.length := by
    rw [hstart]
    split
    · exact (List.takeWhile_prefix _).length_le
    · exact Nat.zero_le _
  have hzero : flags.append ≠ true → (startPos given flags ⟨bytes, []⟩ bytes.length).1 = 0 := by
    intro happend
    rw [hstart, if_neg]
    exact fun hboth => happend (Bool.and_eq_true_iff.mp hboth).2
  refine ⟨?_, ?_, hpos, hlt, hinside⟩
  · dsimp only [openBuffer]
    split
    · exact Nat.le_refl _
    · rename_i happend
      rw [hzero happend]
      exact Nat.zero_le _
  · dsimp only [openBuffer]
    split
    · exact hle
    · split
      · exact Nat.zero_le _
      · exact Nat.le_refl _

/-- After any calls the position and the contents are inside the buffer, and so was
every access. -/
theorem stream_stays_inside {res : Resources} {buf : Option Bytes} {size : Nat} {type : Bytes}
    {ms : MemStream} (hbuffer : (streamBuffer res buf).length = size) (hlt : size < 2 ^ 31)
    (hopen : fmemopen res buf size type = .ok ms) (calls : List Call) :
    (performAll ms calls).2.rsize = size ∧
      (performAll ms calls).2.curpos ≤ (performAll ms calls).2.vsize ∧
      (performAll ms calls).2.vsize ≤ (performAll ms calls).2.rsize ∧
      ∀ index ∈ (performAll ms calls).2.mem.touched, index < (performAll ms calls).2.rsize := by
  obtain ⟨hpos, rfl⟩ := fmemopen_ok hopen
  have hsound := (openBuffer_sound buf.isSome (typeToFlags type) hbuffer hpos hlt).performAll calls
  exact ⟨(performAll_keeps _ calls).1, hsound.curpos_le, hsound.vsize_le, hsound.inside.touched⟩

def fourBytes : Bytes := [1, 2, 0, 3]

def plenty : Resources := ⟨true, some fourBytes, .ok ()⟩

def appendRun : MemStream :=
  (performAll (openBuffer true fourBytes 4 (typeToFlags [97]))
    [.write [7, 8], .seek (2 ^ 32) .seekSet, .write [9]]).2

theorem stream_stays_inside_append : appendRun.rsize = 4 ∧ appendRun.curpos ≤ appendRun.vsize ∧
      appendRun.vsize ≤ appendRun.rsize ∧
      ∀ index ∈ appendRun.mem.touched, index < appendRun.rsize :=
  stream_stays_inside rfl (by decide)
    (show fmemopen plenty (some fourBytes) 4 [97] = .ok _ from rfl)
    [.write [7, 8], .seek (2 ^ 32) .seekSet, .write [9]]

namespace MemStream

def target (ms : MemStream) (pos : Int) : Whence → Int
  | .seekSet => pos
  | .seekEnd => ms.vsize + pos
  | .seekCur => ms.curpos + pos

def Within (ms : MemStream) (off : Int) : Prop := 0 ≤ off ∧ off ≤ ms.vsize

instance (ms : MemStream) (off : Int) : Decidable (ms.Within off) :=
  inferInstanceAs (Decidable (_ ∧ _))

/-- A seek goes to the place that it asks for, or fails and moves nothing. -/
structure SeekExact (ms : MemStream) (pos : Int) (whence : Whence) : Prop where
  moves : ms.Within (ms.target pos whence) → mstreamSeek ms pos whence =
    (.ok (ms.target pos whence), { ms with curpos := (ms.target pos whence).toNat })
  fails : ¬ ms.Within (ms.target pos whence) → mstreamSeek ms pos whence = (.error .einval, ms)

variable {pos : Int} {whence : Whence}

theorem seekOff_eq (ms : MemStream) (pos : Int) (whence : Whence) :
    seekOff ms pos whence = wrap 32 (ms.target pos whence) := by
  cases whence with
  | seekSet => rfl
  | seekEnd => exact toInt_toSize _
  | seekCur => exact toInt_toSize _

theorem mstreamSeek_eq (hlt : ms.vsize < 2 ^ 31) {off : Int}
    (hoff : wrap 32 (ms.target pos whence) = off) :
    mstreamSeek ms pos whence =
      if ms.Within off then (.ok off, { ms with curpos := off.toNat })
      else (.error .einval, ms) := by
  have hsmall : off < 2 ^ 31 := by
    rw [← hoff]
    exact Int.bmod_lt (by decide)
  have hsize : 0 ≤ off → toSize off = off.toNat := by
    unfold toSize
    omega
  unfold mstreamSeek
  rw [seekOff_eq, hoff]
  by_cases hin : ms.Within off
  · rw [if_pos hin, if_neg (by have := hin.1; have := hin.2; omega), hsize hin.1]
  · rw [if_neg hin, if_pos]
    unfold Within at hin
    omega

theorem seekExact_iff (hlt : ms.vsize < 2 ^ 31) : ms.SeekExact pos whence ↔
    (ms.Within (wrap 32 (ms.target pos whence)) → ms.Within (ms.target pos whence)) := by
  have hseek := mstreamSeek_eq hlt (rfl : wrap 32 (ms.target pos whence) = _)
  constructor
  · intro hexact hcut
    by_contra hout
    rw [if_pos hcut, hexact.fails hout] at hseek
    cases congrArg Prod.fst hseek
  · refine fun hgood => ⟨fun hin => ?_, fun hout => ?_⟩
    · have hfits : wrap 32 (ms.target pos whence) = ms.target pos whence := by
        obtain ⟨hlow, hhigh⟩ := hin
        exact wrap_of_lt (by omega) (by omega)
      rw [hseek, hfits, if_pos hin]
    · rw [hseek, if_neg fun hcut => hout (hgood hcut)]

end MemStream

/-- A seek on a stream after any calls is exact as long as a place outside of the
contents is not cut to a place in them. -/
theorem stream_seek_exact {res : Resources} {buf : Option Bytes} {size : Nat} {type : Bytes}
    {ms : MemStream} (hbuffer : (streamBuffer res buf).length = size) (hlt : size < 2 ^ 31)
    (hopen : fmemopen res buf size type = .ok ms) (calls : List Call) {now : MemStream}
    (hnow : (performAll ms calls).2 = now) (pos : Int) (whence : Whence) :
    now.SeekExact pos whence ↔
      (now.Within (wrap 32 (now.target pos whence)) → now.Within (now.target pos whence)) := by
  obtain ⟨hpos, rfl⟩ := fmemopen_ok hopen
  have hsound := (openBuffer_sound buf.isSome (typeToFlags type) hbuffer hpos hlt).performAll calls
  rw [hnow] at hsound
  exact MemStream.seekExact_iff (Nat.lt_of_le_of_lt hsound.vsize_le hsound.rsize_lt)

theorem stream_seek_exact_append : appendRun.SeekExact (-1) .seekEnd :=
  (stream_seek_exact rfl (by decide)
    (show fmemopen plenty (some fourBytes) 4 [97] = .ok _ from rfl)
    [.write [7, 8], .seek (2 ^ 32) .seekSet, .write [9]] rfl (-1) .seekEnd).mpr
    fun _ => by decide +kernel

/-- A seek far behind the end goes to the start. -/
theorem far_seek_succeeds :
    fmemopen plenty (some fourBytes) 4 [114] =
        .ok (openBuffer true fourBytes 4 (typeToFlags [114])) ∧
      mstreamSeek (openBuffer true fourBytes 4 (typeToFlags [114])) (2 ^ 32) .seekSet =
        (.ok 0, openBuffer true fourBytes 4 (typeToFlags [114])) ∧
      ¬ (openBuffer true fourBytes 4 (typeToFlags [114])).SeekExact (2 ^ 32) .seekSet := by
  have hseek : mstreamSeek (openBuffer true fourBytes 4 (typeToFlags [114])) (2 ^ 32) .seekSet =
      (.ok 0, openBuffer true fourBytes 4 (typeToFlags [114])) := by decide +kernel
  refine ⟨rfl, hseek, fun hexact => ?_⟩
  rw [hexact.fails (by decide +kernel)] at hseek
  cases congrArg Prod.fst hseek

end ApueFormal.Fmemopen
