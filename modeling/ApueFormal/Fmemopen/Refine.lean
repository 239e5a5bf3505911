import ApueFormal.Fmemopen.Bounds
import ApueFormal.Fmemopen.File

/-!
# Streams that can be read are byte files

The contents of a stream are the first bytes of its buffer.  As long as the
stream can be read, the NUL of a write stays behind the contents, and every call
does what it does on a byte file.
-/

namespace ApueFormal.Fmemopen

open Libc

def ByteFile.base (file : ByteFile) : Whence → Nat
  | .seekSet => 0
  | .seekEnd => file.contents.length
  | .seekCur => file.pos

/-- The flags say whether the file can be written, and whether at its end only. -/
def ByteFile.perform (flags : Flags) (file : ByteFile) : Call → Reply × ByteFile
  | .read len =>
    let (bytes, file) := file.read (toSize len)
    ((.ok bytes.length, bytes), file)
  | .write bytes =>
    if flags.append || flags.write then
      let (count, file) := file.write flags.append bytes
      ((.ok count, []), file)
    else ((.error .ebadf, []), file)
  | .seek pos whence =>
    match file.seek (file.base whence + pos) with
    | some moved => ((.ok (file.base whence + pos), []), moved)
    | none => ((.error .einval, []), file)

def ByteFile.performAll (flags : Flags) (file : ByteFile) : List Call → List Reply × ByteFile
  | [] => ([], file)
  | call :: rest =>
    let (reply, file) := file.perform flags call
    let (replies, file) := file.performAll flags rest
    (reply :: replies, file)

/-- The length of a write and the target of a seek are `int`s. -/
def ByteFile.Takes (file : ByteFile) : Call → Prop
  | .read _ => True
  | .write bytes => bytes.length < 2 ^ 31
  | .seek pos whence =>
    -(2 ^ 31) ≤ (file.base whence : Int) + pos ∧ (file.base whence : Int) + pos < 2 ^ 31

def ByteFile.TakesAll (flags : Flags) (file : ByteFile) : List Call → Prop
  | [] => True
  | call :: rest => file.Takes call ∧ (file.perform flags call).2.TakesAll flags rest

/-- The contents, the position and the capacity of a stream. -/
structure Represents (ms : MemStream) (file : ByteFile) : Prop where
  contents : ms.mem.bytes.take ms.vsize = file.contents
  pos : ms.curpos = file.pos
  capacity : ms.rsize = file.capacity

namespace Represents

variable {ms : MemStream} {file : ByteFile}
variable (hrep : Represents ms file) (hsound : ms.Sound)
include hrep hsound

theorem length : file.contents.length = ms.vsize := by
  rw [← hrep.contents, List.length_take, hsound.inside.length]
  exact Nat.min_eq_left hsound.vsize_le

omit hsound in
theorem readAt_eq {pos count : Nat} (hfits : pos + count ≤ ms.vsize) :
    readAt ms.mem.bytes pos count = readAt file.contents pos count := by
  refine readAt_congr fun i _ hi => ?_
  rw [← hrep.contents, List.getElem?_take, if_pos (by omega)]

variable (hread : ms.flags.read = true)
include hread

theorem read (len : Int) : (mstreamRead ms len).1 = (file.perform ms.flags (.read len)).1 ∧
      Represents (mstreamRead ms len).2 (file.perform ms.flags (.read len)).2 := by
  have hcurpos := hsound.curpos_le
  have hlength := hrep.length hsound
  have hpos := hrep.pos
  rw [hsound.mstreamRead_eq hread len rfl]
  have hbytes : readAt ms.mem.bytes ms.curpos (min (toSize len) (ms.vsize - ms.curpos)) =
      readAt file.contents file.pos (toSize len) := by
    rw [hrep.readAt_eq (by omega), hpos, readAt, readAt, ← hlength, ← List.length_drop,
      ← List.take_eq_take_min]
  have hcount : (readAt file.contents file.pos (toSize len)).length =
      min (toSize len) (ms.vsize - ms.curpos) := by
    rw [readAt, List.length_take, List.length_drop, hlength, hpos]
  refine ⟨?_, hrep.contents, ?_, hrep.capacity⟩
  · dsimp only [ByteFile.perform, ByteFile.read]
    rw [hbytes, hcount]
  · dsimp only [ByteFile.perform, ByteFile.read]
    rw [hlength, hpos]

omit hread in
omit hsound in
omit hrep in
theorem extend {ms : MemStream} (hcurpos : ms.curpos ≤ ms.mem.bytes.length) :
    (extend ms).vsize = max ms.vsize ms.curpos ∧ (extend ms).curpos = ms.curpos ∧
      (extend ms).mem.bytes.take (max ms.vsize ms.curpos) =
        ms.mem.bytes.take (max ms.vsize ms.curpos) := by
  unfold Fmemopen.extend
  split
  · rename_i hlt
    have hmax : max ms.vsize ms.curpos = ms.curpos := Nat.max_eq_right (Nat.le_of_lt hlt)
    rw [hmax]
    dsimp only
    split
    · exact ⟨rfl, rfl, take_writeAt_behind (Nat.le_refl _) hcurpos [0]⟩
    · exact ⟨rfl, rfl, rfl⟩
  · rename_i hle
    have hmax : max ms.vsize ms.curpos = ms.vsize := Nat.max_eq_left (Nat.le_of_not_lt hle)
    rw [hmax]
    exact ⟨rfl, rfl, rfl⟩

theorem write {bytes : Bytes} (hbytes : bytes.length < 2 ^ 31) :
    (perform ms (.write bytes)).1 = (file.perform ms.flags (.write bytes)).1 ∧
      Represents (perform ms (.write bytes)).2 (file.perform ms.flags (.write bytes)).2 := by
  have hlength := hrep.length hsound
  have hvsize := hsound.vsize_le
  have hinside := hsound.inside.length
  have hwhole := hsound.writeStart_le
  dsimp only [perform, ByteFile.perform]
  cases hwrite : ms.flags.append || ms.flags.write with
  | false =>
    unfold mstreamWrite
    rw [hwrite]
    exact ⟨rfl, hrep⟩
  | true =>
    have hstart : ms.writeStart = file.start ms.flags.append := by
      rw [MemStream.writeStart, ByteFile.start, hlength, hrep.pos]
    have hpart : bytes.take (min (toSize bytes.length) (ms.rsize - ms.writeStart)) =
        file.part ms.flags.append bytes := by
      rw [ByteFile.part, toSize_natCast (by omega), hstart, hrep.capacity, Nat.min_comm,
        ← List.take_eq_take_min]
    have hcount : min (toSize bytes.length) (ms.rsize - ms.writeStart) =
        (file.part ms.flags.append bytes).length := by
      rw [← hpart, List.length_take, toSize_natCast (by omega)]
      omega
    have hroom : ms.writeStart + (file.part ms.flags.append bytes).length ≤ ms.rsize := by
      omega
    rw [hsound.mstreamWrite_eq hwrite bytes bytes.length rfl, hpart, hcount, if_pos rfl]
    have hcopied := hsound.inside.copyIn hroom
    obtain ⟨hvsize', hcurpos', hbytes'⟩ := @extend { ms with
      mem := ms.mem.copyIn ms.writeStart (file.part ms.flags.append bytes)
      curpos := ms.writeStart + (file.part ms.flags.append bytes).length } (by
        rw [hcopied.length]
        exact hroom)
    have hkeeps := extend_keeps { ms with
      mem := ms.mem.copyIn ms.writeStart (file.part ms.flags.append bytes)
      curpos := ms.writeStart + (file.part ms.flags.append bytes).length }
    rw [terminate_of_read (by rw [hkeeps.2]; exact hread)]
    refine ⟨rfl, ?_, ?_, hkeeps.1.trans hrep.capacity⟩
    · rw [hvsize', hbytes']
      dsimp only [ByteFile.write]
      rw [← hstart, ← hrep.contents]
      exact take_writeAt (by omega) hwhole _
    · rw [hcurpos', hstart]
      rfl

omit hread in
theorem seek {pos : Int} {whence : Whence} (htakes : file.Takes (.seek pos whence)) :
    (perform ms (.seek pos whence)).1 = (file.perform ms.flags (.seek pos whence)).1 ∧
      Represents (perform ms (.seek pos whence)).2
        (file.perform ms.flags (.seek pos whence)).2 := by
  have hlength := hrep.length hsound
  have hvsize := hsound.vsize_le
  have hrsize := hsound.rsize_lt
  obtain ⟨hlow, hhigh⟩ := htakes
  have htarget : ms.target pos whence = file.base whence + pos := by
    cases whence with
    | seekSet => exact (Int.zero_add pos).symm
    | seekEnd => rw [MemStream.target, ByteFile.base, hlength]
    | seekCur => rw [MemStream.target, ByteFile.base, hrep.pos]
  rw [← htarget] at hlow hhigh
  have hseek := MemStream.mstreamSeek_eq (by omega) (wrap_of_lt (by omega) (by omega) :
    wrap 32 (ms.target pos whence) = _)
  dsimp only [perform, ByteFile.perform]
  rw [hseek, ← htarget, ByteFile.seek]
  by_cases hin : ms.Within (ms.target pos whence)
  · rw [if_pos hin, dif_pos (by rwa [hlength])]
    exact ⟨rfl, hrep.contents, rfl, hrep.capacity⟩
  · rw [if_neg hin, dif_neg (by rwa [hlength])]
    exact ⟨rfl, hrep⟩

theorem perform {call : Call} (htakes : file.Takes call) :
    (perform ms call).1 = (file.perform ms.flags call).1 ∧
      Represents (perform ms call).2 (file.perform ms.flags call).2 := by
  cases call with
  | read len => exact hrep.read hsound hread len
  | write bytes => exact hrep.write hsound hread htakes
  | seek pos whence => exact hrep.seek hsound htakes

theorem performAll {calls : List Call} (htakes : file.TakesAll ms.flags calls) :
    (performAll ms calls).1 = (file.performAll ms.flags calls).1 ∧
      Represents (performAll ms calls).2 (file.performAll ms.flags calls).2 := by
  induction calls generalizing ms file with
  | nil => exact ⟨rfl, hrep⟩
  | cons call rest ih =>
    have hflags := (perform_keeps ms call).2
    obtain ⟨hreply, hnext⟩ := hrep.perform hsound hread htakes.1
    obtain ⟨hreplies, hlast⟩ := ih hnext (hsound.perform call) (hflags ▸ hread)
      (hflags ▸ htakes.2)
    rw [hflags] at hreplies hlast
    exact ⟨List.cons_eq_cons.mpr ⟨hreply, hreplies⟩, hlast⟩

end Represents

/-! ## Streams that have been opened -/

/-- The file that a stream starts as: the whole buffer, nothing, or the text in a
buffer that is given. -/
def initialFile (given : Bool) (bytes : Bytes) (flags : Flags) : ByteFile where
  contents :=
    if flags.append then if given then cstr bytes else []
    else if flags.truncate then [] else bytes
  pos := if flags.append then if given then (cstr bytes).length else 0 else 0
  capacity := bytes.length
  pos_le := by
    split
    · split
      · exact Nat.le_refl _
      · exact Nat.zero_le _
    · exact Nat.zero_le _
  length_le := by
    split
    · split
      · exact (List.takeWhile_prefix _).length_le
      · exact Nat.zero_le _
    · split
      · exact Nat.zero_le _
      · exact Nat.le_refl _

theorem openBuffer_represents (given : Bool) (bytes : Bytes) (flags : Flags) :
    Represents (openBuffer given bytes bytes.length flags) (initialFile given bytes flags) := by
  obtain ⟨hstart, hbytes, _⟩ := startPos_spec given flags bytes
  refine ⟨?_, ?_, rfl⟩
  · dsimp only [openBuffer, initialFile]
    rw [hbytes, hstart]
    cases flags.append with
    | true =>
      cases given with
      | true => exact List.prefix_iff_eq_take.mp (List.takeWhile_prefix _) |>.symm
      | false => rfl
    | false =>
      cases flags.truncate with
      | true => rfl
      | false => exact List.take_length
  · dsimp only [openBuffer, initialFile]
    rw [hstart]
    cases flags.append <;> cases given <;> rfl

/-- A stream that can be read answers every sequence of calls like a byte file. -/
theorem stream_refines_file {res : Resources} {buf : Option Bytes} {size : Nat} {type : Bytes}
    {ms : MemStream} (hbuffer : (streamBuffer res buf).length = size) (hlt : size < 2 ^ 31)
    (hopen : fmemopen res buf size type = .ok ms) (hread : (typeToFlags type).read = true)
    {file : ByteFile}
    (hfile : file = initialFile buf.isSome (streamBuffer res buf) (typeToFlags type))
    {calls : List Call} (htakes : file.TakesAll ms.flags calls) :
    (performAll ms calls).1 = (file.performAll ms.flags calls).1 ∧
      Represents (performAll ms calls).2 (file.performAll ms.flags calls).2 := by
  obtain ⟨hpos, rfl⟩ := fmemopen_ok hopen
  subst hfile hbuffer
  exact (openBuffer_represents buf.isSome (streamBuffer res buf) _).performAll
    (openBuffer_sound buf.isSome (typeToFlags type) rfl hpos hlt) hread htakes

/-- A stream of the type "w+", some calls, and what they bring. -/
theorem stream_refines_file_update :
    (performAll (openBuffer true fourBytes 4 (typeToFlags [119, 43]))
      [.write [7, 8, 9], .seek (-2) .seekCur, .read 5]).1 =
      [(.ok 3, []), (.ok 1, []), (.ok 2, [8, 9])] :=
  (@stream_refines_file _ _ _ _ _ rfl (by decide)
    (show fmemopen plenty (some fourBytes) 4 [119, 43] = .ok _ from rfl) (by decide) _ rfl
    [.write [7, 8, 9], .seek (-2) .seekCur, .read 5]
    ⟨show 3 < 2 ^ 31 by decide, ⟨by decide, by decide⟩, trivial, trivial⟩).1

end ApueFormal.Fmemopen
