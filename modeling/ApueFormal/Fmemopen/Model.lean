import ApueFormal.Libc.File

/-!
# Memory streams

`fmemopen` makes a stream of a buffer in memory.  The stream keeps the size of
the buffer, the number of bytes that are contents, and a position.  The model
also keeps the indices of all bytes of the buffer that have been accessed.
-/

namespace ApueFormal.Fmemopen

open Libc

inductive Errno where
  | einval
  | enomem
  | ebadf
  deriving DecidableEq

/-- The bits of `flags`. -/
structure Flags where
  read : Bool
  write : Bool
  append : Bool
  truncate : Bool
  mybuf : Bool
  deriving DecidableEq

def Flags.zero : Flags := ⟨false, false, false, false, false⟩

/-- One character of the type; nothing stands for an error. -/
def typeChar (flags : Flags) (char : Byte) : Option Flags :=
  if char = 114 then -- r
    if flags ≠ .zero then none else some { flags with read := true }
  else if char = 119 then -- w
    if flags ≠ .zero then none else some { flags with write := true, truncate := true }
  else if char = 97 then -- a
    if flags ≠ .zero then none else some { flags with append := true }
  else if char = 43 then -- +
    if flags = .zero then none else some { flags with read := true, write := true }
  else if char = 98 then -- b
    if flags = .zero then none else some flags
  else none

/-- `type_to_flags`; no bit is set when there is an error. -/
def typeToFlags (type : Bytes) : Flags := (type.foldlM typeChar .zero).getD .zero

/-! ## The buffer -/

/-- The bytes of the buffer, and the indices that have been accessed. -/
structure Memory where
  bytes : Bytes
  touched : List Nat
  deriving DecidableEq

namespace Memory

def load (mem : Memory) (index : Nat) : Byte × Memory :=
  (mem.bytes.getD index 0, { mem with touched := index :: mem.touched })

def store (mem : Memory) (index : Nat) (byte : Byte) : Memory :=
  ⟨writeAt mem.bytes index [byte], index :: mem.touched⟩

def copyOut (mem : Memory) (off count : Nat) : Bytes × Memory :=
  (readAt mem.bytes off count, { mem with touched := List.range' off count ++ mem.touched })

def copyIn (mem : Memory) (off : Nat) (bytes : Bytes) : Memory :=
  ⟨writeAt mem.bytes off bytes, List.range' off bytes.length ++ mem.touched⟩

end Memory

/-- `find_end` from an offset on, with a bound on the turns of its loop. -/
def findEndFrom (len : Nat) : Nat → Nat → Memory → Nat × Memory
  | 0, off, mem => (off, mem)
  | fuel + 1, off, mem =>
    if off < len then
      let (byte, mem) := mem.load off
      if byte = 0 then (off, mem) else findEndFrom len fuel (off + 1) mem
    else (off, mem)

def findEnd (mem : Memory) (len : Nat) : Nat × Memory := findEndFrom len len 0 mem

structure MemStream where
  mem : Memory
  rsize : Nat
  vsize : Nat
  curpos : Nat
  flags : Flags
  deriving DecidableEq

/-! ## Opening a stream -/

/-- What the allocations of `fmemopen` bring: room for the stream, a buffer when none
is given, and the result of `funopen`. -/
structure Resources where
  stream : Bool
  buffer : Option Bytes
  funopen : Except Errno Unit

/-- `ms->curpos`, and the buffer after the search for its end. -/
def startPos (given : Bool) (flags : Flags) (mem : Memory) (size : Nat) : Nat × Memory :=
  if given && flags.append then findEnd mem size else (0, mem)

/-- The stream over a buffer, which is given or has been allocated. -/
def openBuffer (given : Bool) (bytes : Bytes) (size : Nat) (flags : Flags) : MemStream :=
  let (curpos, mem) := startPos given flags ⟨bytes, []⟩ size
  let vsize := if flags.append then curpos else if flags.truncate then 0 else size
  ⟨mem, size, vsize, curpos, { flags with mybuf := !given }⟩

def fmemopen (res : Resources) (buf : Option Bytes) (size : Nat) (type : Bytes) :
    Except Errno MemStream :=
  if size = 0 then .error .einval
  else if !res.stream then .error .enomem
  else
    let flags := typeToFlags type
    if flags = .zero then .error .einval
    else
      match buf with
      | none =>
        if !(flags.read && flags.write) then .error .einval
        else
          match res.buffer with
          | none => .error .enomem
          | some bytes => res.funopen.map fun _ => openBuffer false bytes size flags
      | some bytes => res.funopen.map fun _ => openBuffer true bytes size flags

/-! ## Calls on a stream -/

/-- The result and the bytes that have been read. -/
def mstreamRead (ms : MemStream) (len : Int) : (Except Errno Int × Bytes) × MemStream :=
  if !ms.flags.read then ((.error .ebadf, []), ms)
  else if ms.curpos ≥ ms.vsize then ((.ok 0, []), ms)
  else
    let nr := toInt (min (toSize len) (toSize (ms.vsize - ms.curpos)))
    let (bytes, mem) := ms.mem.copyOut ms.curpos (toSize nr)
    ((.ok nr, bytes), { ms with mem, curpos := toSize (ms.curpos + nr) })

/-- The NUL behind the end of a stream that can be read and written. -/
def extend (ms : MemStream) : MemStream :=
  if ms.curpos > ms.vsize then
    let ms := { ms with vsize := ms.curpos }
    if ms.flags.read && ms.flags.write && decide (ms.vsize < ms.rsize) then
      { ms with mem := ms.mem.store ms.vsize 0 }
    else ms
  else ms

/-- The NUL behind the position of a stream that can only be written. -/
def terminate (ms : MemStream) : MemStream :=
  if (ms.flags.write || ms.flags.append) && !ms.flags.read then
    if ms.curpos < ms.rsize then { ms with mem := ms.mem.store ms.curpos 0 }
    else { ms with mem := ms.mem.store (toSize (ms.rsize - 1)) 0 }
  else ms

def mstreamWrite (ms : MemStream) (buf : Bytes) (len : Int) : Except Errno Int × MemStream :=
  if !(ms.flags.append || ms.flags.write) then (.error .ebadf, ms)
  else
    let off := toInt (if ms.flags.append then ms.vsize else ms.curpos)
    let nw := toInt (min (toSize len) (toSize (ms.rsize - off)))
    let mem := ms.mem.copyIn (toSize off) (buf.take (toSize nw))
    (.ok nw, terminate (extend { ms with mem, curpos := toSize (off + nw) }))

inductive Whence where
  | seekSet
  | seekEnd
  | seekCur
  deriving DecidableEq

/-- The offset of a seek, which is an `int`. -/
def seekOff (ms : MemStream) (pos : Int) : Whence → Int
  | .seekSet => wrap 32 pos
  | .seekEnd => toInt (toSize (ms.vsize + pos))
  | .seekCur => toInt (toSize (ms.curpos + pos))

def mstreamSeek (ms : MemStream) (pos : Int) (whence : Whence) : Except Errno Int × MemStream :=
  let off := seekOff ms pos whence
  if off < 0 ∨ toSize off > ms.vsize then (.error .einval, ms)
  else (.ok off, { ms with curpos := toSize off })

/-! ## Sequences of calls -/

inductive Call where
  | read (len : Int)
  | write (bytes : Bytes)
  | seek (pos : Int) (whence : Whence)

abbrev Reply := Except Errno Int × Bytes

def perform (ms : MemStream) : Call → Reply × MemStream
  | .read len => mstreamRead ms len
  | .write bytes =>
    let (result, ms) := mstreamWrite ms bytes bytes.length
    ((result, []), ms)
  | .seek pos whence =>
    let (result, ms) := mstreamSeek ms pos whence
    ((result, []), ms)

def performAll (ms : MemStream) : List Call → List Reply × MemStream
  | [] => ([], ms)
  | call :: rest =>
    let (reply, ms) := perform ms call
    let (replies, ms) := performAll ms rest
    (reply :: replies, ms)

end ApueFormal.Fmemopen
