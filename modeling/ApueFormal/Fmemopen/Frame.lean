import ApueFormal.Fmemopen.Bounds

/-!
# What a write changes

A stream that can be read gets its NUL behind the contents.  A stream that can
only be written gets it behind the bytes of the write, or in the last byte of a
full buffer, and there it can destroy contents.
-/

namespace ApueFormal.Fmemopen

open Libc

namespace MemStream

def writeCount (ms : MemStream) (bytes : Bytes) : Nat :=
  min bytes.length (ms.rsize - ms.writeStart)

def copied (ms : MemStream) (bytes : Bytes) : Bytes :=
  writeAt ms.mem.bytes ms.writeStart (bytes.take (ms.writeCount bytes))

end MemStream

variable {ms : MemStream}

variable {bytes : Bytes}

end ApueFormal.Fmemopen
