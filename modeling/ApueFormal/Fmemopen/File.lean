import ApueFormal.Libc.File

/-!
# Bounded byte files

A file with a position and a capacity, as a sequence of bytes: what a stream
over a buffer of fixed size is for.
-/

namespace ApueFormal.Fmemopen

open Libc

structure ByteFile where
  contents : Bytes
  pos : Nat
  capacity : Nat
  pos_le : pos ≤ contents.length
  length_le : contents.length ≤ capacity

namespace ByteFile

/-- The bytes from the position on, and the file behind them. -/
def read (file : ByteFile) (count : Nat) : Bytes × ByteFile :=
  (readAt file.contents file.pos count,
    { file with
      pos := file.pos + min count (file.contents.length - file.pos)
      pos_le := by
        have hpos := file.pos_le
        omega })

def start (file : ByteFile) (append : Bool) : Nat :=
  if append then file.contents.length else file.pos

theorem start_le (file : ByteFile) (append : Bool) : file.start append ≤ file.contents.length := by
  unfold start
  split
  · exact Nat.le_refl _
  · exact file.pos_le

def part (file : ByteFile) (append : Bool) (bytes : Bytes) : Bytes :=
  bytes.take (file.capacity - file.start append)

/-- The number of bytes that have been stored, and the file behind them. -/
def write (file : ByteFile) (append : Bool) (bytes : Bytes) : Nat × ByteFile :=
  ((file.part append bytes).length,
    { file with
      contents := writeAt file.contents (file.start append) (file.part append bytes)
      pos := file.start append + (file.part append bytes).length
      pos_le := by
        rw [length_writeAt]
        exact Nat.le_max_right ..
      length_le := by
        have hstart := file.start_le append
        have hlength := file.length_le
        rw [length_writeAt, part, List.length_take]
        omega })

/-- The file at another position, when there is such a position. -/
def seek (file : ByteFile) (target : Int) : Option ByteFile :=
  if htarget : 0 ≤ target ∧ target ≤ file.contents.length then
    some { file with
      pos := target.toNat
      pos_le := by omega }
  else none

end ByteFile

end ApueFormal.Fmemopen
