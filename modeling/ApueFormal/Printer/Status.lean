import ApueFormal.Libc.Text
import ApueFormal.Program.Logic

/-!
# The response of the printer

`printer_status` reads the HTTP response into a buffer and looks for the status
code, the header `Content-Length` and the end of the header with a pointer into
the buffer.  Its accesses to the buffer and its reads from the socket are the
operations of a program.
-/

namespace ApueFormal.Printer

open Libc Program

def iobufsz : Nat := 8192

/-- What `printer_status` does to the memory from `bp` on and to its socket. -/
inductive Access where
  | load (index : Nat)
  | store (index : Nat) (byte : Byte)
  /-- An assignment to the variable `datsz`. -/
  | datsz (value : Nat)
  /-- `realloc` of the buffer. -/
  | grow (bufsz : Nat)
  /-- `tread` into the buffer at an offset. -/
  | tread (off len : Nat)
  /-- A conversion for which there is no argument. -/
  | noArgument

def accessSig : Signature where
  Op := Access
  Answer
    | .load _ => Byte
    | .store _ _ => Unit
    | .datsz _ => Unit
    | .grow _ => Unit
    | .tread _ _ => Int
    | .noArgument => Unit

/-- The program goes on in a way that C does not define. -/
inductive Undefined where
  | conversion

abbrev StatusProg (α : Type) := Prog accessSig Undefined α

def load (index : Nat) : StatusProg Byte := @Prog.op accessSig Undefined (.load index)

def store (index : Nat) (byte : Byte) : StatusProg Unit :=
  @Prog.op accessSig Undefined (.store index byte)

def setDatsz (value : Nat) : StatusProg Unit := @Prog.op accessSig Undefined (.datsz value)

def grow (bufsz : Nat) : StatusProg Unit := @Prog.op accessSig Undefined (.grow bufsz)

def tread (off len : Nat) : StatusProg Int := @Prog.op accessSig Undefined (.tread off len)

/-- `while (test(*cp)) cp++`. -/
def skip (test : Byte → Bool) (cp : Nat) : StatusProg Nat :=
  Prog.iterate
    (fun cp => (load cp).bind fun byte =>
      .ret (if test byte then Sum.inl (cp + 1) else Sum.inr cp)) cp

/-- The digits that `atoi` reads. -/
def digitsAt (cp : Nat) : StatusProg Bytes :=
  Prog.iterate
    (fun (read : Nat × Bytes) => (load read.1).bind fun byte =>
      .ret (if isDigit byte then Sum.inl (read.1 + 1, read.2 ++ [byte]) else Sum.inr read.2))
    (cp, [])

def tolower (byte : Byte) : Byte := if 65 ≤ byte ∧ byte ≤ 90 then byte + 32 else byte

/-- `strncasecmp` with a text in lower case. -/
def strncasecmp (cp : Nat) : Bytes → StatusProg Bool
  | [] => .ret true
  | char :: rest =>
    (load cp).bind fun byte =>
      if tolower byte = char then strncasecmp (cp + 1) rest else .ret false

/-- A byte of a format, and whether a `%` comes before it.  There are no arguments, so
that only another `%` may follow. -/
def logStep : Nat × Bool → StatusProg ((Nat × Bool) ⊕ Unit)
  | (cp, percent) => (load cp).bind fun byte =>
    if percent then
      if byte = 37 then .ret (Sum.inl (cp + 1, false))
      else (@Prog.op accessSig Undefined .noArgument).bind fun _ => .fail .conversion
    else .ret (if byte = 0 then Sum.inr () else Sum.inl (cp + 1, byte == 37))

/-- `log_msg(bp)`, which takes the buffer for a format. -/
def logMsg : StatusProg Unit := Prog.iterate logStep (0, false)

def isEol (byte : Byte) : Bool := byte == 13 || byte == 10

def contentLength : Bytes := ascii "content-length:"

/-- The variables of `printer_status`; `cp` is relative to `bp`. -/
structure Cursor where
  cp : Nat
  i : Nat
  datsz : Nat
  bufsz : Nat

/-- `readmore`: the end of the data, if there are more, and the size of the buffer. -/
def readmore (off bufsz : Nat) : StatusProg (Option Nat × Nat) :=
  (if off ≥ bufsz then (grow (bufsz + iobufsz)).bind fun _ => .ret (bufsz + iobufsz)
    else .ret bufsz).bind fun bufsz =>
    (tread off (bufsz - off)).bind fun nr =>
      .ret (if nr > 0 then (some (off + nr.toNat), bufsz) else (none, bufsz))

/-- "get more header": the variables afterwards, or nothing for `goto out`. -/
def getMore (vars : Cursor) : StatusProg (Option Cursor) :=
  (readmore vars.i vars.bufsz).bind fun (nr, bufsz) =>
    match nr with
    | none => .ret none
    | some nr =>
      (setDatsz (vars.datsz + nr)).bind fun _ =>
        .ret (some ⟨vars.i, vars.i, vars.datsz + nr, bufsz⟩)

def getMoreIf (need : Bool) (vars : Cursor) : StatusProg (Option Cursor) :=
  if need then getMore vars else .ret (some vars)

/-- `while (*cp != 'C' && *cp != 'c' && i < datsz) { cp++; i++; }`. -/
def skipToC (vars : Cursor) : StatusProg Cursor :=
  Prog.iterate
    (fun vars => (load vars.cp).bind fun byte =>
      .ret (if byte ≠ 67 ∧ byte ≠ 99 ∧ vars.i < vars.datsz then
        Sum.inl { vars with cp := vars.cp + 1, i := vars.i + 1 } else Sum.inr vars)) vars

/-- The value of the header, and the variables behind it. -/
def lengthValue (vars : Cursor) : StatusProg (Cursor × Int) :=
  (skip isSpace (vars.cp + contentLength.length)).bind fun contentlen =>
    (skip isDigit contentlen).bind fun cp =>
      (store cp 0).bind fun _ =>
        (digitsAt contentlen).bind fun digits =>
          .ret ({ vars with cp := cp + 1, i := cp + 1 }, atoi digits)

/-- The part of the search for `Content-Length` behind `skipToC` and the refill. -/
def compareLength (vars : Cursor) : StatusProg (Cursor ⊕ Option (Cursor × Int)) :=
  (strncasecmp vars.cp contentLength).bind fun found =>
    if found then (lengthValue vars).bind fun result => .ret (Sum.inr (some result))
    else .ret (Sum.inl { vars with cp := vars.cp + 1, i := vars.i + 1 })

def lengthTurn (vars : Cursor) : StatusProg (Cursor ⊕ Option (Cursor × Int)) :=
  (skipToC vars).bind fun vars =>
    (getMoreIf (vars.i ≥ vars.datsz) vars).bind fun more =>
      match more with
      | none => .ret (Sum.inr none)
      | some vars => compareLength vars

/-- The search for `Content-Length`: the variables behind it and its value. -/
def findLength (vars : Cursor) : StatusProg (Option (Cursor × Int)) :=
  Prog.iterate lengthTurn vars

/-- `*cp == '\n' && *(cp + 1) == '\r' && *(cp + 2) == '\n'`. -/
def blankLineAt (cp : Nat) : StatusProg Bool :=
  (load cp).bind fun first =>
    if first ≠ 10 then .ret false
    else (load (cp + 1)).bind fun second =>
      if second ≠ 13 then .ret false
      else (load (cp + 2)).bind fun third => .ret (third == 10)

/-- `while (i < datsz - 2)`: whether the end of the header was found. -/
def scanHeader (vars : Cursor) : StatusProg (Cursor × Bool) :=
  Prog.iterate
    (fun vars =>
      if vars.i < vars.datsz - 2 then
        (blankLineAt vars.cp).bind fun found =>
          .ret (if found then Sum.inr ({ vars with cp := vars.cp + 3, i := vars.i + 3 }, true)
            else Sum.inl { vars with cp := vars.cp + 1, i := vars.i + 1 })
      else .ret (Sum.inr (vars, false))) vars

def findEnd (vars : Cursor) : StatusProg (Option Cursor) :=
  Prog.iterate
    (fun vars => (scanHeader vars).bind fun (vars, found) =>
      (getMoreIf (vars.i ≥ vars.datsz) vars).bind fun more =>
        match more with
        | none => .ret (Sum.inr none)
        | some vars => .ret (if found then Sum.inr (some vars) else Sum.inl vars)) vars

/-- A number of two bytes, the first one most significant. -/
def loadShort (cp : Nat) : StatusProg Nat :=
  (load cp).bind fun high => (load (cp + 1)).bind fun low =>
    .ret (256 * high.toNat + low.toNat)

/-- The fields `status` and `request_id` of the IPP header. -/
def ippHeader (cp : Nat) : StatusProg (Nat × Int) :=
  (loadShort (cp + 2)).bind fun status =>
    (loadShort (cp + 4)).bind fun high => (loadShort (cp + 6)).bind fun low =>
      .ret (status, wrap 32 (65536 * high + low))

/-- Go on with what was read, or `goto out`. -/
def orOut {α : Type} (next : α → StatusProg Bool) : Option α → StatusProg Bool
  | none => .ret false
  | some value => next value

/-- The IPP part of a response whose header has been read. -/
def ippStatus (jobid : Int) (vars : Cursor) (len : Int) : StatusProg Bool :=
  (getMoreIf ((vars.datsz : Int) - vars.i < len) vars).bind (orOut fun vars =>
    (ippHeader vars.cp).bind fun (status, request) =>
      .ret (request == jobid && status ≤ 0xff))

/-- A response with a status code that means success. -/
def checkResponse (jobid : Int) (vars : Cursor) : StatusProg Bool :=
  (findLength vars).bind (orOut fun (vars, len) =>
    (getMoreIf (vars.i ≥ vars.datsz) vars).bind (orOut fun vars =>
      (findEnd vars).bind (orOut fun vars => ippStatus jobid vars len)))

/-- The body of the loop of `printer_status` after a read: to go on with the next
read, or the result. -/
def response (jobid : Int) (bufsz datsz : Nat) : StatusProg (Nat ⊕ Bool) :=
  (skip isSpace 8).bind fun statcode =>
    (skip isDigit statcode).bind fun cp =>
      if cp = statcode then logMsg.bind fun _ => .ret (Sum.inl bufsz)
      else
        (store cp 0).bind fun _ =>
          (skip (fun byte => !isEol byte) (cp + 1)).bind fun cp =>
            (store cp 0).bind fun _ =>
              (digitsAt statcode).bind fun digits =>
                if 100 ≤ atoi digits ∧ atoi digits ≤ 199 then .ret (Sum.inl bufsz)
                else if ¬ (200 ≤ atoi digits ∧ atoi digits ≤ 299) then
                  (store datsz 0).bind fun _ => .ret (Sum.inr false)
                else
                  (checkResponse jobid ⟨cp, cp, datsz, bufsz⟩).bind fun success =>
                    .ret (Sum.inr success)

/-- The body of the loop of `printer_status`. -/
def readResponse (jobid : Int) (bufsz : Nat) : StatusProg (Nat ⊕ Bool) :=
  (tread 0 bufsz).bind fun nr =>
    if nr ≤ 0 then .ret (Sum.inr false)
    else (setDatsz nr.toNat).bind fun _ => response jobid bufsz nr.toNat

def printerStatus (jobid : Int) : StatusProg Bool :=
  Prog.iterate (readResponse jobid) iobufsz

/-! ## The buffer and the socket -/

/-- The memory from `bp` on, the reads to come, and what is known of the data. -/
structure Channel where
  mem : Nat → Byte
  /-- The data of the reads to come, each of which gives some bytes. -/
  chunks : List Bytes
  /-- What `tread` returns when there are no more data. -/
  ending : Int
  bufsz : Nat
  /-- The number of bytes received since the last read at the start of the buffer. -/
  received : Nat
  datsz : Nat
  /-- All loads so far were below `datsz`, all stores below `bufsz`, `datsz` was the
  number of bytes received, and no conversion was without its argument. -/
  inside : Bool

/-- The state in which `printer_status` is called: the buffer is not initialised. -/
def Channel.start (mem : Nat → Byte) (chunks : List Bytes) (ending : Int) : Channel :=
  ⟨mem, chunks, ending, iobufsz, 0, 0, true⟩

/-- The memory after some bytes have been received at an offset. -/
def fill (mem : Nat → Byte) (off : Nat) (bytes : Bytes) (index : Nat) : Byte :=
  if off ≤ index then bytes.getD (index - off) (mem index) else mem index

/-- The chunks that are left after `len` bytes have been asked for. -/
def leftover (len : Nat) (chunk : Bytes) (rest : List Bytes) : List Bytes :=
  if chunk.length ≤ len then rest else chunk.drop len :: rest

def channel : Machine accessSig Channel
  | .load index, state =>
    (state.mem index, { state with inside := state.inside && decide (index < state.datsz) })
  | .store index byte, state =>
    ((), { state with
      mem := fill state.mem index [byte]
      inside := state.inside && decide (index < state.bufsz) })
  | .datsz value, state =>
    ((), { state with
      datsz := value
      inside := state.inside && decide (value = state.received ∧ value ≤ state.bufsz) })
  | .grow bufsz, state => ((), { state with bufsz })
  | .tread off len, state =>
    match state.chunks with
    | [] => (state.ending, state)
    | chunk :: rest =>
      (((chunk.take len).length : Int), { state with
        mem := fill state.mem off (chunk.take len)
        chunks := leftover len chunk rest
        received := (if off = 0 then 0 else state.received) + (chunk.take len).length })
  | .noArgument, state => ((), { state with inside := false })

end ApueFormal.Printer
