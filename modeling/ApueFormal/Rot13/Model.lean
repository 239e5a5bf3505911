import ApueFormal.Libc.File
import Mathlib.Logic.Function.Basic

/-!
# Copying a file with asynchronous operations

`rot13a.c` translates a file block by block.  `rot13c2.c` does it with eight buffers, whose
operations are asynchronous: they end at any time and in any order.
-/

namespace ApueFormal.Rot13

open Libc

def bsz : Nat := 4096

def nbuf : Nat := 8

instance : NeZero nbuf := ⟨by decide⟩

def isAlpha (c : Byte) : Bool := (65 ≤ c && c ≤ 90) || (97 ≤ c && c ≤ 122)

def translate (c : Byte) : Byte :=
  if isAlpha c then
    if 110 ≤ c then c - 13
    else if 97 ≤ c then c + 13
    else if 78 ≤ c then c - 13
    else c + 13
  else c

/-- What `read` and `write` return at an offset, for a number of bytes. -/
structure Calls where
  read : Nat → Nat → Int
  write : Nat → Nat → Int

/-- Reads return all bytes that there are, and writes all that they get. -/
def Calls.full : Calls := ⟨fun _ n => n, fun _ n => n⟩

inductive SyncExit where
  | writeFailed
  | shortWrite (nw n : Int)

/-- The loop of `rot13a.c`. -/
def syncLoop (calls : Calls) (input : Bytes) : Nat → Nat → Bytes → Option (Except SyncExit Bytes)
  | 0, _, _ => none
  | fuel + 1, pos, output =>
    let bytes := readAt input pos bsz
    let n := calls.read pos bytes.length
    if n ≤ 0 then some (.ok output)
    else
      let buf := (bytes.take n.toNat).map translate
      let nw := calls.write pos n.toNat
      if nw ≠ n then
        if nw < 0 then some (.error .writeFailed) else some (.error (.shortWrite nw n))
      else syncLoop calls input fuel (pos + n.toNat) (writeAt output pos buf)

/-! ## The asynchronous program -/

inductive Rwop where
  | unused
  | readPending
  | writePending
  deriving DecidableEq

inductive Fd where
  | ifd
  | ofd
  deriving DecidableEq

/-- What `aio_error` and `aio_return` return. -/
inductive Status where
  | inProgress
  | ended (err ret : Int)
  deriving DecidableEq

structure Aiocb where
  fildes : Fd
  offset : Int
  nbytes : Nat
  status : Status

structure Buf where
  op : Rwop
  last : Bool
  aiocb : Aiocb
  data : Bytes

/-- The calls of `err_sys`, `err_exit` and `err_quit`. -/
inductive Exit where
  | aioReadFailed
  | aioErrorFailed
  | readFailed (err : Int)
  | aioReturnFailed
  | shortRead (n : Int)
  | aioWriteFailed
  | writeFailed (err : Int)
  | shortWrite (n : Int)
  | aioSuspendFailed

/-- Where main is: at a buffer, behind the loop over the buffers, in `aio_suspend`, behind
the main loop, or at its end with an error. -/
inductive Pc where
  | scan (i : Fin nbuf)
  | check
  | suspend
  | done
  | failed (exit : Exit)

structure State where
  bufs : Fin nbuf → Buf
  /-- Whether the entry is the control block of the buffer or null. -/
  aiolist : Fin nbuf → Bool
  off : Int
  numop : Int
  pc : Pc
  output : Bytes
  /-- The writes that have happened, with their offsets. -/
  writes : List (Int × Bytes)

def next (i : Fin nbuf) : Pc := if h : i + 1 < nbuf then .scan ⟨i + 1, h⟩ else .check

def State.set (state : State) (i : Fin nbuf) (buf : Buf) : State :=
  { state with bufs := Function.update state.bufs i buf }

/-- The case of an unused buffer.  A call of `aio_read` may be refused. -/
def State.startRead (size : Int) (accepted : Bool) (i : Fin nbuf) (state : State) : State :=
  let buf := state.bufs i
  if state.off < size then
    let off := wrap 64 (state.off + bsz)
    let state' := state.set i
      { buf with
        op := .readPending
        aiocb := ⟨.ifd, state.off, bsz, .inProgress⟩
        last := if size ≤ off then true else buf.last }
    if accepted then
      { state' with
        off := off
        aiolist := Function.update state.aiolist i true
        numop := state.numop + 1
        pc := next i }
    else { state' with off := off, pc := .failed .aioReadFailed }
  else { state with pc := next i }

/-- `aio_error` and `aio_return`: nothing while the operation is in progress. -/
def aioResult (failed : Int → Exit) : Status → Option (Except Exit Int)
  | .inProgress => none
  | .ended err ret =>
    if err ≠ 0 then
      if err = -1 then some (.error .aioErrorFailed) else some (.error (failed err))
    else if ret < 0 then some (.error .aioReturnFailed)
    else some (.ok ret)

theorem aioResult_ended (failed : Int → Exit) (n : Nat) :
    aioResult failed (.ended 0 n) = some (.ok n) := by
  dsimp only [aioResult]
  rw [if_neg (not_not_intro rfl), if_neg (Int.not_lt.mpr (Int.natCast_nonneg n))]

def State.endRead (accepted : Bool) (i : Fin nbuf) (state : State) : State :=
  let buf := state.bufs i
  match aioResult .readFailed buf.aiocb.status with
  | none => { state with pc := next i }
  | some (.error exit) => { state with pc := .failed exit }
  | some (.ok n) =>
    if n ≠ bsz ∧ buf.last = false then { state with pc := .failed (.shortRead n) }
    else
      let state' := state.set i
        { buf with
          op := .writePending
          aiocb := ⟨.ofd, buf.aiocb.offset, n.toNat, .inProgress⟩
          data := (buf.data.take n.toNat).map translate ++ buf.data.drop n.toNat }
      { state' with pc := if accepted then next i else .failed .aioWriteFailed }

def State.endWrite (i : Fin nbuf) (state : State) : State :=
  let buf := state.bufs i
  match aioResult .writeFailed buf.aiocb.status with
  | none => { state with pc := next i }
  | some (.error exit) => { state with pc := .failed exit }
  | some (.ok n) =>
    if n ≠ buf.aiocb.nbytes then { state with pc := .failed (.shortWrite n) }
    else
      { state.set i { buf with op := .unused } with
        aiolist := Function.update state.aiolist i false
        numop := state.numop - 1
        pc := next i }

def State.scan (size : Int) (accepted : Bool) (i : Fin nbuf) (state : State) : State :=
  match (state.bufs i).op with
  | .unused => state.startRead size accepted i
  | .readPending => state.endRead accepted i
  | .writePending => state.endWrite i

/-- One step of main, for an input file of some size. -/
def State.main (size : Int) (accepted : Bool) (state : State) : Option State :=
  match state.pc with
  | .scan i => some (state.scan size accepted i)
  | .check =>
    some { state with
      pc := if state.numop = 0 then if size ≤ state.off then .done else .scan 0 else .suspend }
  | .suspend =>
    if accepted then
      if ∃ i, state.aiolist i = true ∧ (state.bufs i).aiocb.status ≠ .inProgress then
        some { state with pc := .scan 0 }
      else none
    else some { state with pc := .failed .aioSuspendFailed }
  | .done => none
  | .failed _ => none

/-- The operation of a buffer ends with a result.  A read has filled the buffer, or a write
has changed the output file, to the extent of the result.  Main does not use the buffer or
the output file before, so that all effects can be at the end. -/
def State.finish (input : Bytes) (i : Fin nbuf) (err ret : Int) (state : State) : State :=
  let buf := state.bufs i
  let aiocb := { buf.aiocb with status := .ended err ret }
  match buf.aiocb.fildes with
  | .ifd =>
    let bytes := (readAt input buf.aiocb.offset.toNat buf.aiocb.nbytes).take ret.toNat
    state.set i { buf with aiocb, data := bytes ++ buf.data.drop bytes.length }
  | .ofd =>
    let bytes := buf.data.take ret.toNat
    { state.set i { buf with aiocb } with
      output := writeAt state.output buf.aiocb.offset.toNat bytes
      writes := state.writes ++ [(buf.aiocb.offset, bytes)] }

/-- The number of bytes that are there for an operation. -/
def Aiocb.available (input : Bytes) (aiocb : Aiocb) : Nat :=
  match aiocb.fildes with
  | .ifd => (readAt input aiocb.offset.toNat aiocb.nbytes).length
  | .ofd => aiocb.nbytes

inductive Event where
  /-- A step of main, whose call of `aio_read`, `aio_write` or `aio_suspend` succeeds or
  fails. -/
  | main (accepted : Bool)
  /-- The operation of a buffer ends with all its bytes. -/
  | complete (i : Fin nbuf)
  /-- The operation of a buffer ends with any result. -/
  | fault (i : Fin nbuf) (err ret : Int)

/-- The buffer has an operation that has not ended. -/
def Buf.Pending (buf : Buf) : Prop := buf.op ≠ .unused ∧ buf.aiocb.status = .inProgress

instance (buf : Buf) : Decidable buf.Pending := inferInstanceAs (Decidable (_ ∧ _))

def State.next (input : Bytes) (state : State) : Event → Option State
  | .main accepted => state.main input.length accepted
  | .complete i =>
    let aiocb := (state.bufs i).aiocb
    if (state.bufs i).Pending ∧ 0 ≤ aiocb.offset then
      some (state.finish input i 0 (aiocb.available input))
    else none
  | .fault i err ret =>
    if (state.bufs i).Pending then some (state.finish input i err ret) else none

def State.run (input : Bytes) (state : State) (events : List Event) : Option State :=
  events.foldlM (State.next input) state

def start : State where
  bufs _ := ⟨.unused, false, ⟨.ifd, 0, 0, .ended 0 0⟩, List.replicate bsz 0⟩
  aiolist _ := false
  off := 0
  numop := 0
  pc := .scan 0
  output := []
  writes := []

end ApueFormal.Rot13
