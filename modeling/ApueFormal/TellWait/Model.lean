import ApueFormal.Libc.Text
import ApueFormal.Program.System
import Mathlib.Logic.Function.Basic

/-!
# Processes that take turns

The parent and the child of `devzero` update a counter in turn.  Each tells the
other one when it is done, and waits until it is told.  There are two ways to
tell and to wait: signals, and bytes in two pipes.
-/

namespace ApueFormal.TellWait

open Libc Program

inductive Side where
  | parent
  | child
  deriving DecidableEq

def Side.other : Side → Side
  | .parent => .child
  | .child => .parent

/-- How a process is told, and how it waits for that.  A process has some mail, and
in a wait it is at some point. -/
structure Mechanism (W M Ev : Type) where
  /-- The first point of a wait. -/
  start : W
  /-- What is done to the mail of the side that is told. -/
  tell : Side → M → M
  /-- A step of a wait, unless it blocks; no point means that the wait has ended. -/
  wait : Side → W → M → Option (Option W × M)
  /-- An event that happens to a process outside of a wait. -/
  interrupt : Ev → M → Option M
  /-- An event that happens to a process in a wait. -/
  awaken : Ev → W → M → Option (W × M)

/-! ## The loops of devzero -/

/-- Where a process is in the round with the number `i`. -/
inductive Pc (W : Type) where
  /-- `update` reads the counter. -/
  | load (i : Nat)
  /-- `update` stores the value it has read, plus one. -/
  | store (i value : Nat)
  /-- `counter != i`. -/
  | check (i counter : Nat)
  /-- `err_quit` has ended the process. -/
  | mismatch (i counter : Nat)
  /-- `TELL_CHILD` or `TELL_PARENT`. -/
  | tell (i : Nat)
  /-- In `WAIT_CHILD` or `WAIT_PARENT`. -/
  | wait (i : Nat) (point : W)
  /-- `exit(0)`. -/
  | done
  deriving DecidableEq

structure System (W M : Type) where
  /-- The counter in the shared memory. -/
  area : Nat
  pc : Side → Pc W
  mail : Side → M

inductive Action (Ev : Type) where
  | run (side : Side)
  | deliver (side : Side) (ev : Ev)

section Loops

variable {W M Ev : Type} (mech : Mechanism W M Ev) (nloops : Nat)

def head : Side → Nat → Pc W
  | .parent, i => if i < nloops then .load i else .done
  | .child, i => if i < nloops + 1 then .wait i mech.start else .done

def afterTell : Side → Nat → Pc W
  | .parent, i => .wait i mech.start
  | .child, i => head mech nloops .child (i + 2)

def afterWait : Side → Nat → Pc W
  | .parent, i => head mech nloops .parent (i + 2)
  | .child, i => .load i

def System.goto (sys : System W M) (side : Side) (pc : Pc W) : System W M :=
  { sys with pc := Function.update sys.pc side pc }

def System.post (sys : System W M) (side : Side) (mail : M) : System W M :=
  { sys with mail := Function.update sys.mail side mail }

/-- A step of a process, unless it is blocked or has ended. -/
def run (side : Side) (sys : System W M) : Option (System W M) :=
  match sys.pc side with
  | .load i => some (sys.goto side (.store i sys.area))
  | .store i value => some ({ sys with area := value + 1 }.goto side (.check i value))
  | .check i counter =>
    some (sys.goto side (if counter ≠ i then .mismatch i counter else .tell i))
  | .mismatch _ _ => none
  | .tell i =>
    some ((sys.post side.other (mech.tell side.other (sys.mail side.other))).goto side
      (afterTell mech nloops side i))
  | .wait i point =>
    (mech.wait side point (sys.mail side)).map fun (point, mail) =>
      (sys.post side mail).goto side
        (match point with
          | some point => .wait i point
          | none => afterWait mech nloops side i)
  | .done => none

/-- An event, unless it cannot happen. -/
def deliver (side : Side) (ev : Ev) (sys : System W M) : Option (System W M) :=
  match sys.pc side with
  | .mismatch _ _ => none
  | .done => none
  | .wait i point =>
    (mech.awaken ev point (sys.mail side)).map fun (point, mail) =>
      (sys.post side mail).goto side (.wait i point)
  | _ => (mech.interrupt ev (sys.mail side)).map fun mail => sys.post side mail

def act : Action Ev → System W M → Option (System W M)
  | .run side, sys => run mech nloops side sys
  | .deliver side ev, sys => deliver mech side ev sys

def forked (mail : Side → M) : System W M where
  area := 0
  pc
    | .parent => head mech nloops .parent 0
    | .child => head mech nloops .child 1
  mail := mail

def Reached (mail : Side → M) : System W M → Prop :=
  Reaches (· = forked mech nloops mail)
    fun sys sys' => ∃ action, act mech nloops action sys = some sys'

end Loops

/-! ## Signals -/

inductive Signal where
  | usr1
  | usr2
  deriving DecidableEq

structure SigState where
  sigflag : Bool
  /-- The signal mask. -/
  blocked : Signal → Bool
  pending : Signal → Bool
  oldmask : Signal → Bool

inductive SigWait where
  /-- `while (sigflag == 0)`. -/
  | test
  /-- Before the call of `sigsuspend`. -/
  | suspend
  /-- In `sigsuspend`. -/
  | suspended
  /-- `sigflag = 0`. -/
  | clear
  /-- `sigprocmask`. -/
  | setmask
  deriving DecidableEq

/-- `TELL_WAIT` in a process with some signal mask. -/
def tellWait (mask : Signal → Bool) : SigState where
  sigflag := false
  blocked _ := true
  pending _ := false
  oldmask := mask

def signalFor : Side → Signal
  | .parent => .usr2
  | .child => .usr1

/-- The handler `sig_usr` has run for a signal. -/
def SigState.caught (proc : SigState) (sig : Signal) : SigState :=
  { proc with pending := Function.update proc.pending sig false, sigflag := true }

def signals : Mechanism SigWait SigState Signal where
  start := .test
  tell side proc :=
    { proc with pending := Function.update proc.pending (signalFor side) true }
  wait _ point proc :=
    match point with
    | .test => some (some (if proc.sigflag then .clear else .suspend), proc)
    | .suspend => some (some .suspended, proc)
    | .suspended => none
    | .clear => some (some .setmask, { proc with sigflag := false })
    | .setmask => some (none, { proc with blocked := proc.oldmask })
  interrupt sig proc :=
    if proc.pending sig && !proc.blocked sig then some (proc.caught sig) else none
  awaken sig point proc :=
    -- In `sigsuspend` no signal is blocked, and the handler ends the call.
    if point = .suspended then if proc.pending sig then some (.test, proc.caught sig) else none
    else if proc.pending sig && !proc.blocked sig then some (point, proc.caught sig) else none

/-! ## Pipes -/

inductive PipeWait where
  | read
  /-- The comparison of the byte that was read. -/
  | compare (byte : Byte)
  /-- `err_quit` has ended the process. -/
  | quit
  deriving DecidableEq

def byteFor : Side → Byte
  | .parent => 99
  | .child => 112

/-- The mail of a process is the contents of the pipe that it reads. -/
def pipes : Mechanism PipeWait Bytes Empty where
  start := .read
  tell side pipe := pipe ++ [byteFor side]
  wait side point pipe :=
    match point with
    | .read =>
      match pipe with
      | [] => none
      | byte :: rest => some (some (.compare byte), rest)
    | .compare byte => some (if byte ≠ byteFor side then some .quit else none, pipe)
    | .quit => none
  interrupt ev _ := ev.elim
  awaken ev _ _ := ev.elim

end ApueFormal.TellWait
