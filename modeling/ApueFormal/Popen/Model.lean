import ApueFormal.Libc.Table
import ApueFormal.Libc.Text

/-!
# popen and pclose

The two functions over the descriptors of the parent and the array `childpid`, and the
descriptors of the child when it calls `execl`.
-/

namespace ApueFormal.Popen

open Libc

inductive Side where
  | read
  | write
  deriving DecidableEq

inductive Desc where
  | other (object : Nat)
  | pipe (id : Nat) (side : Side)
  deriving DecidableEq

structure Parent where
  fds : Table Desc
  /-- A null pointer before the first call. -/
  childpid : Option (Nat → Nat)
  /-- The number of pipes that have been made; the next one gets this number. -/
  pipes : Nat

def Parent.pid (parent : Parent) (fd : Nat) : Nat :=
  match parent.childpid with
  | none => 0
  | some childpid => childpid fd

inductive Mode where
  | r
  | w
  deriving DecidableEq

def modeOf (type : CString) : Option Mode :=
  if type.bytes = ascii "r" then some .r else if type.bytes = ascii "w" then some .w else none

/-! ## popen -/

/-- What the calls of `popen` return. -/
structure PopenCalls where
  calloc : Bool
  pipe : Option (Nat × Nat)
  fork : Option Nat
  fdopen : Bool

/-- The exits of `popen` with a null pointer. -/
inductive PopenError where
  | einval
  | calloc
  | pipe
  | emfile
  | fork
  | fdopen
  deriving DecidableEq

structure Popened where
  parent : Parent
  /-- The descriptor of the stream. -/
  result : Except PopenError Nat
  /-- The descriptors of the child when it calls `execl`. -/
  child : Option (Table Desc)

def openPipe (fds : Table Desc) (pfd : Nat × Nat) (id : Nat) : Table Desc :=
  (fds.opened pfd.1 (.pipe id .read)).opened pfd.2 (.pipe id .write)

def stdinFileno : Nat := 0

def stdoutFileno : Nat := 1

/-- The child up to `execl`. -/
def runChild (maxfd : Nat) (mode : Mode) (pfd : Nat × Nat) (childpid : Nat → Nat)
    (fds : Table Desc) : Table Desc :=
  let fds :=
    match mode with
    | .r =>
      let fds := fds.close pfd.1
      if pfd.2 ≠ stdoutFileno then
        let fds := fds.dup2 pfd.2 stdoutFileno
        fds.close pfd.2
      else fds
    | .w =>
      let fds := fds.close pfd.2
      if pfd.1 ≠ stdinFileno then
        let fds := fds.dup2 pfd.1 stdinFileno
        fds.close pfd.1
      else fds
  -- "close all descriptors in childpid[]"
  fds.closeMarked (fun fd => childpid fd > 0) maxfd

/-- The parent behind `fork`. -/
def runParent (mode : Mode) (pfd : Nat × Nat) (childpid : Nat → Nat) (pid : Nat) (fdopen : Bool)
    (parent : Parent) : Parent × Except PopenError Nat :=
  match mode with
  | .r =>
    let parent := { parent with fds := parent.fds.close pfd.2 }
    if fdopen then
      ({ parent with childpid := some (Function.update childpid pfd.1 pid) }, .ok pfd.1)
    else (parent, .error .fdopen)
  | .w =>
    let parent := { parent with fds := parent.fds.close pfd.1 }
    if fdopen then
      ({ parent with childpid := some (Function.update childpid pfd.2 pid) }, .ok pfd.2)
    else (parent, .error .fdopen)

/-- `popen` behind the allocation of `childpid`. -/
def popenPipe (maxfd : Nat) (mode : Mode) (calls : PopenCalls) (childpid : Nat → Nat)
    (parent : Parent) : Popened :=
  match calls.pipe with
  | none => ⟨parent, .error .pipe, none⟩
  | some pfd =>
    let parent := { parent with
      fds := openPipe parent.fds pfd parent.pipes
      pipes := parent.pipes + 1 }
    if pfd.1 ≥ maxfd ∨ pfd.2 ≥ maxfd then
      ⟨{ parent with fds := (parent.fds.close pfd.1).close pfd.2 }, .error .emfile, none⟩
    else
      match calls.fork with
      | none => ⟨parent, .error .fork, none⟩
      | some pid =>
        let (after, result) := runParent mode pfd childpid pid calls.fdopen parent
        ⟨after, result, some (runChild maxfd mode pfd childpid parent.fds)⟩

def popen (maxfd : Nat) (type : CString) (calls : PopenCalls) (parent : Parent) : Popened :=
  match modeOf type with
  | none => ⟨parent, .error .einval, none⟩
  | some mode =>
    match parent.childpid with
    | some childpid => popenPipe maxfd mode calls childpid parent
    | none =>
      if calls.calloc then
        popenPipe maxfd mode calls (fun _ => 0) { parent with childpid := some fun _ => 0 }
      else ⟨parent, .error .calloc, none⟩

/-! ## pclose -/

/-- What `waitpid` returns. -/
inductive Waitpid where
  | eintr
  | failed
  | ended (stat : Int)

/-- The loop of `pclose`; it is still waiting when the results are used up. -/
def waitChild : List Waitpid → Option Int
  | [] => none
  | .eintr :: rest => waitChild rest
  | .failed :: _ => some (-1)
  | .ended stat :: _ => some stat

/-- What the calls of `pclose` return. -/
structure PcloseCalls where
  /-- `fclose` returns `EOF`; the descriptor is closed all the same. -/
  fcloseEof : Bool
  waitpid : List Waitpid

/-- `pclose` on a stream with a given descriptor. -/
def pclose (maxfd fd : Nat) (calls : PcloseCalls) (parent : Parent) : Parent × Option Int :=
  match parent.childpid with
  | none => (parent, some (-1))
  | some childpid =>
    if fd ≥ maxfd then (parent, some (-1))
    else if childpid fd = 0 then (parent, some (-1))
    else
      let parent := { parent with
        fds := parent.fds.close fd
        childpid := some (Function.update childpid fd 0) }
      if calls.fcloseEof then (parent, some (-1)) else (parent, waitChild calls.waitpid)

/-! ## Runs -/

inductive Call where
  | popen (type : CString) (calls : PopenCalls)
  | pclose (fd : Nat) (calls : PcloseCalls)

def Call.exec (maxfd : Nat) (parent : Parent) : Call → Parent
  | .popen type calls => (Popen.popen maxfd type calls parent).parent
  | .pclose fd calls => (Popen.pclose maxfd fd calls parent).1

/-- A pipe gets two free descriptors, and a child a number that is not 0. -/
structure PopenCalls.Possible (calls : PopenCalls) (parent : Parent) : Prop where
  pipe : ∀ pfd, calls.pipe = some pfd →
    pfd.1 ≠ pfd.2 ∧ parent.fds pfd.1 = none ∧ parent.fds pfd.2 = none
  fork : ∀ pid, calls.fork = some pid → 0 < pid

def Call.Possible (parent : Parent) : Call → Prop
  | .popen _ calls => calls.Possible parent
  | .pclose _ _ => True

/-- A program that has not called `popen`, with any descriptors. -/
def Initial (parent : Parent) : Prop :=
  parent.childpid = none ∧ ∀ fd id side, parent.fds fd ≠ some (.pipe id side)

def Step (maxfd : Nat) (allowed : Call → Prop) (parent after : Parent) : Prop :=
  ∃ call : Call, allowed call ∧ call.Possible parent ∧ after = call.exec maxfd parent

end ApueFormal.Popen
