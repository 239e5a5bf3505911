import ApueFormal.Libc.Semop
import ApueFormal.Libc.Text
import ApueFormal.Program.System

/-!
# The semaphore package

`semaph.c` uses a set of three semaphores: [0] is the semaphore of the users, [1]
counts the processes that have it open, and [2] is a lock for `sem_create` and
`sem_close`.  The processes of a type `P` call its routines with one key.  Each
system call is one step, a `semop` that blocks is one more, and a process may exit
at any time.  The identifier of a set that has been removed does not come back.
-/

namespace ApueFormal.Semaphore

open Libc Program

def bigcount : Int := 10000

abbrev Ops := List (Sembuf (Fin 3))

def opLock : Ops := [⟨2, 0, false⟩, ⟨2, 1, true⟩]

def opEndcreate : Ops := [⟨1, -1, true⟩, ⟨2, -1, true⟩]

def opOpen : Ops := [⟨1, -1, true⟩]

def opClose : Ops := [⟨2, 0, false⟩, ⟨2, 1, true⟩, ⟨1, 1, true⟩]

def opUnlock : Ops := [⟨2, -1, true⟩]

/-- `op_op` with an amount, which is stored in a `short`. -/
def opOp (value : Int) : Ops := [⟨0, wrap 16 value, true⟩]

structure SemSet (P : Type) extends Sems P (Fin 3) where
  id : Nat
  /-- Somebody has done the `SETVAL` of [1]. -/
  initialised : Bool

/-- The set that `semget` creates. -/
def newSet (P : Type) (id : Nat) : SemSet P where
  val _ := 0
  adj _ _ := 0
  id := id
  initialised := false

/-! ## The routines -/

inductive Routine where
  | semCreate
  | semOpen
  | semClose
  | semRm
  | semOp
  deriving DecidableEq

inductive Pc where
  /-- Outside of the package, after a call that has returned an identifier, -1 or nothing. -/
  | idle (result : Option Nat)
  /-- `semget` in `sem_create`, at the label `again`. -/
  | createGet (initval : Int)
  | createLock (id : Nat) (initval : Int)
  /-- `GETVAL` of [1] in `sem_create`. -/
  | createRead (id : Nat) (initval : Int)
  | createSet0 (id : Nat) (initval : Int)
  | createSet1 (id : Nat)
  | createEnd (id : Nat)
  /-- `semget` in `sem_open`. -/
  | openGet
  | openCount (id : Nat)
  | closeLock (id : Nat)
  /-- `GETVAL` of [1] in `sem_close`. -/
  | closeRead (id : Nat)
  /-- `sem_rm` in `sem_close`. -/
  | closeRemove (id : Nat)
  | closeUnlock (id : Nat)
  | semOp (id : Nat) (value : Int)
  /-- In `err_sys`, perhaps with the lock of a set. -/
  | errSys (routine : Routine) (text : String) (lock : Option Nat)
  /-- In `err_dump`. -/
  | errDump (text : String) (lock : Option Nat)
  /-- The process has exited. -/
  | gone
  deriving DecidableEq

def Pc.locks : Pc → Option Nat
  | .createRead id _ => some id
  | .createSet0 id _ => some id
  | .createSet1 id => some id
  | .createEnd id => some id
  | .closeRead id => some id
  | .closeRemove id => some id
  | .closeUnlock id => some id
  | .errSys _ _ lock => lock
  | .errDump _ lock => lock
  | _ => none

inductive Errno where
  | einval
  | eidrm
  | erange
  deriving DecidableEq

/-- A call of `semop`: its array, what follows, and what it means for the number of opens
of the process. -/
structure Semcall where
  id : Nat
  ops : Ops
  next : Pc
  error : Errno → Pc
  opens : Nat → Nat

/-- The place of a process in a call of `semop`. -/
def Pc.semcall : Pc → Option Semcall
  | .createLock id initval => some
      { id := id
        ops := opLock
        next := .createRead id initval
        error := fun
          | .einval => .createGet initval
          | _ => .errSys .semCreate "can't lock" none
        opens := fun opens => opens }
  | .createEnd id => some
      { id := id
        ops := opEndcreate
        next := .idle (some id)
        error := fun _ => .errSys .semCreate "can't end create" (some id)
        opens := fun opens => opens + 1 }
  | .openCount id => some
      { id := id
        ops := opOpen
        next := .idle (some id)
        error := fun _ => .errSys .semOpen "can't open" none
        opens := fun opens => opens + 1 }
  | .closeLock id => some
      { id := id
        ops := opClose
        next := .closeRead id
        error := fun _ => .errSys .semClose "can't semop" none
        opens := fun opens => opens - 1 }
  | .closeUnlock id => some
      { id := id
        ops := opUnlock
        next := .idle none
        error := fun _ => .errSys .semClose "can't unlock" (some id)
        opens := fun opens => opens }
  | .semOp id value => some
      { id := id
        ops := opOp value
        next := .idle none
        error := fun _ => .errSys .semOp "sem_op error" none
        opens := fun opens => opens }
  | _ => none

/-! ## The system -/

structure State (P : Type) where
  /-- The set that has the key. -/
  live : Option (SemSet P)
  /-- The identifier of the next set. -/
  next : Nat
  pc : P → Pc
  /-- The process sleeps in its `semop`. -/
  blocked : P → Bool
  /-- How often a process has a set open. -/
  opens : P → Nat → Nat

inductive Call where
  | semCreate (initval : Int)
  | semOpen
  | semClose (id : Nat)
  | semRm (id : Nat)
  | semOp (id : Nat) (value : Int)

def Call.semWait (id : Nat) : Call := .semOp id (-1)

def Call.semSignal (id : Nat) : Call := .semOp id 1

inductive Action (P : Type) where
  /-- A process calls a routine. -/
  | call (proc : P) (call : Call)
  /-- The next system call of a process. -/
  | run (proc : P)
  /-- There is no room for another set. -/
  | noSpace (proc : P)
  | exit (proc : P)

section System

variable {P : Type} [DecidableEq P]

/-- The place behind the `GETVAL` of `sem_create`. -/
def SemSet.createPc (set : SemSet P) (id : Nat) (initval : Int) : Pc :=
  if set.val 1 < 0 then .errSys .semCreate "can't GETVAL" (some id)
  else if set.val 1 = 0 then .createSet0 id initval
  else .createEnd id

/-- The place behind the `GETVAL` of `sem_close`. -/
def SemSet.closePc (set : SemSet P) (id : Nat) : Pc :=
  if set.val 1 < 0 then .errSys .semClose "can't GETVAL" (some id)
  else if bigcount < set.val 1 then .errDump "sem[1] > BIGCOUNT" (some id)
  else if set.val 1 = bigcount then .closeRemove id
  else .closeUnlock id

namespace State

def goto (state : State P) (proc : P) (pc : Pc) : State P :=
  { state with
    pc := Function.update state.pc proc pc
    blocked := Function.update state.blocked proc false }

def withLive (state : State P) (live : Option (SemSet P)) : State P :=
  { state with live }

def withOpens (state : State P) (proc : P) (opens : Nat → Nat) : State P :=
  { state with opens := Function.update state.opens proc opens }

def sleep (state : State P) (proc : P) : State P :=
  { state with blocked := Function.update state.blocked proc true }

def find (state : State P) (id : Nat) : Option (SemSet P) :=
  state.live.filter fun set => set.id = id

/-- A step of a process in a call of `semop`. -/
def runSemop (state : State P) (proc : P) (call : Semcall) : Option (State P) :=
  match state.find call.id with
  | none => some (state.goto proc (call.error (if state.blocked proc then .eidrm else .einval)))
  | some set =>
    match semop proc call.ops set.toSems with
    | .done sems =>
      some (((state.withLive (some { set with toSems := sems })).withOpens proc
        (Function.update (state.opens proc) call.id
          (call.opens (state.opens proc call.id)))).goto proc call.next)
    | .block => if state.blocked proc then none else some (state.sleep proc)
    | .range => some (state.goto proc (call.error .erange))

/-- `sem_rm`, which is a single system call. -/
def semRm (state : State P) (proc : P) (id : Nat) (routine : Routine) (lock : Option Nat) :
    State P :=
  match state.find id with
  | none => state.goto proc (.errSys routine "can't IPC_RMID" lock)
  | some _ => (state.withLive none).goto proc (.idle none)

def run (state : State P) (proc : P) : Option (State P) :=
  match state.pc proc with
  | .createGet initval =>
    match state.live with
    | some set => some (state.goto proc (.createLock set.id initval))
    | none =>
      some ({ state with
        live := some (newSet P state.next)
        next := state.next + 1 }.goto proc (.createLock state.next initval))
  | .createRead id initval =>
    match state.find id with
    | none => some (state.goto proc (.errSys .semCreate "can't GETVAL" (some id)))
    | some set => some (state.goto proc (set.createPc id initval))
  | .createSet0 id initval =>
    match state.find id with
    | none => some (state.goto proc (.errSys .semCreate "can SETVAL[0]" (some id)))
    | some set =>
      if initval < 0 ∨ semvmx < initval then
        some (state.goto proc (.errSys .semCreate "can SETVAL[0]" (some id)))
      else
        some ((state.withLive (some { set with toSems := set.setval 0 initval })).goto proc
          (.createSet1 id))
  | .createSet1 id =>
    match state.find id with
    | none => some (state.goto proc (.errSys .semCreate "can SETVAL[1]" (some id)))
    | some set =>
      some ((state.withLive (some { set with
        toSems := set.setval 1 bigcount
        initialised := true })).goto proc (.createEnd id))
  | .openGet =>
    match state.live with
    | some set => some (state.goto proc (.openCount set.id))
    | none => some (state.goto proc (.idle none))
  | .closeRead id =>
    match state.find id with
    | none => some (state.goto proc (.errSys .semClose "can't GETVAL" (some id)))
    | some set => some (state.goto proc (set.closePc id))
  | .closeRemove id => some (state.semRm proc id .semClose (some id))
  | pc => pc.semcall.bind (state.runSemop proc)

/-- A process exits; it has nothing open any more. -/
def exit (state : State P) (proc : P) : State P :=
  let live := state.live.map fun set => { set with toSems := set.toSems.exit proc }
  ((state.withLive live).withOpens proc fun _ => 0).goto proc .gone

end State

def ipcPrivate : Int := 0

/-- The start of a call, in a process that has a set open so many times.  A process closes
only what it has opened, and `sem_rm` has no start: it is done at once. -/
def start (key : Int) (opens : Nat → Nat) : Call → Option Pc
  | .semCreate initval =>
    some (if key = ipcPrivate ∨ key = -1 then .idle none else .createGet initval)
  | .semOpen => some (if key = ipcPrivate ∨ key = -1 then .idle none else .openGet)
  | .semClose id => if opens id = 0 then none else some (.closeLock id)
  | .semRm _ => none
  | .semOp id value =>
    some (if value = 0 then .errSys .semOp "can't have value == 0" none else .semOp id value)

def act (key : Int) (state : State P) : Action P → Option (State P)
  | .call proc call =>
    match state.pc proc, call with
    | .idle _, .semRm id => some (state.semRm proc id .semRm none)
    | .idle _, call => (start key (state.opens proc) call).map (state.goto proc)
    | _, _ => none
  | .run proc => state.run proc
  | .noSpace proc =>
    match state.pc proc, state.live with
    | .createGet _, none => some (state.goto proc (.idle none))
    | _, _ => none
  | .exit proc => if state.pc proc = .gone then none else some (state.exit proc)

/-- A user calls `sem_rm`, which removes a set whether it is in use or not. -/
def Action.removes : Action P → Bool
  | .call _ (.semRm _) => true
  | _ => false

/-! ## What a step does -/

/-- A process goes to another place and leaves the set as it is. -/
inductive Goes (state : State P) (proc : P) : Pc → Pc → Prop where
  | createGet {set : SemSet P} (hlive : state.live = some set) (initval : Int) :
      Goes state proc (.createGet initval) (.createLock set.id initval)
  | createRead {id : Nat} {set : SemSet P} (hfind : state.find id = some set) (initval : Int) :
      Goes state proc (.createRead id initval) (set.createPc id initval)
  | outOfRange {initval : Int} (hrange : initval < 0 ∨ semvmx < initval) (id : Nat) :
      Goes state proc (.createSet0 id initval) (.errSys .semCreate "can SETVAL[0]" (some id))
  | openGet (set : SemSet P) : Goes state proc .openGet (.openCount set.id)
  | openNone : Goes state proc .openGet (.idle none)
  | closeRead {id : Nat} {set : SemSet P} (hfind : state.find id = some set) :
      Goes state proc (.closeRead id) (set.closePc id)
  /-- The set of a process with a lock does not exist. -/
  | missing {pc : Pc} {id : Nat} (hlocks : pc.locks = some id) (hfind : state.find id = none)
      (routine : Routine) (text : String) : Goes state proc pc (.errSys routine text (some id))
  | removed {pc : Pc} {call : Semcall} (hcall : pc.semcall = some call)
      (hfind : state.find call.id = none) :
      Goes state proc pc (call.error (if state.blocked proc then .eidrm else .einval))
  | range {pc : Pc} {call : Semcall} {set : SemSet P} (hcall : pc.semcall = some call)
      (hfind : state.find call.id = some set)
      (hrange : semop proc call.ops set.toSems = .range) : Goes state proc pc (call.error .erange)

/-- The next system call of a process, with what makes it possible. -/
inductive Ran (state : State P) (proc : P) : State P → Prop where
  | goto {pc pc' : Pc} (hpc : state.pc proc = pc) (hgoes : Goes state proc pc pc') :
      Ran state proc (state.goto proc pc')
  | create {initval : Int} (hpc : state.pc proc = .createGet initval) (hlive : state.live = none) :
      Ran state proc ({ state with
        live := some (newSet P state.next)
        next := state.next + 1 }.goto proc (.createLock state.next initval))
  | set0 {id : Nat} {initval : Int} {set : SemSet P} (hpc : state.pc proc = .createSet0 id initval)
      (hfind : state.find id = some set) :
      Ran state proc ((state.withLive (some { set with toSems := set.setval 0 initval })).goto proc
        (.createSet1 id))
  | set1 {id : Nat} {set : SemSet P} (hpc : state.pc proc = .createSet1 id)
      (hfind : state.find id = some set) :
      Ran state proc ((state.withLive (some { set with
        toSems := set.setval 1 bigcount
        initialised := true })).goto proc (.createEnd id))
  | remove {id : Nat} {set : SemSet P} (hpc : state.pc proc = .closeRemove id)
      (hfind : state.find id = some set) :
      Ran state proc ((state.withLive none).goto proc (.idle none))
  | done {call : Semcall} {set : SemSet P} {sems : Sems P (Fin 3)}
      (hcall : (state.pc proc).semcall = some call) (hfind : state.find call.id = some set)
      (hdone : semop proc call.ops set.toSems = .done sems) :
      Ran state proc (((state.withLive (some { set with toSems := sems })).withOpens proc
        (Function.update (state.opens proc) call.id
          (call.opens (state.opens proc call.id)))).goto proc call.next)
  | sleep {call : Semcall} {set : SemSet P} (hcall : (state.pc proc).semcall = some call)
      (hfind : state.find call.id = some set) : Ran state proc (state.sleep proc)

/-- Steps other than a user's `sem_rm`. -/
inductive Acted (key : Int) (state : State P) : Action P → State P → Prop where
  | call {proc : P} {call : Call} {result : Option Nat} {pc : Pc}
      (hpc : state.pc proc = .idle result) (hstart : start key (state.opens proc) call = some pc) :
      Acted key state (.call proc call) (state.goto proc pc)
  | run {proc : P} {state' : State P} (hran : Ran state proc state') :
      Acted key state (.run proc) state'
  | noSpace {proc : P} {initval : Int} (hpc : state.pc proc = .createGet initval) :
      Acted key state (.noSpace proc) (state.goto proc (.idle none))
  | exit (proc : P) : Acted key state (.exit proc) (state.exit proc)

variable {key : Int} {state state' : State P} {proc : P}

theorem ran_of_runSemop {call : Semcall} (hcall : (state.pc proc).semcall = some call)
    (hrun : state.runSemop proc call = some state') : Ran state proc state' := by
  unfold State.runSemop at hrun
  split at hrun
  next hfind =>
    cases hrun
    exact .goto rfl (.removed hcall hfind)
  next set hfind =>
    split at hrun
    next hdone =>
      cases hrun
      exact .done hcall hfind hdone
    next =>
      split at hrun <;> cases hrun
      exact .sleep hcall hfind
    next hrange =>
      cases hrun
      exact .goto rfl (.range hcall hfind hrange)

theorem ran_of_run (hrun : state.run proc = some state') : Ran state proc state' := by
  unfold State.run at hrun
  split at hrun
  case h_1 hpc =>
    split at hrun <;> cases hrun
    · exact .goto hpc (.createGet ‹_› _)
    · exact .create hpc ‹_›
  case h_2 hpc =>
    split at hrun <;> cases hrun
    · exact .goto hpc (.missing rfl ‹_› ..)
    · exact .goto hpc (.createRead ‹_› _)
  case h_3 hpc =>
    split at hrun
    · cases hrun
      exact .goto hpc (.missing rfl ‹_› ..)
    · split at hrun <;> cases hrun
      · exact .goto hpc (.outOfRange ‹_› _)
      · exact .set0 hpc ‹_›
  case h_4 hpc =>
    split at hrun <;> cases hrun
    · exact .goto hpc (.missing rfl ‹_› ..)
    · exact .set1 hpc ‹_›
  case h_5 hpc =>
    split at hrun <;> cases hrun
    · exact .goto hpc (.openGet _)
    · exact .goto hpc .openNone
  case h_6 hpc =>
    split at hrun <;> cases hrun
    · exact .goto hpc (.missing rfl ‹_› ..)
    · exact .goto hpc (.closeRead ‹_›)
  case h_7 hpc =>
    unfold State.semRm at hrun
    split at hrun <;> cases hrun
    · exact .goto hpc (.missing rfl ‹_› ..)
    · exact .remove hpc ‹_›
  case h_8 =>
    obtain ⟨call, hcall, hsemop⟩ := Option.bind_eq_some_iff.mp hrun
    exact ran_of_runSemop hcall hsemop

theorem acted_of_act {action : Action P} (hact : act key state action = some state')
    (hshared : action.removes = false) : Acted key state action state' := by
  cases action with
  | call proc call =>
    dsimp only [act] at hact
    split at hact
    next => cases hshared
    next hpc _ =>
      obtain ⟨pc, hstart, rfl⟩ := Option.map_eq_some_iff.mp hact
      exact .call hpc hstart
    next => cases hact
  | run proc => exact .run (ran_of_run hact)
  | noSpace proc =>
    dsimp only [act] at hact
    split at hact
    next hpc _ =>
      cases hact
      exact .noSpace hpc
    next => cases hact
  | exit proc =>
    dsimp only [act] at hact
    split at hact <;> cases hact
    exact .exit proc

/-- The key has no set, and no process has called the package. -/
def initial (P : Type) : State P where
  live := none
  next := 0
  pc _ := .idle none
  blocked _ := false
  opens _ _ := 0

/-- The states that are reached by steps that meet a condition, when no user calls
`sem_rm`. -/
def Reached (key : Int) (cond : State P → Action P → State P → Prop) : State P → Prop :=
  Reaches (· = initial P) fun state state' => ∃ action, act key state action = some state' ∧
    action.removes = false ∧ cond state action state'

end System

end ApueFormal.Semaphore
