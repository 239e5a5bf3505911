import ApueFormal.Program.Basic
import Mathlib.Algebra.Group.Int.Defs
import Mathlib.Logic.Function.Basic

/-!
# Reference counts in a hash table

`mutex2.c` and `mutex3.c` keep objects with reference counts in a hash table.  The
first one protects each count by a lock of the object, the second one all of them by
the lock of the table.  Threads of a type `T` share a memory with addresses of a type
`A`.  Each lock, each unlock and each access is one step.  An address stands for one
object: `malloc` never gives it out again, so that a use of a freed object is seen.
-/

namespace ApueFormal.Threads

open Program

universe u

/-- `HASH(id)`, with the conversion to `unsigned long`. -/
def hash (id : Int) : Fin 29 := Fin.ofNat 29 (id % 2 ^ 64).toNat

/-- `struct foo`. -/
structure Foo (A T : Type) where
  fCount : Int
  /-- Initialised or not, and who has the lock. -/
  fLock : Option (Option T)
  fId : Int
  fNext : Option A

inductive Cell (A T : Type) where
  /-- Not yet given out by `malloc`. -/
  | fresh
  | live (foo : Foo A T)
  | freed

structure Mem (A T : Type) where
  cell : A → Cell A T
  fh : Fin 29 → Option A
  hashlock : Option T

inductive Op (A : Type) where
  | lockHash
  | unlockHash
  | lock (fp : A)
  | unlock (fp : A)
  /-- `fh[idx]`. -/
  | getHead (idx : Fin 29)
  | setHead (idx : Fin 29) (fp : Option A)
  | getNext (fp : A)
  | setNext (fp : A) (next : Option A)
  | getId (fp : A)
  | setId (fp : A) (id : Int)
  | getCount (fp : A)
  | setCount (fp : A) (count : Int)
  | malloc
  | mutexInit (fp : A)
  | mutexDestroy (fp : A)
  | free (fp : A)

def Op.Answer {A : Type} : Op A → Type
  | .getHead _ => Option A
  | .getNext _ => Option A
  | .getId _ => Int
  | .getCount _ => Int
  | .malloc => Option A
  | .mutexInit _ => Bool
  | _ => Unit

/-- What the system chooses: the result of `malloc`, what is in the memory it gives out,
and whether a mutex can be initialised. -/
structure Choice (A : Type) where
  ptr : Option A
  count : Int
  id : Int
  next : Option A
  initOk : Bool

inductive Outcome (α : Type u) where
  | ok (result : α)
  | blocked
  /-- Undefined behaviour. -/
  | fault

section Memory

variable {A T : Type}

/-- An access to an object; a fault unless it is allocated. -/
def Mem.onFoo (mem : Mem A T) (fp : A) {α : Type u} (access : Foo A T → Outcome α) : Outcome α :=
  match mem.cell fp with
  | .live foo => access foo
  | _ => .fault

variable [DecidableEq A]

def Mem.put (mem : Mem A T) (fp : A) (foo : Foo A T) : Mem A T :=
  { mem with cell := Function.update mem.cell fp (.live foo) }

@[simp] theorem Mem.put_hashlock (mem : Mem A T) (fp : A) (foo : Foo A T) :
    (mem.put fp foo).hashlock = mem.hashlock := rfl

variable [DecidableEq T]

def exec (t : T) (choice : Choice A) : (op : Op A) → Mem A T → Outcome (op.Answer × Mem A T)
  | .lockHash, mem =>
    match mem.hashlock with
    | none => .ok ((), { mem with hashlock := some t })
    | some _ => .blocked
  | .unlockHash, mem =>
    if mem.hashlock = some t then .ok ((), { mem with hashlock := none }) else .fault
  | .lock fp, mem =>
    mem.onFoo fp fun foo =>
      match foo.fLock with
      | none => .fault
      | some none => .ok ((), mem.put fp { foo with fLock := some (some t) })
      | some (some _) => .blocked
  | .unlock fp, mem =>
    mem.onFoo fp fun foo =>
      if foo.fLock = some (some t) then .ok ((), mem.put fp { foo with fLock := some none })
      else .fault
  | .getHead idx, mem => .ok (mem.fh idx, mem)
  | .setHead idx fp, mem => .ok ((), { mem with fh := Function.update mem.fh idx fp })
  | .getNext fp, mem => mem.onFoo fp fun foo => .ok (foo.fNext, mem)
  | .setNext fp next, mem =>
    mem.onFoo fp fun foo => .ok ((), mem.put fp { foo with fNext := next })
  | .getId fp, mem => mem.onFoo fp fun foo => .ok (foo.fId, mem)
  | .setId fp id, mem => mem.onFoo fp fun foo => .ok ((), mem.put fp { foo with fId := id })
  | .getCount fp, mem => mem.onFoo fp fun foo => .ok (foo.fCount, mem)
  | .setCount fp count, mem =>
    mem.onFoo fp fun foo => .ok ((), mem.put fp { foo with fCount := count })
  | .malloc, mem =>
    match choice.ptr with
    | none => .ok (none, mem)
    | some fp =>
      match mem.cell fp with
      | .fresh =>
        .ok (some fp, mem.put fp
          { fCount := choice.count, fLock := none, fId := choice.id, fNext := choice.next })
      -- This choice cannot be made.
      | _ => .blocked
  | .mutexInit fp, mem =>
    mem.onFoo fp fun foo =>
      if choice.initOk then .ok (true, mem.put fp { foo with fLock := some none })
      else .ok (false, mem)
  | .mutexDestroy fp, mem =>
    mem.onFoo fp fun foo =>
      if foo.fLock = some none then .ok ((), mem.put fp { foo with fLock := none })
      else .fault
  | .free fp, mem =>
    mem.onFoo fp fun _ => .ok ((), { mem with cell := Function.update mem.cell fp .freed })

end Memory

/-! ## The programs -/

abbrev sig (A : Type) : Signature := ⟨Op A, Op.Answer⟩

/-- The only fault of a program itself. -/
inductive Fault where
  | nullPointer

abbrev FooProg (A α : Type) := Prog (sig A) Fault α

inductive Call (A : Type) where
  | fooAlloc (id : Int)
  | fooHold (fp : A)
  | fooFind (id : Int)
  | fooRele (fp : A)
  deriving DecidableEq

/-- An implementation of the calls.  `foo_alloc` and `foo_find` return a pointer. -/
abbrev Package (A : Type) := Call A → FooProg A (Option A)

section Programs

variable {A : Type}

/-- `pthread_mutex_lock(&hashlock)`. -/
def lockHash : FooProg A Unit := .call .lockHash .ret

/-- `pthread_mutex_unlock(&hashlock)`. -/
def unlockHash : FooProg A Unit := .call .unlockHash .ret

/-- `pthread_mutex_lock(&fp->f_lock)`. -/
def lock (fp : A) : FooProg A Unit := .call (.lock fp) .ret

/-- `pthread_mutex_unlock(&fp->f_lock)`. -/
def unlock (fp : A) : FooProg A Unit := .call (.unlock fp) .ret

def getHead (idx : Fin 29) : FooProg A (Option A) := .call (.getHead idx) .ret

def setHead (idx : Fin 29) (fp : Option A) : FooProg A Unit := .call (.setHead idx fp) .ret

def getNext (fp : A) : FooProg A (Option A) := .call (.getNext fp) .ret

def setNext (fp : A) (next : Option A) : FooProg A Unit := .call (.setNext fp next) .ret

def getId (fp : A) : FooProg A Int := .call (.getId fp) .ret

def setId (fp : A) (id : Int) : FooProg A Unit := .call (.setId fp id) .ret

def getCount (fp : A) : FooProg A Int := .call (.getCount fp) .ret

def setCount (fp : A) (count : Int) : FooProg A Unit := .call (.setCount fp count) .ret

/-- `malloc(sizeof(struct foo))`. -/
def malloc : FooProg A (Option A) := .call .malloc .ret

/-- `pthread_mutex_init(&fp->f_lock, nullptr) == 0`. -/
def mutexInit (fp : A) : FooProg A Bool := .call (.mutexInit fp) .ret

def mutexDestroy (fp : A) : FooProg A Unit := .call (.mutexDestroy fp) .ret

def free (fp : A) : FooProg A Unit := .call (.free fp) .ret

/-- `foo_alloc`, which is the same in both files. -/
def fooAlloc (id : Int) : FooProg A (Option A) := do
  match ← malloc with
  | none => return none
  | some fp =>
    setCount fp 1
    setId fp id
    if ← mutexInit fp then
      lockHash
      let head ← getHead (hash id)
      setNext fp head
      setHead (hash id) (some fp)
      lock fp
      unlockHash
      unlock fp
      return some fp
    else
      free fp
      return none

variable [DecidableEq A]

/-- The loop of the unlinking walk: `while (tfp->f_next != fp)`. -/
def walk (fp : A) (tfp : Option A) : FooProg A A :=
  Prog.iterate (fun tfp => match tfp with
    | none => Prog.fail .nullPointer
    | some tfp => do
        let next ← getNext tfp
        if next = some fp then
          return .inr tfp
        else
          let next ← getNext tfp
          return .inl next) tfp

/-- `foo_rele` takes the object off its chain. -/
def unlink (fp : A) : FooProg A Unit := do
  let id ← getId fp
  let tfp ← getHead (hash id)
  if tfp = some fp then
    let next ← getNext fp
    setHead (hash id) next
  else
    let prev ← walk fp tfp
    let next ← getNext fp
    setNext prev next

/-- The search of `foo_find`; `hold` is what is done with the object that is found. -/
def search (hold : A → FooProg A Unit) (id : Int) (fp : Option A) : FooProg A (Option A) :=
  Prog.iterate (fun fp => match fp with
    | none => return .inr none
    | some fp => do
        let found ← getId fp
        if found = id then
          hold fp
          return .inr (some fp)
        else
          let next ← getNext fp
          return .inl next) fp

/-- `foo_find`, up to what is done with the object that is found. -/
def findWith (hold : A → FooProg A Unit) (id : Int) : FooProg A (Option A) := do
  lockHash
  let head ← getHead (hash id)
  let fp ← search hold id head
  unlockHash
  return fp

/-- `fp->f_count++`. -/
def increment (fp : A) : FooProg A Unit := do
  let count ← getCount fp
  setCount fp (count + 1)

namespace Mutex2

def fooHold (fp : A) : FooProg A Unit := do
  lock fp
  increment fp
  unlock fp

def fooFind (id : Int) : FooProg A (Option A) := findWith fooHold id

def fooRele (fp : A) : FooProg A Unit := do
  lock fp
  let count ← getCount fp
  if count = 1 then
    unlock fp
    lockHash
    lock fp
    let count ← getCount fp
    if count ≠ 1 then
      let count ← getCount fp
      setCount fp (count - 1)
      unlock fp
      unlockHash
    else
      unlink fp
      unlockHash
      unlock fp
      mutexDestroy fp
      free fp
  else
    let count ← getCount fp
    setCount fp (count - 1)
    unlock fp

end Mutex2

namespace Mutex3

def fooHold (fp : A) : FooProg A Unit := do
  lockHash
  increment fp
  unlockHash

def fooFind (id : Int) : FooProg A (Option A) := findWith increment id

def fooRele (fp : A) : FooProg A Unit := do
  lockHash
  let count ← getCount fp
  setCount fp (count - 1)
  if count - 1 = 0 then
    unlink fp
    unlockHash
    mutexDestroy fp
    free fp
  else
    unlockHash

end Mutex3

def mutex2 : Package A
  | .fooAlloc id => fooAlloc id
  | .fooHold fp => do
      Mutex2.fooHold fp
      return none
  | .fooFind id => Mutex2.fooFind id
  | .fooRele fp => do
      Mutex2.fooRele fp
      return none

def mutex3 : Package A
  | .fooAlloc id => fooAlloc id
  | .fooHold fp => do
      Mutex3.fooHold fp
      return none
  | .fooFind id => Mutex3.fooFind id
  | .fooRele fp => do
      Mutex3.fooRele fp
      return none

end Programs

section Clients

variable {A T : Type}

/-- The reference that a call leaves to its caller. -/
def Call.gains : Call A → Option A → Option A
  | .fooAlloc _, result => result
  | .fooHold fp, _ => some fp
  | .fooFind _, result => result
  | .fooRele _, _ => none

/-- The reference that a call has: it is there once the count says so, and it is released
when `foo_rele` decrements the count or frees the object. -/
def Call.has (call : Call A) (op : Op A) (inCall : Option A) : Option A :=
  match call, op with
  | _, .free _ => none
  | .fooRele _, .setCount _ _ => none
  | _, .setCount fp _ => some fp
  | _, _ => inCall

structure Thread (A : Type) where
  /-- How many references to an object the thread has outside of its call. -/
  owned : A → Nat
  /-- The reference that its call has. -/
  inCall : Option A
  job : Option (Call A × FooProg A (Option A))

structure World (A T : Type) where
  mem : Mem A T
  thread : T → Thread A

inductive Event (A T : Type) where
  | invoke (t : T) (call : Call A)
  | free (t : T) (fp : A)
  | result (t : T) (value : Option A)

/-- A thread holds and releases only what it has a reference to. -/
def mayCall (owned : A → Nat) : Call A → Prop
  | .fooHold fp => 0 < owned fp
  | .fooRele fp => 0 < owned fp
  | _ => True

/-- A call of `foo_rele` takes a reference over. -/
def Call.takes : Call A → Option A
  | .fooRele fp => some fp
  | _ => none

def Op.events (t : T) : Op A → List (Event A T)
  | .free fp => [.free t fp]
  | _ => []

theorem Op.events_eq_nil {op : Op A} (hop : ∀ fp, op ≠ .free fp) (t : T) : op.events t = [] := by
  cases op with
  | free fp => exact absurd rfl (hop fp)
  | _ => rfl

variable [DecidableEq A]

instance (owned : A → Nat) : (call : Call A) → Decidable (mayCall owned call)
  | .fooAlloc _ => .isTrue trivial
  | .fooHold fp => inferInstanceAs (Decidable (0 < owned fp))
  | .fooFind _ => .isTrue trivial
  | .fooRele fp => inferInstanceAs (Decidable (0 < owned fp))

def one (ptr : Option A) (fp : A) : Nat := if ptr = some fp then 1 else 0

@[simp] theorem one_none (fp : A) : one none fp = 0 := rfl

@[simp] theorem one_self (fp : A) : one (some fp) fp = 1 := if_pos rfl

theorem one_of_ne {ptr : Option A} {fp : A} (hne : ptr ≠ some fp) : one ptr fp = 0 := if_neg hne

def Thread.start (thread : Thread A) (pkg : Package A) (call : Call A) : Thread A where
  owned fp := thread.owned fp - one call.takes fp
  inCall := call.takes
  job := some (call, pkg call)

def Thread.finish (thread : Thread A) (call : Call A) (value : Option A) : Thread A where
  owned fp := thread.owned fp + one (call.gains value) fp
  inCall := none
  job := none

variable [DecidableEq T]

def World.withThread (world : World A T) (t : T) (thread : Thread A) : World A T :=
  { world with thread := Function.update world.thread t thread }

def World.invoke (world : World A T) (pkg : Package A) (t : T) (call : Call A) :
    Option (World A T) :=
  match (world.thread t).job with
  | some _ => none
  | none =>
    if mayCall (world.thread t).owned call then
      some (world.withThread t ((world.thread t).start pkg call))
    else
      none

variable {world world' : World A T} {t : T} {choice : Choice A}

theorem World.invoke_eq_some {pkg : Package A} {call : Call A} :
    world.invoke pkg t call = some world' ↔ (world.thread t).job = none ∧
      mayCall (world.thread t).owned call ∧
      world' = world.withThread t ((world.thread t).start pkg call) := by
  unfold World.invoke
  split
  · simp [*]
  · split
    · simp [*, eq_comm]
    · simp [*]

def World.after (world : World A T) (t : T) (call : Call A) (op : Op A) (mem : Mem A T)
    (program : FooProg A (Option A)) : World A T :=
  { world with mem }.withThread t
    { world.thread t with
      inCall := call.has op (world.thread t).inCall
      job := some (call, program) }

def World.run (world : World A T) (t : T) (choice : Choice A) :
    Outcome (List (Event A T) × World A T) :=
  match (world.thread t).job with
  | none => .blocked
  | some (call, .ret value) =>
    .ok ([.result t value], world.withThread t ((world.thread t).finish call value))
  | some (_, .fail _) => .fault
  | some (call, .call op next) =>
    match exec t choice op world.mem with
    | .ok (answer, mem) => .ok (op.events t, world.after t call op mem (next answer))
    | .blocked => .blocked
    | .fault => .fault
  | some (call, .loop body start next) =>
    .ok ([], world.withThread t
      { world.thread t with job := some (call, Prog.unroll body start next) })

inductive World.Ran (world : World A T) (t : T) (choice : Choice A) :
    Outcome (List (Event A T) × World A T) → Prop where
  | idle (hjob : (world.thread t).job = none) : Ran world t choice .blocked
  | result {call : Call A} {value : Option A}
      (hjob : (world.thread t).job = some (call, .ret value)) :
      Ran world t choice
        (.ok ([.result t value], world.withThread t ((world.thread t).finish call value)))
  | fail {call : Call A} {fault : Fault}
      (hjob : (world.thread t).job = some (call, .fail fault)) : Ran world t choice .fault
  | op {call : Call A} {op : Op A} {next : op.Answer → FooProg A (Option A)} {answer : op.Answer}
      {mem : Mem A T} (hjob : (world.thread t).job = some (call, .call op next))
      (hexec : exec t choice op world.mem = .ok (answer, mem)) :
      Ran world t choice (.ok (op.events t, world.after t call op mem (next answer)))
  | blocked {call : Call A} {op : Op A} {next : op.Answer → FooProg A (Option A)}
      (hjob : (world.thread t).job = some (call, .call op next))
      (hexec : exec t choice op world.mem = .blocked) : Ran world t choice .blocked
  | fault {call : Call A} {op : Op A} {next : op.Answer → FooProg A (Option A)}
      (hjob : (world.thread t).job = some (call, .call op next))
      (hexec : exec t choice op world.mem = .fault) : Ran world t choice .fault
  | loop {call : Call A} {σ β : Type} {body : σ → FooProg A (σ ⊕ β)} {start : σ}
      {next : β → FooProg A (Option A)}
      (hjob : (world.thread t).job = some (call, .loop body start next)) :
      Ran world t choice (.ok ([], world.withThread t
        { world.thread t with job := some (call, Prog.unroll body start next) }))

theorem World.ran (world : World A T) (t : T) (choice : Choice A) :
    world.Ran t choice (world.run t choice) := by
  unfold World.run
  split
  case h_1 hjob => exact .idle hjob
  case h_2 hjob => exact .result hjob
  case h_3 hjob => exact .fail hjob
  case h_4 hjob =>
    split
    case h_1 hexec => exact .op hjob hexec
    case h_2 hexec => exact .blocked hjob hexec
    case h_3 hexec => exact .fault hjob hexec
  case h_5 hjob => exact .loop hjob

section

variable {events : List (Event A T)} (hrun : world.run t choice = .ok (events, world'))
include hrun

theorem World.run_ok : world.Ran t choice (.ok (events, world')) :=
  hrun ▸ world.ran t choice

theorem World.run_thread {t' : T} (ht : t' ≠ t) : world'.thread t' = world.thread t' := by
  cases World.run_ok hrun <;> exact Function.update_of_ne ht ..

end

theorem World.run_op {call : Call A} {op : Op A} {next : op.Answer → FooProg A (Option A)}
    (hjob : (world.thread t).job = some (call, .call op next)) {answer : op.Answer}
    {mem : Mem A T} (hexec : exec t choice op world.mem = .ok (answer, mem)) :
    world.run t choice = .ok (op.events t, world.after t call op mem (next answer)) := by
  unfold World.run
  rw [hjob]
  simp only [hexec]

def World.initial (A T : Type) : World A T where
  mem := { cell := fun _ => .fresh, fh := fun _ => none, hashlock := none }
  thread _ := { owned := fun _ => 0, inCall := none, job := none }

/-- A run of the threads, with what is seen of it. -/
inductive Trace (pkg : Package A) : List (Event A T) → World A T → Prop where
  | start : Trace pkg [] (.initial A T)
  | invoke {trace : List (Event A T)} {world world' : World A T} {t : T} {call : Call A}
      (htrace : Trace pkg trace world) (hinvoke : world.invoke pkg t call = some world') :
      Trace pkg (trace ++ [.invoke t call]) world'
  | run {trace events : List (Event A T)} {world world' : World A T} {t : T} {choice : Choice A}
      (htrace : Trace pkg trace world) (hrun : world.run t choice = .ok (events, world')) :
      Trace pkg (trace ++ events) world'

end Clients

end ApueFormal.Threads
