import ApueFormal.Database.World
import ApueFormal.Program.System

/-!
# Processes on one database

Any number of processes work on the same two files, each with a handle of its
own.  A system call is one step.  The locks of `fcntl` belong to a process and
to single bytes of a file; a call that waits for a lock takes its step when no
other process has a lock in its way.
-/

namespace ApueFormal.Database

open Function Libc Program

/-- The bytes of a locked range; a length of `0` reaches to the end of the file
and beyond. -/
def InRange (start len i : Nat) : Prop := start ≤ i ∧ (len = 0 ∨ i < start + len)

instance (start len i : Nat) : Decidable (InRange start len i) :=
  inferInstanceAs (Decidable (_ ∧ _))

/-- The locks that each process has on the bytes of the files. -/
abbrev LockTable := Nat → Fd → Nat → Option LockType

/-- A process gets locks on the bytes of a range, or loses them. -/
def LockTable.put (table : LockTable) (pid : Nat) (fd : Fd) (start len : Nat)
    (value : Option LockType) : LockTable := fun owner file i =>
  if owner = pid ∧ file = fd ∧ InRange start len i then value else table owner file i

/-- The kernel takes all its locks from a process that ends. -/
def LockTable.drop (table : LockTable) (pid : Nat) : LockTable :=
  Function.update table pid fun _ _ => none

def LockTable.Conflict (table : LockTable) (pid other : Nat) (fd : Fd) (type : LockType)
    (start len : Nat) : Prop :=
  other ≠ pid ∧ ∃ i held, InRange start len i ∧ table other fd i = some held ∧
    (held = .write ∨ type = .write)

def Sys.Ready (table : LockTable) (pid : Nat) : Sys → Prop
  | .lock fd type start len => ∀ other, ¬ table.Conflict pid other fd type start len
  | _ => True

def Sys.locks (pid : Nat) (table : LockTable) : Sys → LockTable
  | .lock fd type start len => table.put pid fd start len (some type)
  | .unlock fd start len => table.put pid fd start len none
  | _ => table

inductive Process where
  | idle (db : DB)
  | running (call : Call) (program : DbProg (Reply × DB))

structure Config where
  world : World
  table : LockTable
  process : Nat → Process

namespace Config

/-- A process goes on; a call ends with its last system call. -/
def resume (config : Config) (pid : Nat) (call : Call) : DbProg (Reply × DB) → Config
  | .ret (reply, db) =>
    { config with
      world := config.world.finish (pid, call) reply
      process := Function.update config.process pid (.idle db) }
  | program =>
    { config with process := Function.update config.process pid (.running call program) }

def invoke (config : Config) (pid : Nat) (call : Call) (db : DB) : Config :=
  resume { config with
    world := { config.world with trace := config.world.trace ++ [.invoke pid call] } }
    pid call (call.prog db)

def perform (config : Config) (pid : Nat) (call : Call) (op : Sys)
    (next : op.Answer → DbProg (Reply × DB)) : Config :=
  resume { config with
    world := (World.exec (pid, call) op config.world).2
    table := op.locks pid config.table }
    pid call (next (World.exec (pid, call) op config.world).1)

end Config

/-- The calls that processes may make, and a condition on the states in which
they perform their system calls. -/
structure Terms where
  allowed : Nat → Call → Prop
  condition : Nat → Call → Sys → World → Prop

inductive Step (terms : Terms) : Config → Config → Prop where
  | invoke {config : Config} {pid : Nat} {call : Call} {db : DB}
      (hidle : config.process pid = .idle db) (hallowed : terms.allowed pid call)
      (hreads : call.Reads db) : Step terms config (config.invoke pid call db)
  | perform {config : Config} {pid : Nat} {call : Call} {op : Sys}
      {next : op.Answer → DbProg (Reply × DB)}
      (hrunning : config.process pid = .running call (.call op next))
      (hready : op.Ready config.table pid) (hcondition : terms.condition pid call op config.world) :
      Step terms config (config.perform pid call op next)
  | unroll {config : Config} {pid : Nat} {call : Call} {σ τ : Type}
      {body : σ → DbProg (σ ⊕ τ)} {start : σ} {next : τ → DbProg (Reply × DB)}
      (hrunning : config.process pid = .running call (.loop body start next)) :
      Step terms config (config.resume pid call (Prog.unroll body start next))
  | exit {config : Config} {pid : Nat} {call : Call} {fault : Fault}
      (hrunning : config.process pid = .running call (.fail fault)) :
      Step terms config { config with table := config.table.drop pid }

/-! ## A process that is alone -/

def Process.after (call : Call) : Except Fault (Reply × DB) → Process
  | .ok (_, db) => .idle db
  | .error fault => .running call (.fail fault)

def Call.completes (call : Call) : Except Fault (Reply × DB) → List (Call × Reply)
  | .ok (reply, _) => [(call, reply)]
  | .error _ => []

/-- One process has gone on to the end of its call, and the others have not
moved. -/
structure Config.Ended (config config' : Config) (pid : Nat) (call : Call)
    (outcome : Except Fault (Reply × DB)) (files : Files) : Prop where
  files : config'.world.files = files
  process : config'.process = Function.update config.process pid (.after call outcome)
  others : ∀ other, other ≠ pid → config'.table other = config.table other
  history : completed config'.world.trace = completed config.world.trace ++ call.completes outcome

theorem Sys.locks_of_ne {pid other : Nat} (hne : other ≠ pid) (op : Sys) (table : LockTable) :
    op.locks pid table other = table other := by
  funext fd i
  cases op with
  | lock file type start len | unlock file start len =>
    rw [Sys.locks, LockTable.put, if_neg fun h => hne h.1]
  | _ => rfl

theorem Sys.ready_of_alone {pid : Nat} {table : LockTable}
    (halone : ∀ other, other ≠ pid → ∀ fd i, table other fd i = none) (op : Sys) :
    op.Ready table pid := by
  cases op with
  | lock fd type start len =>
    rintro other ⟨hne, i, held, _, hheld, _⟩
    rw [halone other hne fd i] at hheld
    cases hheld
  | _ => trivial

theorem Config.resume_self {config : Config} {pid : Nat} {call : Call} {op : Sys}
    {next : op.Answer → DbProg (Reply × DB)}
    (hrunning : config.process pid = .running call (.call op next)) :
    config.resume pid call (.call op next) = config := by
  have hsame : update config.process pid (.running call (.call op next)) = config.process := by
    rw [← hrunning, update_eq_self]
  change { config with
    process := update config.process pid (.running call (.call op next)) } = config
  rw [hsame]

section

variable {init : Config → Prop} {terms : Terms} {pid : Nat} {call : Call}

theorem reaches_end {program : DbProg (Reply × DB)} {outcome : Except Fault (Reply × DB)}
    {files files' : Files} (hruns : Runs os program files outcome files')
    (hcondition : ∀ op world, terms.condition pid call op world) {config : Config}
    (hfiles : config.world.files = files)
    (halone : ∀ other, other ≠ pid → ∀ fd i, config.table other fd i = none)
    (hreaches : Reaches init (Step terms) (config.resume pid call program)) :
    ∃ config', Reaches init (Step terms) config' ∧
      config.Ended config' pid call outcome files' := by
  refine hruns.induct (motive := fun program files => ∀ config : Config,
    config.world.files = files → (∀ other, other ≠ pid → ∀ fd i, config.table other fd i = none) →
    Reaches init (Step terms) (config.resume pid call program) →
    ∃ config', Reaches init (Step terms) config' ∧
      config.Ended config' pid call outcome files') ?_ ?_ ?_ ?_ config hfiles halone hreaches
  · rintro ⟨reply, db⟩ rfl config hfiles _ hreaches
    refine ⟨_, hreaches, hfiles, rfl, fun _ _ => rfl, ?_⟩
    exact completed_append ..
  · rintro fault rfl config hfiles _ hreaches
    exact ⟨_, hreaches, hfiles, rfl, fun _ _ => rfl, (List.append_nil _).symm⟩
  · intro op next files ih config hfiles halone hreaches
    subst hfiles
    have hlocks : ∀ other, other ≠ pid → op.locks pid config.table other = config.table other :=
      fun other hne => Sys.locks_of_ne hne op config.table
    obtain ⟨config', hreaches', hended⟩ := ih
      { config.resume pid call (.call op next) with
        world := (World.exec (pid, call) op config.world).2
        table := op.locks pid config.table } rfl
      (fun other hne fd i => (congrFun₂ (hlocks other hne) fd i).trans (halone other hne fd i))
      (hreaches.step (.perform (update_self ..) (Sys.ready_of_alone halone op)
        (hcondition op _)))
    refine ⟨config', hreaches', hended.files, ?_, ?_, ?_⟩
    · rw [hended.process]
      exact update_idem ..
    · exact fun other hne => (hended.others other hne).trans (hlocks other hne)
    · rw [hended.history]
      exact congrArg (· ++ _) (completed_exec (pid, call) op config.world)
  · intro _ _ body start next files ih config hfiles halone hreaches
    obtain ⟨config', hreaches', hended⟩ := ih (config.resume pid call (.loop body start next))
      hfiles halone (hreaches.step (.unroll (update_self ..)))
    refine ⟨config', hreaches', hended.files, ?_, hended.others, hended.history⟩
    rw [hended.process]
    exact update_idem ..

theorem reaches_call {db : DB} {outcome : Except Fault (Reply × DB)} {files files' : Files}
    (hruns : Runs os (call.prog db) files outcome files')
    (hcondition : ∀ op world, terms.condition pid call op world) {config : Config}
    (hfiles : config.world.files = files)
    (halone : ∀ other, other ≠ pid → ∀ fd i, config.table other fd i = none)
    (hidle : config.process pid = .idle db) (hallowed : terms.allowed pid call)
    (hreads : call.Reads db) (hreaches : Reaches init (Step terms) config) :
    ∃ config', Reaches init (Step terms) config' ∧
      config.Ended config' pid call outcome files' := by
  obtain ⟨config', hreaches', hended⟩ := @reaches_end init terms pid call _ _ _ _ hruns hcondition
    { config with world := { config.world with
        trace := config.world.trace ++ [.invoke pid call] } } hfiles halone
    (hreaches.step (.invoke hidle hallowed hreads))
  refine ⟨config', hreaches', hended.files, hended.process, hended.others, ?_⟩
  rw [hended.history, completed_append, completed_invoke, List.append_nil]

end

end ApueFormal.Database
