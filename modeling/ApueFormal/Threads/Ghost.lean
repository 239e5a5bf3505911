import ApueFormal.Program.Chain
import ApueFormal.Program.Logic
import ApueFormal.Threads.Spec

/-!
# What a thread knows

The state of the atomic object is kept beside the memory, together with what each thread
has: a reference in its call, a lock, an object that no other thread can reach, the value
of a count.  A thread in its program knows only its own part, and the table while it has
`hashlock`.  `Move` says which operations it may do with that, and what it knows then.
-/

namespace ApueFormal.Threads

open Program

/-- The lock that protects the counts: that of the object, or that of the table. -/
inductive Guard where
  | own
  | hash
  deriving DecidableEq

/-- What is in an object that one thread only can reach. -/
structure Draft (A : Type) where
  count : Int
  id : Int
  next : Option A
  inited : Bool

structure Draft.Describes {A T : Type} (draft : Draft A) (foo : Foo A T) : Prop where
  count : foo.fCount = draft.count
  id : foo.fId = draft.id
  next : foo.fNext = draft.next
  inited : foo.fLock ≠ none ↔ draft.inited = true

/-- The state of the object, and what each thread has. -/
structure Ghost (A T : Type) extends Spec A T where
  /-- The reference of its call. -/
  inCall : T → Option A
  /-- The object that it has locked. -/
  held : T → Option A
  /-- An object that no other thread can reach. -/
  priv : T → Option (A × Draft A)
  /-- A count that it has read and that nobody else can change. -/
  known : T → Option (A × Int)
  /-- An object with the count 0 that it has not yet taken off its chain. -/
  pend : T → Option A

structure Local (A : Type) where
  status : Status A
  owned : A → Nat
  inCall : Option A
  /-- The table, while the thread has `hashlock`. -/
  table : Option (Table A)
  held : Option A
  priv : Option (A × Draft A)
  known : Option (A × Int)
  pend : Option A

section Knowledge

variable {A T : Type}

/-- The table is known to the thread that has `hashlock`. -/
def tableFor [DecidableEq T] (hashlock : Option T) (table : Table A) (t : T) : Option (Table A) :=
  if hashlock = some t then some table else none

@[simp] theorem tableFor_self [DecidableEq T] (table : Table A) (t : T) :
    tableFor (some t) table t = some table := if_pos rfl

@[simp] theorem tableFor_none [DecidableEq T] (table : Table A) (t : T) :
    tableFor none table t = none := rfl

theorem tableFor_of_ne [DecidableEq T] {t t' : T} (ht : t' ≠ t) (table : Table A) :
    tableFor (some t) table t' = none := if_neg (by simp [ht.symm])

theorem tableFor_eq_some [DecidableEq T] {hashlock : Option T} {table table' : Table A} {t : T} :
    tableFor hashlock table t = some table' ↔ hashlock = some t ∧ table' = table := by
  unfold tableFor
  split
  · simp [*, eq_comm]
  · simp [*]

def Ghost.loc [DecidableEq T] (gh : Ghost A T) (mem : Mem A T) (t : T) : Local A where
  status := gh.status t
  owned := gh.owned t
  inCall := gh.inCall t
  table := tableFor mem.hashlock gh.table t
  held := gh.held t
  priv := gh.priv t
  known := gh.known t
  pend := gh.pend t

/-- The ghost state when a call of a thread starts or ends. -/
def Ghost.settled [DecidableEq T] (gh : Ghost A T) (t : T) (owned : A → Nat) (status : Status A)
    (inCall : Option A) : Ghost A T :=
  { gh with
    owned := Function.update gh.owned t owned
    status := Function.update gh.status t status
    inCall := Function.update gh.inCall t inCall }

theorem Ghost.settled_loc [DecidableEq T] (gh : Ghost A T) (mem : Mem A T) (t : T)
    (owned : A → Nat) (status : Status A) (inCall : Option A) :
    (gh.settled t owned status inCall).loc mem t = { gh.loc mem t with owned, status, inCall } := by
  simp [Ghost.settled, Ghost.loc]

theorem Ghost.settled_loc_of_ne [DecidableEq T] (gh : Ghost A T) (mem : Mem A T) {t t' : T}
    (ht : t' ≠ t) (owned : A → Nat) (status : Status A) (inCall : Option A) :
    (gh.settled t owned status inCall).loc mem t' = gh.loc mem t' := by
  simp [Ghost.settled, Ghost.loc, ht]

/-- The count of an object is protected by a lock of the thread. -/
def Local.Guards (here : Local A) (fp : A) : Guard → Prop
  | .own => here.held = some fp ∧ here.priv = none
  | .hash => ∃ table, here.table = some table ∧ InTable table fp

/-- A lock of the object is given back, and with it what was known of the count. -/
def Local.dropHeld (here : Local A) : Guard → Local A
  | .own => { here with held := none, known := none }
  | .hash => { here with held := none }

/-- `hashlock` is given back. -/
def Local.dropTable (here : Local A) : Guard → Local A
  | .own => { here with table := none }
  | .hash => { here with table := none, known := none }

/-- What a thread sees when it gets `hashlock`. -/
structure Sees (here : Local A) (table : Table A) : Prop where
  hashed : ∀ idx fp id, (fp, id) ∈ table idx → hash id = idx
  nodup : ∀ idx, ((table idx).map Prod.fst).Nodup
  owned : ∀ fp, 0 < here.owned fp → InTable table fp
  inCall : ∀ fp, here.inCall = some fp → here.priv = none → InTable table fp

/-- An object that does not go away. -/
inductive Reach (here : Local A) (fp : A) : Prop where
  | owned (howned : 0 < here.owned fp)
  | inCall (hinCall : here.inCall = some fp) (hpriv : here.priv = none)
  | table {table : Table A} (htable : here.table = some table) (hmem : InTable table fp)

/-- A release has found that its reference is the last one. -/
def Local.Doomed (here : Local A) (fp : A) : Guard → Prop
  | .own => here.known = some (fp, 1) ∧ here.inCall = some fp ∧ here.pend = none
  | .hash => here.known = some (fp, 0) ∧ here.inCall = none ∧ here.pend = some fp

variable [DecidableEq A]

def Local.unlinked (here : Local A) (table : Table A) (fp : A) (draft : Draft A) : Local A :=
  { here with
    status := some (.fooRele fp, .freeing fp none)
    table := some (remove table fp)
    priv := some (fp, draft)
    known := none
    pend := none }

/-- The operations that a thread may do, with their possible answers and what it knows
then.  `ok` are the phases that a call of `foo_alloc` may come to. -/
inductive Move (guard : Guard) (ok : Phase A → Prop) (here : Local A) :
    (op : Op A) → (op.Answer → Local A → Prop) → Prop where
  | lockHash (htable : here.table = none) (hheld : here.held = none) :
      Move guard ok here .lockHash fun _ after =>
        ∃ table, Sees here table ∧ after = { here with table := some table }
  | unlockHash {table : Table A} (htable : here.table = some table) (hpend : here.pend = none) :
      Move guard ok here .unlockHash fun _ after => after = here.dropTable guard
  | notFound {table : Table A} {id : Int} (htable : here.table = some table)
      (hpend : here.pend = none) (hpriv : here.priv = none)
      (hstatus : here.status = some (.fooFind id, .pending)) (hlookup : lookup table id = none) :
      Move guard ok here .unlockHash fun _ after =>
        after = { here.dropTable guard with status := some (.fooFind id, .finished none) }
  | lock {fp : A} (hheld : here.held = none) (hreach : Reach here fp)
      (hguard : guard = .hash → here.inCall = some fp) :
      Move guard ok here (.lock fp) fun _ after => after = { here with held := some fp }
  | unlock {fp : A} (hheld : here.held = some fp) :
      Move guard ok here (.unlock fp) fun _ after => after = here.dropHeld guard
  | getHead {table : Table A} {idx : Fin 29} (htable : here.table = some table) :
      Move guard ok here (.getHead idx) fun answer after =>
        answer = headOf (table idx) ∧ after = here
  | getNext {table : Table A} {idx : Fin 29} {before rest : List (A × Int)} {fp : A} {id : Int}
      (htable : here.table = some table) (hchain : table idx = before ++ (fp, id) :: rest) :
      Move guard ok here (.getNext fp) fun answer after => answer = headOf rest ∧ after = here
  | getId {table : Table A} {idx : Fin 29} {fp : A} {id : Int}
      (htable : here.table = some table) (hmem : (fp, id) ∈ table idx) :
      Move guard ok here (.getId fp) fun answer after => answer = id ∧ after = here
  | getCount {fp : A} (hguards : here.Guards fp guard) :
      Move guard ok here (.getCount fp) fun answer after =>
        (∀ count, here.known = some (fp, count) → answer = count) ∧
          after = { here with known := some (fp, answer) }
  -- The steps of `foo_alloc` on its own object.
  | malloc {id : Int} (hstatus : here.status = some (.fooAlloc id, .pending))
      (hpriv : here.priv = none) (hinCall : here.inCall = none) :
      Move guard ok here .malloc fun answer after =>
        (answer = none ∧ ok (.finished none) ∧
          after = { here with status := some (.fooAlloc id, .finished none) }) ∨
        ∃ fp draft, answer = some fp ∧ (ok (.finished (some fp)) ∨ ok (.freeing fp none)) ∧
          after = { here with priv := some (fp, draft) }
  | draftCount {fp : A} {draft : Draft A} {id : Int}
      (hstatus : here.status = some (.fooAlloc id, .pending))
      (hpriv : here.priv = some (fp, draft)) (hinCall : here.inCall = none) :
      Move guard ok here (.setCount fp 1) fun _ after =>
        after = { here with priv := some (fp, { draft with count := 1 }), inCall := some fp }
  | draftId {fp : A} {draft : Draft A} {id : Int} (hpriv : here.priv = some (fp, draft)) :
      Move guard ok here (.setId fp id) fun _ after =>
        after = { here with priv := some (fp, { draft with id }) }
  | draftNext {fp : A} {draft : Draft A} {next : Option A} (hpriv : here.priv = some (fp, draft)) :
      Move guard ok here (.setNext fp next) fun _ after =>
        after = { here with priv := some (fp, { draft with next }) }
  | mutexInit {fp : A} {draft : Draft A} {id : Int}
      (hstatus : here.status = some (.fooAlloc id, .pending))
      (hpriv : here.priv = some (fp, draft)) (hinCall : here.inCall = some fp)
      (hheld : here.held = none) (hok : ok (.finished (some fp)) ∨ ok (.freeing fp none)) :
      Move guard ok here (.mutexInit fp) fun answer after =>
        (answer = true ∧ ok (.finished (some fp)) ∧
          after = { here with priv := some (fp, { draft with inited := true }) }) ∨
        (answer = false ∧ ok (.freeing fp none) ∧
          after = { here with status := some (.fooAlloc id, .freeing fp none) })
  | publish {table : Table A} {fp : A} {draft : Draft A} {id : Int}
      (htable : here.table = some table) (hstatus : here.status = some (.fooAlloc id, .pending))
      (hpriv : here.priv = some (fp, draft)) (hinCall : here.inCall = some fp)
      (hcount : draft.count = 1) (hid : draft.id = id) (hinited : draft.inited = true)
      (hnext : draft.next = headOf (table (hash id))) (hpend : here.pend = none)
      (hok : ok (.finished (some fp))) :
      Move guard ok here (.setHead (hash id) (some fp)) fun _ after =>
        after = { here with
          status := some (.fooAlloc id, .finished (some fp))
          table := some (insert table fp id)
          priv := none }
  -- The count of an object in the table goes up or down.
  | hold {fp : A} {count : Int} (hknown : here.known = some (fp, count))
      (hstatus : here.status = some (.fooHold fp, .pending)) (hpriv : here.priv = none)
      (hinCall : here.inCall = none) :
      Move guard ok here (.setCount fp (count + 1)) fun _ after =>
        after = { here with
          status := some (.fooHold fp, .finished none)
          known := some (fp, count + 1)
          inCall := some fp }
  | found {table : Table A} {id : Int} {fp : A} {count : Int}
      (hknown : here.known = some (fp, count)) (htable : here.table = some table)
      (hstatus : here.status = some (.fooFind id, .pending)) (hpriv : here.priv = none)
      (hinCall : here.inCall = none) (hlookup : lookup table id = some fp) :
      Move guard ok here (.setCount fp (count + 1)) fun _ after =>
        after = { here with
          status := some (.fooFind id, .finished (some fp))
          known := some (fp, count + 1)
          inCall := some fp }
  | release {fp : A} {count : Int} (hknown : here.known = some (fp, count))
      (hstatus : here.status = some (.fooRele fp, .pending)) (hpriv : here.priv = none)
      (hinCall : here.inCall = some fp) (hheld : guard = .hash → here.held = none)
      (hcount : count ≠ 1) :
      Move guard ok here (.setCount fp (count - 1)) fun _ after =>
        after = { here with
          status := some (.fooRele fp, .finished none)
          known := some (fp, count - 1)
          inCall := none }
  | releaseLast {fp : A} (hguard : guard = .hash) (hknown : here.known = some (fp, 1))
      (hstatus : here.status = some (.fooRele fp, .pending)) (hpriv : here.priv = none)
      (hinCall : here.inCall = some fp) (hheld : here.held = none) :
      Move guard ok here (.setCount fp 0) fun _ after =>
        after = { here with known := some (fp, 0), inCall := none, pend := some fp }
  -- The last reference to an object is gone.
  | unlinkHead {table : Table A} {idx : Fin 29} {fp : A} {id : Int} {rest : List (A × Int)}
      (htable : here.table = some table) (hchain : table idx = (fp, id) :: rest)
      (hstatus : here.status = some (.fooRele fp, .pending)) (hpriv : here.priv = none)
      (hdoomed : here.Doomed fp guard) :
      Move guard ok here (.setHead idx (headOf rest)) fun _ after =>
        ∃ draft, draft.inited = true ∧ after = here.unlinked table fp draft
  | unlinkNext {table : Table A} {idx : Fin 29} {before rest : List (A × Int)} {prev fp : A}
      {prevId id : Int} (htable : here.table = some table)
      (hchain : table idx = before ++ (prev, prevId) :: (fp, id) :: rest)
      (hstatus : here.status = some (.fooRele fp, .pending)) (hpriv : here.priv = none)
      (hdoomed : here.Doomed fp guard) :
      Move guard ok here (.setNext prev (headOf rest)) fun _ after =>
        ∃ draft, draft.inited = true ∧ after = here.unlinked table fp draft
  | mutexDestroy {fp : A} {draft : Draft A} (hpriv : here.priv = some (fp, draft))
      (hinited : draft.inited = true) (hheld : here.held = none) :
      Move guard ok here (.mutexDestroy fp) fun _ after =>
        after = { here with priv := some (fp, { draft with inited := false }) }
  | free {fp : A} {draft : Draft A} {call : Call A} {value : Option A}
      (hpriv : here.priv = some (fp, draft)) (htable : here.table = none)
      (hheld : here.held = none) (hpend : here.pend = none)
      (hstatus : here.status = some (call, .freeing fp value)) (hgains : call.gains value = none) :
      Move guard ok here (.free fp) fun _ after =>
        after = { here with
          status := some (call, .finished value)
          priv := none
          inCall := none }

def theory (guard : Guard) (ok : Phase A → Prop) : Theory (sig A) (Local A) where
  may op here accepted _ := Move guard ok here op accepted
  live _ := True

end Knowledge

end ApueFormal.Threads
