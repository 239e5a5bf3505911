import ApueFormal.Database.World
import ApueFormal.Program.Rules

/-!
# The locks of the database

Four kinds of byte ranges are locked: the first byte of the pointer of a hash
chain, the first byte of the free list pointer, the index records as a whole
when one is appended, and the data file when data is appended.  Each protects
a part of the heap of cells.
-/

namespace ApueFormal.Database

open Libc Program

inductive Lock where
  | chain (hash : Fin nhashDef)
  | free
  | idxTail
  | datAll
  deriving DecidableEq

/-- The lock on the first byte of a pointer field of the header. -/
def pointerLock (start : Nat) : Option Lock :=
  if hstart : start = chainOff ((start - hashOff) / ptrSz) ∧
      (start - hashOff) / ptrSz < nhashDef then
    some (.chain ⟨_, hstart.2⟩)
  else if start = freeOff then some .free
  else none

def lockName : Fd → Nat → Nat → Option Lock
  | .idx, start, 1 => pointerLock start
  | .idx, start, 0 => if start = firstRec then some .idxTail else none
  | .dat, 0, 0 => some .datAll
  | _, _, _ => none

def lockUse : Sys → LockUse Lock
  | .lock fd .read start len => (lockName fd start len).elim .stray .read
  | .lock fd .write start len => (lockName fd start len).elim .stray .write
  | .unlock fd start len => (lockName fd start len).elim .stray .release
  | .read _ _ _ => .io
  | .write _ _ _ => .io
  | .size _ => .io
  | .truncate _ => .io

theorem dbHash_lt (key : Bytes) : dbHash key < nhashDef :=
  Nat.mod_lt _ (by decide)

def chainOf (key : Bytes) : Fin nhashDef := ⟨dbHash key, dbHash_lt key⟩

theorem pointerLock_chain (hash : Fin nhashDef) :
    pointerLock (chainOff hash) = some (.chain hash) := by
  have hdiv : (chainOff hash - hashOff) / ptrSz = hash := by
    unfold chainOff
    rw [Nat.add_sub_cancel]
    exact Nat.mul_div_cancel _ (by decide)
  have hcond : chainOff hash = chainOff ((chainOff hash - hashOff) / ptrSz) ∧
      (chainOff hash - hashOff) / ptrSz < nhashDef := by
    rw [hdiv]
    exact ⟨rfl, hash.isLt⟩
  unfold pointerLock
  rw [dif_pos hcond]
  simp only [hdiv]

theorem pointerLock_free : pointerLock freeOff = some .free := by
  unfold pointerLock
  rw [dif_neg (by decide), if_pos rfl]

theorem lockName_chain (key : Bytes) :
    lockName .idx (chainOff (dbHash key)) 1 = some (.chain (chainOf key)) :=
  pointerLock_chain (chainOf key)

theorem lockName_free : lockName .idx freeOff 1 = some .free := pointerLock_free

theorem lockName_idxTail : lockName .idx firstRec 0 = some .idxTail := rfl

theorem lockName_datAll : lockName .dat 0 0 = some .datAll := rfl

/-- How much is known of the calls and of the files that they work on. -/
structure Mode where
  /-- No key has a separator. -/
  plain : Prop
  /-- No record with a key is deleted or moved. -/
  strict : Prop
  plain_of_strict : strict → plain
  /-- What a call finds under a lock that it takes for the first time. -/
  known : Lock → DbHeap → Prop

/-- The cells describe the files, and the chains hold what the completed calls
have left in the map. -/
structure Holds (strict : Prop) (world : World) (total : DbHeap) : Prop where
  rep : Rep world.files total
  tables : ∀ hash table, total (.table hash) = some (.table table) →
    ∀ key, dbHash key = hash → table.lookup key = mapOf world.trace key
  legal : keyMap.Legal (completed world.trace)
  good : strict → Good world.trace total

/-- The call neither deletes nor moves the record that its key has, unless the
key is empty. -/
def Calm (found : Option Bytes) : Call → Prop
  | .store key data flag => key.bytes ≠ [] → flag ≠ dbInsert →
      ∀ old, found = some old → old.length = data.bytes.length
  | .delete key => key.bytes ≠ [] → found = none
  | .fetch _ => True
  | .nextrec => True
  | .rewind => True

/-- The length of the data passes the check of `db_store`. -/
def DatLenOk (size : Nat) : Prop :=
  ¬ (toInt (size + 1) < datLenMin ∨ (datLenMax : Int) < toInt (size + 1))

/-- A `db_store` of this data has to move the record that its key has. -/
structure Moves (old data : Bytes) (flag : Int) : Prop where
  flag : flag = dbReplace ∨ flag = dbStoreFlag
  datlen : DatLenOk data.length
  length_ne : old.length ≠ data.length

/-- A call that moves a record is given no strings in the part of the data buffer that
`_db_dodelete` fills with blanks. -/
def Steady (found : Option Bytes) : Call → Prop
  | .store key data flag => ∀ old, found = some old → Moves old data.bytes flag →
      key.Behind old.length ∧ data.Behind old.length
  | _ => True

/-- What is known of a call and of the record that its key has. -/
structure Mode.Allows (mode : Mode) (found : Option Bytes) (call : Call) : Prop where
  steady : Steady found call
  calm : mode.strict → Calm found call

def lockInv (mode : Mode) : Lock → DbHeap → Prop
  | .chain hash, part => ∃ entries, IsChain mode.plain hash entries ∧
      part = chainHeap hash 0 (tableOf entries) entries
  | .free, part => ∃ entries, IsFree entries ∧ part = freeHeap entries
  | .idxTail, part => ∃ len, part = Heap.single .idxEnd (.off len)
  | .datAll, part => ∃ len, part = Heap.single .datEnd (.off len)

/-- What a call may assume of a lock that it takes for the first time. -/
structure LockAssume (mode : Mode) (actor : Actor) (lock : Lock) (part : DbHeap) : Prop where
  known : mode.known lock part
  allows : ∀ key table, actor.2.key? = some key → lock = .chain (chainOf key.bytes) →
    part (.table (dbHash key.bytes)) = some (.table table) →
    mode.Allows (table.lookup key.bytes) actor.2

def protocol (mode : Mode) : Protocol sysSig World Cell Val Lock Actor Reply where
  lockUse := lockUse
  exec := World.exec
  finish := World.finish
  rep := Holds mode.strict
  inv := lockInv mode
  assume := LockAssume mode
  exec_lock := by
    intro actor op world huse
    cases op with
    | lock fd type start len => rfl
    | unlock fd start len => rfl
    | _ => exact absurd rfl huse

def Mode.Finds (mode : Mode) (key : Bytes) (entries : List Entry) : Prop :=
  mode.known (.chain (chainOf key)) (chainHeap (dbHash key) 0 (tableOf entries) entries)

abbrev DbLocal := Local Cell Val Lock Reply

abbrev Mode.theory (mode : Mode) (actor : Actor) : Theory sysSig DbLocal :=
  (protocol mode).theory actor

abbrev idle (own : DbHeap) : DbLocal := Local.start own

/-- A single process is between two calls. -/
abbrev AtRest (mode : Mode) (world : World) (own : DbHeap) (pool : Lock → DbHeap)
    (total : DbHeap) : Prop :=
  Protocol.Together (protocol mode) world (fun _ : Unit => idle own) pool total

end ApueFormal.Database
