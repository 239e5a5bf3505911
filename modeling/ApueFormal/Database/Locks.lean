import ApueFormal.Database.Processes
import ApueFormal.Database.Protocol

/-!
# The bytes of the locks

Every range that a call locks is the range of one of the locks of the database,
and no byte belongs to two of them.
-/

namespace ApueFormal.Database

open Libc Program

/-- The file, the start and the length of a lock. -/
def Lock.range : Lock → Fd × Nat × Nat
  | .chain hash => (.idx, chainOff hash, 1)
  | .free => (.idx, freeOff, 1)
  | .idxTail => (.idx, firstRec, 0)
  | .datAll => (.dat, 0, 0)

def Lock.Covers (lock : Lock) (fd : Fd) (i : Nat) : Prop :=
  fd = lock.range.1 ∧ InRange lock.range.2.1 lock.range.2.2 i

variable {start len i : Nat} {lock : Lock} {fd file : Fd}

theorem range_of_pointerLock (hname : pointerLock start = some lock) :
    lock.range = (.idx, start, 1) := by
  unfold pointerLock at hname
  split_ifs at hname with hchain hfree
  · cases hname
    rw [Lock.range, ← hchain.1]
  · cases hname
    rw [Lock.range, hfree]

section

variable (hname : lockName fd start len = some lock)
include hname

theorem range_of_lockName : lock.range = (fd, start, len) := by
  unfold lockName at hname
  split at hname
  · exact range_of_pointerLock hname
  · split at hname
    next hstart =>
      cases hname
      rw [Lock.range, hstart]
    next => cases hname
  · cases hname
    rfl
  · cases hname

theorem covers_of_lockName : lock.Covers file i ↔ file = fd ∧ InRange start len i := by
  rw [Lock.Covers, range_of_lockName hname]

omit hname in
theorem Lock.Covers.unique {other : Lock} (hlock : lock.Covers fd i) (hother : other.Covers fd i) :
    lock = other := by
  have hpointer : ∀ hash : Fin nhashDef, chainOff hash < firstRec ∧ freeOff < chainOff hash := by
    intro hash
    have hlt := hash.isLt
    unfold chainOff firstRec freeOff hashOff ptrSz
    unfold nhashDef at hlt ⊢
    omega
  have hfirst : freeOff < firstRec := by decide
  obtain ⟨hfd, hlow, hhigh⟩ := hlock
  obtain ⟨hfd', hlow', hhigh'⟩ := hother
  subst hfd
  cases lock with
  | chain hash =>
    have hhash := hpointer hash
    cases other with
    | chain hash' =>
      simp only [Lock.range] at hlow hhigh hlow' hhigh'
      have hsame : chainOff hash = chainOff hash' := by omega
      unfold chainOff ptrSz at hsame
      rw [Fin.ext (show (hash : Nat) = hash' by omega)]
    | datAll => cases hfd'
    | _ =>
      simp only [Lock.range] at hlow hhigh hlow' hhigh'
      omega
  | free =>
    cases other with
    | free => rfl
    | chain hash' =>
      have hhash := hpointer hash'
      simp only [Lock.range] at hlow hhigh hlow' hhigh'
      omega
    | datAll => cases hfd'
    | idxTail =>
      simp only [Lock.range] at hlow hhigh hlow' hhigh'
      omega
  | idxTail =>
    cases other with
    | idxTail => rfl
    | chain hash' =>
      have hhash := hpointer hash'
      simp only [Lock.range] at hlow hhigh hlow' hhigh'
      omega
    | datAll => cases hfd'
    | free =>
      simp only [Lock.range] at hlow hhigh hlow' hhigh'
      omega
  | datAll =>
    cases other with
    | datAll => rfl
    | _ => cases hfd'

theorem LockTable.put_covers {table : LockTable} {pid owner : Nat} (value : Option LockType)
    (hcovers : owner = pid ∧ lock.Covers file i) :
    table.put pid fd start len value owner file i = value := by
  rw [covers_of_lockName hname] at hcovers
  exact if_pos hcovers

theorem LockTable.put_of_not_covers {table : LockTable} {pid owner : Nat} (value : Option LockType)
    (hnot : ¬ (owner = pid ∧ lock.Covers file i)) :
    table.put pid fd start len value owner file i = table owner file i := by
  rw [covers_of_lockName hname] at hnot
  exact if_neg hnot

/-! ## The locks in the lock table -/

omit hname in
/-- What a system call is, by the use that it makes of the locks. -/
theorem lockUse_spec (op : Sys) : match lockUse op with
    | .io => ∀ pid table, op.locks pid table = table
    | .write lock => ∃ fd start len, op = .lock fd .write start len ∧
        lockName fd start len = some lock
    | .read lock => ∃ fd start len, op = .lock fd .read start len ∧
        lockName fd start len = some lock
    | .release lock => ∃ fd start len, op = .unlock fd start len ∧ lockName fd start len = some lock
    | .stray => True := by
  cases op with
  | lock fd type start len =>
    cases type <;> simp only [lockUse] <;> cases hname : lockName fd start len <;>
      first | trivial | exact ⟨fd, start, len, rfl, hname⟩
  | unlock fd start len =>
    simp only [lockUse]
    cases hname : lockName fd start len with
    | none => trivial
    | some lock => exact ⟨fd, start, len, rfl, hname⟩
  | _ => exact fun _ _ => rfl

theorem covers_start : lock.Covers fd start := by
  have hlen : len = 0 ∨ start < start + len := by omega
  exact (covers_of_lockName hname).mpr ⟨rfl, Nat.le_refl _, hlen⟩

end

/-- The lock table has the locks that a process holds. -/
structure Guarded (table : LockTable) (pid : Nat) (here : DbLocal) : Prop where
  held : ∀ lock ∈ here.held, ∀ fd i, lock.Covers fd i → table pid fd i = some .write
  reading : ∀ lock, here.reading = some lock →
    ∀ fd i, lock.Covers fd i → table pid fd i = some .read

namespace Guarded

variable {table : LockTable} {pid : Nat} {here : DbLocal}

theorem of_other {other : Nat} (hguarded : Guarded table other here) (hne : other ≠ pid)
    (op : Sys) : Guarded (op.locks pid table) other here where
  held lock hmem fd i hcovers := by
    rw [Sys.locks_of_ne hne]
    exact hguarded.held lock hmem fd i hcovers
  reading lock hreading fd i hcovers := by
    rw [Sys.locks_of_ne hne]
    exact hguarded.reading lock hreading fd i hcovers

variable (hguarded : Guarded table pid here)
include hguarded

section

variable {actor : Nat} (hne : pid ≠ actor) (hname : lockName fd start len = some lock)
include hne hname

theorem not_held {type : LockType} (hready : (Sys.lock fd type start len).Ready table actor) :
    lock ∉ here.held := by
  intro hmem
  have hstart := covers_start hname
  exact hready pid ⟨hne, start, .write, ((covers_of_lockName hname).mp hstart).2,
    hguarded.held lock hmem fd start hstart, .inl rfl⟩

theorem not_reading (hready : (Sys.lock fd .write start len).Ready table actor) :
    here.reading ≠ some lock := by
  intro hreading
  have hstart := covers_start hname
  exact hready pid ⟨hne, start, .read, ((covers_of_lockName hname).mp hstart).2,
    hguarded.reading lock hreading fd start hstart, .inr rfl⟩

end

variable {next : DbLocal}

theorem write (hname : lockName fd start len = some lock) (hreading : here.reading = none)
    (hheld : next.held = lock :: here.held) (hsame : next.reading = here.reading) :
    Guarded (table.put pid fd start len (some .write)) pid next where
  held other hmem file i hcovers := by
    rw [hheld, List.mem_cons] at hmem
    by_cases hbyte : lock.Covers file i
    · exact LockTable.put_covers hname _ ⟨rfl, hbyte⟩
    · rw [LockTable.put_of_not_covers hname _ fun h => hbyte h.2]
      rcases hmem with rfl | hmem
      · exact absurd hcovers hbyte
      · exact hguarded.held other hmem file i hcovers
  reading other hother := by
    rw [hsame, hreading] at hother
    cases hother

theorem read {fd : Fd} {start len : Nat} {lock : Lock} (hname : lockName fd start len = some lock)
    (hnot : lock ∉ here.held) (hheld : next.held = here.held) (hreading : next.reading = some lock)
    :
    Guarded (table.put pid fd start len (some .read)) pid next where
  held other hmem file i hcovers := by
    rw [hheld] at hmem
    rw [LockTable.put_of_not_covers hname]
    · exact hguarded.held other hmem file i hcovers
    · rintro ⟨_, hbyte⟩
      cases hcovers.unique hbyte
      exact hnot hmem
  reading other hother file i hcovers := by
    rw [hreading, Option.some.injEq] at hother
    subst hother
    exact LockTable.put_covers hname _ ⟨rfl, hcovers⟩

theorem release (hname : lockName fd start len = some lock) (hnodup : here.held.Nodup)
    (hheld : next.held = here.held.erase lock) (hreading : next.reading = none) :
    Guarded (table.put pid fd start len none) pid next where
  held other hmem file i hcovers := by
    rw [hheld, hnodup.mem_erase_iff] at hmem
    rw [LockTable.put_of_not_covers hname]
    · exact hguarded.held other hmem.2 file i hcovers
    · rintro ⟨_, hbyte⟩
      exact hmem.1 (hcovers.unique hbyte)
  reading other hother := by
    rw [hreading] at hother
    cases hother

end Guarded

end ApueFormal.Database
