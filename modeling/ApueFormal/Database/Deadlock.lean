import ApueFormal.Database.Locks
import ApueFormal.Program.Discipline

/-!
# No process waits for ever

A call takes the lock of a hash chain first, when it takes it at all.  Over it
the call takes at most one of the other locks, and it takes no further lock
before it has released that one.  This is seen from the program text alone,
whatever the files contain.
-/

namespace ApueFormal.Database

open Function Libc Program

/-- The locks that a process has, the latest one first. -/
abbrev Stage := List (Lock × LockType)

def Lock.isChain : Lock → Bool
  | .chain _ => true
  | _ => false

/-- A lock can be taken first, or over the lock of a hash chain. -/
def Stage.mayTake (stage : Stage) (lock : Lock) : Bool :=
  match stage with
  | [] => true
  | [(outer, _)] => outer.isChain && !lock.isChain
  | _ => false

/-- Locks are taken in order, and released in the opposite order. -/
def lockRule : Discipline sysSig Stage
  | .lock fd type start len, stage =>
    match lockName fd start len with
    | none => none
    | some lock => if stage.mayTake lock then some ((lock, type) :: stage) else none
  | .unlock fd start len, (lock, _) :: rest =>
    if lockName fd start len = some lock then some rest else none
  | .unlock _ _ _, [] => none
  | .read _ _ _, stage => some stage
  | .write _ _ _, stage => some stage
  | .size _, stage => some stage
  | .truncate _, stage => some stage

/-- A part of a call that gives back the locks it takes, and does not forget the
hash chain that the call has locked. -/
def Keeps {α : Type} (dbOf : α → DB) (off : Int) (stage : Stage) (program : DbProg α) : Prop :=
  Obeys lockRule (fun result after => (dbOf result).chainoff = off ∧ after = stage) program stage

/-- A part of a call that ends with the hash chain of a key locked. -/
def LocksChain (key : Bytes) (db : DB) (after : Stage) : Prop :=
  db.chainoff = (chainOff (dbHash key) : Nat) ∧ ∃ type, after = [(.chain (chainOf key), type)]

variable {stage : Stage} {α β : Type}
variable {post : α → Stage → Prop} {fd : Fd} {len start : Nat} {lock : Lock}
  {next : Unit → DbProg α}

theorem obeys_sysWrite {pos : Nat} {bytes : Bytes} {next : Int → DbProg α}
    (hnext : ∀ count, Obeys lockRule post (next count) stage) :
    Obeys lockRule post ((sysWrite fd pos bytes).bind next) stage :=
  .call rfl hnext

theorem obeys_sysRead {pos : Nat} {next : Bytes → DbProg α}
    (hnext : ∀ bytes, Obeys lockRule post (next bytes) stage) :
    Obeys lockRule post ((sysRead fd pos len).bind next) stage :=
  .call rfl hnext

theorem obeys_sysSize {next : Nat → DbProg α}
    (hnext : ∀ size, Obeys lockRule post (next size) stage) :
    Obeys lockRule post ((sysSize fd).bind next) stage :=
  .call rfl hnext

theorem obeys_lseek (offset : Int) (fault : Fault) {next : Nat → DbProg α}
    (hnext : ∀ pos, Obeys lockRule post (next pos) stage) :
    Obeys lockRule post ((lseek offset fault).bind next) stage := by
  unfold lseek
  split
  · exact .fail
  · exact hnext _

variable {type : LockType}

section

variable (hname : lockName fd start len = some lock)
include hname

section

variable (htake : stage.mayTake lock = true)
include htake

theorem lockRule_lock :
    lockRule (.lock fd type start len) stage = some ((lock, type) :: stage) := by
  simp only [lockRule, hname, htake, if_true]

theorem obeys_writewLock (hnext : Obeys lockRule post (next ()) ((lock, .write) :: stage)) :
    Obeys lockRule post ((writewLock fd start len).bind next) stage :=
  .call (lockRule_lock hname htake) fun _ => hnext

theorem obeys_readwLock (hnext : Obeys lockRule post (next ()) ((lock, .read) :: stage)) :
    Obeys lockRule post ((readwLock fd start len).bind next) stage :=
  .call (lockRule_lock hname htake) fun _ => hnext

end

theorem lockRule_unlock : lockRule (.unlock fd start len) ((lock, type) :: stage) = some stage := by
  simp only [lockRule, hname, if_true]

theorem obeys_unLock (hnext : Obeys lockRule post (next ()) stage) :
    Obeys lockRule post ((unLock fd start len).bind next) ((lock, type) :: stage) :=
  .call (lockRule_unlock hname) fun _ => hnext

end

section Parts

variable {off : Int} {db : DB}

theorem Keeps.andThen {dbOf : β → DB} {program : DbProg β} (hkeeps : Keeps dbOf off stage program)
    {next : β → DbProg α}
    (hnext : ∀ value, (dbOf value).chainoff = off → Obeys lockRule post (next value) stage) :
    Obeys lockRule post (program.bind next) stage :=
  hkeeps.bind fun value _ hkept => hkept.2 ▸ hnext value hkept.1

variable (hdb : db.chainoff = off)
include hdb

theorem keeps_dbSplitIdx (text : Bytes) : Keeps Prod.snd off stage (dbSplitIdx db text) := by
  unfold dbSplitIdx
  split
  · exact .fail
  · split
    · exact .fail
    · split_ifs
      · exact .fail
      · exact .fail
      · exact .fail
      · exact .ret ⟨hdb, rfl⟩

theorem keeps_dbReadPtr (offset : Int) : Keeps Prod.snd off stage (dbReadPtr db offset) := by
  unfold dbReadPtr
  refine obeys_lseek _ _ fun pos => obeys_sysRead fun bytes => ?_
  split
  · exact .fail
  · exact .ret ⟨hdb, rfl⟩

theorem keeps_dbReadIdxAt (offset : Int) (pos : Nat) :
    Keeps Prod.snd off stage (dbReadIdxAt db offset pos) := by
  unfold dbReadIdxAt
  refine obeys_sysRead fun head => ?_
  dsimp only
  split_ifs
  · exact .ret ⟨hdb, rfl⟩
  · exact .fail
  · exact .fail
  · refine obeys_sysRead fun body => ?_
    split_ifs
    · exact .fail
    · exact .fail
    · exact keeps_dbSplitIdx (by exact hdb) _

theorem keeps_dbReadIdx (offset : Int) : Keeps Prod.snd off stage (dbReadIdx db offset) := by
  unfold dbReadIdx
  split
  · exact keeps_dbReadIdxAt hdb offset _
  · exact obeys_lseek _ _ fun pos => keeps_dbReadIdxAt hdb offset pos

theorem keeps_dbReadDat : Keeps Prod.snd off stage (dbReadDat db) := by
  unfold dbReadDat
  refine obeys_lseek _ _ fun pos => obeys_sysRead fun bytes => ?_
  split_ifs
  · exact .fail
  · exact .fail
  · exact .ret ⟨hdb, rfl⟩

theorem keeps_findChain (key : CString) : Keeps Prod.snd off stage (findChain db key) := by
  unfold findChain
  refine (keeps_dbReadPtr hdb db.ptroff).andThen fun _ hdb₁ => ?_
  refine .loop (fun result : (Int × DB) ⊕ (Int × DB) =>
    (result.elim Prod.snd Prod.snd).chainoff = off) hdb₁ ?_ ?_
  · rintro ⟨offset, db₂⟩ hdb₂
    rw [findStep]
    split
    · exact .ret ⟨hdb₂, rfl⟩
    · refine (keeps_dbReadIdx hdb₂ offset).andThen fun _ hdb₃ => ?_
      dsimp only
      split
      · exact .ret ⟨hdb₃, rfl⟩
      · exact .ret ⟨hdb₃, rfl⟩
  · rintro ⟨offset, db₂⟩ hdb₂
    exact .ret ⟨hdb₂, rfl⟩

end Parts

/-- A scan only locks the free list. -/
theorem obeys_dbNextRec (db : DB) :
    Obeys lockRule (fun _ after => after = []) (dbNextRec db) [] := by
  unfold dbNextRec
  simp only [Prog.bind_eq]
  refine obeys_readwLock lockName_free rfl (.loop (fun _ => True) trivial ?_ ?_)
  · intro db₁ _
    unfold nextStep
    refine (keeps_dbReadIdx rfl 0).andThen fun _ _ => ?_
    dsimp only
    split_ifs
    · exact .ret ⟨trivial, rfl⟩
    · exact .ret ⟨trivial, rfl⟩
    · exact .ret ⟨trivial, rfl⟩
  · rintro ⟨found, db₁⟩ _
    simp only [Prog.ret_bind]
    split
    · exact (keeps_dbReadDat rfl).andThen fun _ _ => obeys_unLock lockName_free (.ret rfl)
    · exact obeys_unLock lockName_free (.ret rfl)

theorem obeys_dbFindAndLock (db : DB) (key : CString) (writelock : Bool) :
    Obeys lockRule (fun result after => LocksChain key.bytes result.2 after)
      (dbFindAndLock db key writelock) [] := by
  have hfind : ∀ type, Obeys lockRule (fun result after => LocksChain key.bytes result.2 after)
      (findChain { db with
        chainoff := (chainOff (dbHash key.bytes) : Nat)
        ptroff := (chainOff (dbHash key.bytes) : Nat) } key)
      [(.chain (chainOf key.bytes), type)] :=
    fun type => (keeps_findChain rfl key).mono fun _ _ hkept => ⟨hkept.1, type, hkept.2⟩
  unfold dbFindAndLock
  cases writelock with
  | true => exact obeys_writewLock (lockName_chain key.bytes) rfl (hfind _)
  | false => exact obeys_readwLock (lockName_chain key.bytes) rfl (hfind _)

theorem obeys_unLock_chain {db : DB} {key : Bytes}
    (hchain : db.chainoff = (chainOff (dbHash key) : Nat))
    (hnext : Obeys lockRule post (next ()) []) :
    Obeys lockRule post ((unLock .idx db.chainoff.toNat 1).bind next)
      [(.chain (chainOf key), type)] := by
  rw [hchain, Int.toNat_natCast]
  exact obeys_unLock (lockName_chain key) hnext

theorem obeys_dbFetch (db : DB) (key : CString) :
    Obeys lockRule (fun _ after => after = []) (dbFetch db key) [] := by
  unfold dbFetch
  refine (obeys_dbFindAndLock db key false).bind ?_
  rintro ⟨rc, db₁⟩ _ ⟨hchain, type, rfl⟩
  dsimp only
  split
  · exact obeys_unLock_chain hchain (.ret rfl)
  · exact (keeps_dbReadDat hchain).andThen fun _ hkept => obeys_unLock_chain hkept (.ret rfl)

theorem DB.chainoff_snprintfIdx (db : DB) (source : KeySource) :
    (db.snprintfIdx source).chainoff = db.chainoff := by
  unfold DB.snprintfIdx
  cases source with
  | string key | idxbuf =>
    dsimp only
    split <;> rfl

theorem mayTake_over {hash : Fin nhashDef} (hlock : lock.isChain = false) :
    Stage.mayTake [(.chain hash, type)] lock = true := by
  rw [Stage.mayTake, hlock]
  rfl

section Chain

variable {hash : Fin nhashDef} {off : Int} {db : DB} (hdb : db.chainoff = off)
include hdb

theorem keeps_dbWriteDat_set (data : Bytes) (offset : Int) :
    Keeps id off stage (dbWriteDat db data offset .set) := by
  unfold dbWriteDat
  refine obeys_lseek _ _ fun pos => obeys_sysWrite fun count => ?_
  split
  · exact .fail
  · exact .ret ⟨hdb, rfl⟩

theorem keeps_dbWriteDat_end (data : Bytes) (offset : Int) :
    Keeps id off [(.chain hash, type)] (dbWriteDat db data offset .end) := by
  unfold dbWriteDat
  simp only [Prog.bind_eq]
  refine obeys_writewLock lockName_datAll (mayTake_over rfl) (obeys_sysSize fun size =>
    obeys_lseek _ _ fun pos => obeys_sysWrite fun count => ?_)
  split
  · exact .fail
  · exact obeys_unLock lockName_datAll (.ret ⟨hdb, rfl⟩)

theorem keeps_dbWriteIdx_set (key : KeySource) (offset ptrval : Int) :
    Keeps id off stage (dbWriteIdx db key offset .set ptrval) := by
  unfold dbWriteIdx
  split
  · exact .fail
  · dsimp only
    split
    · exact .fail
    · refine obeys_lseek _ _ fun pos => obeys_sysWrite fun count => ?_
      split
      · exact .fail
      · exact .ret ⟨(DB.chainoff_snprintfIdx ..).trans hdb, rfl⟩

theorem keeps_dbWriteIdx_end (key : KeySource) (offset ptrval : Int) :
    Keeps id off [(.chain hash, type)] (dbWriteIdx db key offset .end ptrval) := by
  unfold dbWriteIdx
  split
  · exact .fail
  · dsimp only
    split
    · exact .fail
    · simp only [Prog.bind_eq]
      refine obeys_writewLock lockName_idxTail (mayTake_over rfl) (obeys_sysSize fun size =>
        obeys_lseek _ _ fun pos => obeys_sysWrite fun count => ?_)
      split
      · exact .fail
      · exact obeys_unLock lockName_idxTail (.ret ⟨(DB.chainoff_snprintfIdx ..).trans hdb, rfl⟩)

theorem keeps_dbWritePtr (offset ptrval : Int) :
    Keeps id off stage (dbWritePtr db offset ptrval) := by
  unfold dbWritePtr
  split
  · exact .fail
  · refine obeys_lseek _ _ fun pos => obeys_sysWrite fun count => ?_
    split
    · exact .fail
    · exact .ret ⟨hdb, rfl⟩

theorem keeps_dbDoDelete : Keeps id off [(.chain hash, type)] (dbDoDelete db) := by
  unfold dbDoDelete
  simp only [Prog.bind_eq]
  refine obeys_writewLock lockName_free (mayTake_over rfl) ?_
  refine Keeps.andThen (keeps_dbWriteDat_set (by exact hdb) _ _) fun _ hdb₁ => ?_
  refine (keeps_dbReadPtr hdb₁ _).andThen fun _ hdb₂ => ?_
  refine (keeps_dbWriteIdx_set hdb₂ _ _ _).andThen fun _ hdb₃ => ?_
  refine (keeps_dbWritePtr hdb₃ _ _).andThen fun _ hdb₄ => ?_
  refine (keeps_dbWritePtr hdb₄ _ _).andThen fun _ hdb₅ => ?_
  exact obeys_unLock lockName_free (.ret ⟨hdb₅, rfl⟩)

theorem keeps_dbFindFree (keylen datlen : Int) :
    Keeps Prod.snd off [(.chain hash, type)] (dbFindFree db keylen datlen) := by
  unfold dbFindFree
  simp only [Prog.bind_eq]
  refine obeys_writewLock lockName_free (mayTake_over rfl) ?_
  refine (keeps_dbReadPtr hdb _).andThen fun _ hdb₁ => ?_
  refine .loop (fun result : (Int × Int × DB) ⊕ (Int × Int × DB) =>
    (result.elim (fun state : Int × Int × DB => state.2.2)
      fun state : Int × Int × DB => state.2.2).chainoff = off) hdb₁ ?_ ?_
  · rintro ⟨saveoffset, offset, db₂⟩ hdb₂
    rw [findFreeStep]
    split
    · exact .ret ⟨hdb₂, rfl⟩
    · refine (keeps_dbReadIdx hdb₂ offset).andThen fun _ hdb₃ => ?_
      dsimp only
      split
      · exact .ret ⟨hdb₃, rfl⟩
      · exact .ret ⟨hdb₃, rfl⟩
  · rintro ⟨saveoffset, offset, db₂⟩ hdb₂
    simp only [Prog.ret_bind]
    split
    · exact obeys_unLock lockName_free (.ret ⟨hdb₂, rfl⟩)
    · exact (keeps_dbWritePtr hdb₂ _ _).andThen fun _ hdb₃ =>
        obeys_unLock lockName_free (.ret ⟨hdb₃, rfl⟩)

theorem keeps_dbStoreNew (key data : CString) (flag keylen datlen : Int) :
    Keeps Prod.snd off [(.chain hash, type)] (dbStoreNew db key data flag keylen datlen) := by
  unfold dbStoreNew
  split
  · exact .ret ⟨hdb, rfl⟩
  · simp only [Prog.bind_eq]
    refine (keeps_dbReadPtr hdb _).andThen fun _ hdb₁ => ?_
    refine (keeps_dbFindFree hdb₁ _ _).andThen fun _ hdb₂ => ?_
    split
    · refine (keeps_dbWriteDat_end hdb₂ _ _).andThen fun _ hdb₃ => ?_
      refine (keeps_dbWriteIdx_end hdb₃ _ _ _).andThen fun _ hdb₄ => ?_
      exact (keeps_dbWritePtr hdb₄ _ _).andThen fun _ hdb₅ => .ret ⟨hdb₅, rfl⟩
    · refine (keeps_dbWriteDat_set hdb₂ _ _).andThen fun _ hdb₃ => ?_
      refine (keeps_dbWriteIdx_set hdb₃ _ _ _).andThen fun _ hdb₄ => ?_
      exact (keeps_dbWritePtr hdb₄ _ _).andThen fun _ hdb₅ => .ret ⟨hdb₅, rfl⟩

theorem keeps_dbStoreOld (key data : Arg) (flag datlen : Int) :
    Keeps Prod.snd off [(.chain hash, type)] (dbStoreOld db key data flag datlen) := by
  unfold dbStoreOld
  split_ifs
  · exact .ret ⟨hdb, rfl⟩
  · simp only [Prog.bind_eq]
    refine (keeps_dbDoDelete hdb).andThen fun _ hdb₁ => ?_
    refine (keeps_dbReadPtr hdb₁ _).andThen fun _ hdb₂ => ?_
    refine (keeps_dbWriteDat_end hdb₂ _ _).andThen fun _ hdb₃ => ?_
    refine (keeps_dbWriteIdx_end hdb₃ _ _ _).andThen fun _ hdb₄ => ?_
    exact (keeps_dbWritePtr hdb₄ _ _).andThen fun _ hdb₅ => .ret ⟨hdb₅, rfl⟩
  · simp only [Prog.bind_eq]
    exact (keeps_dbWriteDat_set hdb _ _).andThen fun _ hdb₁ => .ret ⟨hdb₁, rfl⟩

end Chain

theorem obeys_dbStore (db : DB) (key data : Arg) (flag : Int) :
    Obeys lockRule (fun _ after => after = []) (dbStore db key data flag) [] := by
  unfold dbStore
  split
  · exact .ret rfl
  · dsimp only
    split
    · exact .fail
    · simp only [Prog.bind_eq]
      refine (obeys_dbFindAndLock db (key.now db) true).bind ?_
      rintro ⟨found, db₁⟩ _ ⟨hchain, type, rfl⟩
      dsimp only
      split
      · exact (keeps_dbStoreNew hchain _ _ flag _ _).andThen fun _ hkept =>
          obeys_unLock_chain hkept (.ret rfl)
      · exact (keeps_dbStoreOld hchain key data flag _).andThen fun _ hkept =>
          obeys_unLock_chain hkept (.ret rfl)

theorem obeys_dbDelete (db : DB) (key : CString) :
    Obeys lockRule (fun _ after => after = []) (dbDelete db key) [] := by
  unfold dbDelete
  simp only [Prog.bind_eq]
  refine (obeys_dbFindAndLock db key true).bind ?_
  rintro ⟨found, db₁⟩ _ ⟨hchain, type, rfl⟩
  dsimp only
  split
  · exact (keeps_dbDoDelete hchain).andThen fun _ hkept => obeys_unLock_chain hkept (.ret rfl)
  · exact obeys_unLock_chain hchain (.ret rfl)

theorem obeys_prog (call : Call) (db : DB) :
    Obeys lockRule (fun _ after => after = []) (call.prog db) [] := by
  have hreply : ∀ {β : Type} {program : DbProg β} {next : β → DbProg (Reply × DB)},
      Obeys lockRule (fun _ after => after = []) program [] →
      (∀ value, Obeys lockRule (fun _ after => after = []) (next value) []) →
      Obeys lockRule (fun _ after => after = []) (program.bind next) [] :=
    fun hprogram hnext => hprogram.bind fun value _ hend => hend ▸ hnext value
  cases call with
  | store key data flag => exact hreply (obeys_dbStore db key data flag) fun _ => .ret rfl
  | fetch key => exact hreply (obeys_dbFetch db key) fun _ => .ret rfl
  | delete key => exact hreply (obeys_dbDelete db key) fun _ => .ret rfl
  | nextrec => exact hreply (obeys_dbNextRec db) fun _ => .ret rfl
  | rewind => exact .ret rfl

/-! ## Stages and the lock table -/

/-- At most one lock over the lock of a hash chain. -/
def Stage.Ordered : Stage → Prop
  | [] => True
  | [_] => True
  | [(inner, _), (outer, _)] => inner.isChain = false ∧ outer.isChain = true
  | _ => False

variable {table : LockTable}

theorem Stage.ordered_take (htake : stage.mayTake lock = true) (type : LockType) :
    Stage.Ordered ((lock, type) :: stage) := by
  unfold Stage.mayTake at htake
  split at htake
  · trivial
  · rw [Bool.and_eq_true, Bool.not_eq_true'] at htake
    exact ⟨htake.2, htake.1⟩
  · cases htake

theorem Stage.Ordered.tail (hordered : Stage.Ordered ((lock, type) :: stage)) : stage.Ordered := by
  match stage, hordered with
  | [], _ => trivial
  | [_], _ => trivial

theorem Stage.Ordered.not_mem (hordered : Stage.Ordered ((lock, type) :: stage)) :
    ∀ type', (lock, type') ∉ stage := by
  match stage, hordered with
  | [], _ => exact fun _ => List.not_mem_nil
  | [(outer, outerType)], ⟨hinner, houter⟩ =>
    intro type' hmem
    cases List.mem_singleton.mp hmem
    rw [hinner] at houter
    cases houter

theorem Stage.mayTake_cases (htake : stage.mayTake lock = true) :
    stage = [] ∨ lock.isChain = false ∧ ∃ hash type, stage = [(.chain hash, type)] := by
  unfold Stage.mayTake at htake
  split at htake
  · exact .inl rfl
  · next outer type =>
      rw [Bool.and_eq_true, Bool.not_eq_true'] at htake
      cases outer with
      | chain hash => exact .inr ⟨htake.2, hash, type, rfl⟩
      | _ => cases htake.1
  · cases htake

variable {after : Stage}

theorem mayTake_of_rule (hrule : lockRule (.lock fd type start len) stage = some after) :
    ∃ lock, lockName fd start len = some lock ∧ stage.mayTake lock = true ∧
      after = (lock, type) :: stage := by
  unfold lockRule at hrule
  dsimp only at hrule
  split at hrule
  · cases hrule
  · next lock hname =>
      split at hrule
      next htake => exact ⟨lock, hname, htake, (Option.some.inj hrule).symm⟩
      next => cases hrule

theorem unlock_of_rule (hrule : lockRule (.unlock fd start len) stage = some after) :
    ∃ lock type, lockName fd start len = some lock ∧ stage = (lock, type) :: after := by
  cases stage with
  | nil => cases hrule
  | cons first rest =>
    obtain ⟨lock, type⟩ := first
    unfold lockRule at hrule
    dsimp only at hrule
    split at hrule
    next hname => exact ⟨lock, type, hname, by rw [Option.some.inj hrule]⟩
    next => cases hrule

/-- The table says of a process what its stage says. -/
def Tabled (table : LockTable) (pid : Nat) (stage : Stage) : Prop :=
  ∀ fd i type, table pid fd i = some type ↔ ∃ lock, (lock, type) ∈ stage ∧ lock.Covers fd i

theorem exists_mem_cons_covers {type' : LockType} {i : Nat} (hnot : ¬ lock.Covers fd i) :
    (∃ other, (other, type') ∈ (lock, type) :: stage ∧ other.Covers fd i) ↔
      ∃ other, (other, type') ∈ stage ∧ other.Covers fd i := by
  refine exists_congr fun other => and_congr_left fun hother => ?_
  rw [List.mem_cons, or_iff_right]
  rintro ⟨⟩
  exact hnot hother

variable {pid : Nat}

theorem tabled_take (htabled : Tabled table pid stage) (hname : lockName fd start len = some lock)
    (hordered : Stage.Ordered ((lock, type) :: stage)) :
    Tabled (table.put pid fd start len (some type)) pid ((lock, type) :: stage) := by
  intro file i type'
  by_cases hcovers : lock.Covers file i
  · rw [LockTable.put_covers hname _ ⟨rfl, hcovers⟩]
    constructor
    · rintro ⟨⟩
      exact ⟨lock, List.mem_cons_self, hcovers⟩
    · rintro ⟨other, hmem, hother⟩
      cases hother.unique hcovers
      rcases List.mem_cons.mp hmem with heq | hold
      · rw [(Prod.mk.inj heq).2]
      · exact absurd hold (hordered.not_mem type')
  · rw [LockTable.put_of_not_covers hname _ fun hboth => hcovers hboth.2, htabled]
    exact (exists_mem_cons_covers hcovers).symm

theorem tabled_release (htabled : Tabled table pid ((lock, type) :: stage))
    (hname : lockName fd start len = some lock) (hordered : Stage.Ordered ((lock, type) :: stage)) :
    Tabled (table.put pid fd start len none) pid stage := by
  intro file i type'
  by_cases hcovers : lock.Covers file i
  · rw [LockTable.put_covers hname _ ⟨rfl, hcovers⟩]
    constructor
    · rintro ⟨⟩
    · rintro ⟨other, hmem, hother⟩
      cases hother.unique hcovers
      exact absurd hmem (hordered.not_mem type')
  · rw [LockTable.put_of_not_covers hname _ fun hboth => hcovers hboth.2, htabled]
    exact exists_mem_cons_covers hcovers

theorem Tabled.of_other {other : Nat} (htabled : Tabled table other stage) (hne : other ≠ pid)
    (op : Sys) : Tabled (op.locks pid table) other stage := by
  intro fd i type
  rw [Sys.locks_of_ne hne]
  exact htabled fd i type

theorem Tabled.perform {table : LockTable} (htabled : Tabled table pid stage)
    (hordered : stage.Ordered) {op : Sys} (hrule : lockRule op stage = some after) :
    Tabled (op.locks pid table) pid after ∧ after.Ordered := by
  cases op with
  | lock fd type start len =>
    obtain ⟨lock, hname, htake, rfl⟩ := mayTake_of_rule hrule
    have hordered' := Stage.ordered_take htake type
    exact ⟨tabled_take htabled hname hordered', hordered'⟩
  | unlock fd start len =>
    obtain ⟨lock, type, hname, rfl⟩ := unlock_of_rule hrule
    exact ⟨tabled_release htabled hname hordered, hordered.tail⟩
  | read fd pos len | write fd pos bytes | size fd | truncate fd =>
    cases hrule
    exact ⟨htabled, hordered⟩

def Process.At (stage : Stage) : Process → Prop
  | .idle _ => stage = []
  | .running _ program => Obeys lockRule (fun _ after => after = []) program stage

structure Staged (config : Config) (stages : Nat → Stage) : Prop where
  tabled : ∀ pid, Tabled config.table pid (stages pid)
  ordered : ∀ pid, (stages pid).Ordered
  process : ∀ pid, (config.process pid).At (stages pid)

variable {terms : Terms}

namespace Staged

variable {config : Config} {stages : Nat → Stage} {call : Call}

theorem resume (htabled : ∀ pid, Tabled config.table pid (stages pid))
    (hordered : ∀ pid, (stages pid).Ordered)
    (hothers : ∀ other, other ≠ pid → (config.process other).At (stages other))
    {program : DbProg (Reply × DB)}
    (hobeys : Obeys lockRule (fun _ after => after = []) program (stages pid)) :
    Staged (config.resume pid call program) stages := by
  have hprocess : ∀ process : Process, process.At (stages pid) →
      ∀ other, (update config.process pid process other).At (stages other) := by
    intro process hat other
    rw [update_apply]
    split
    next heq => rwa [heq]
    next hne => exact hothers other hne
  unfold Config.resume
  split
  · exact ⟨htabled, hordered, hprocess _ hobeys.of_ret⟩
  · exact ⟨htabled, hordered, hprocess _ hobeys⟩

theorem step (hstaged : Staged config stages) {config' : Config}
    (hstep : Step terms config config') : ∃ stages', Staged config' stages' := by
  cases hstep with
  | @invoke pid call db hidle _ _ =>
    have hat := hstaged.process pid
    rw [hidle] at hat
    have hobeys : Obeys lockRule (fun _ after => after = []) (call.prog db) (stages pid) := by
      rw [show stages pid = [] from hat]
      exact obeys_prog call db
    refine ⟨stages, resume ?_ hstaged.ordered ?_ hobeys⟩
    · exact hstaged.tabled
    · exact fun other _ => hstaged.process other
  | @perform pid call op next hrunning hready _ =>
    have hat := hstaged.process pid
    rw [hrunning] at hat
    obtain ⟨after, hrule, hnext⟩ := Obeys.of_call hat
    obtain ⟨htabled, hordered⟩ :=
      (hstaged.tabled pid).perform (hstaged.ordered pid) hrule
    refine ⟨update stages pid after, resume ?_ ?_ ?_ ?_⟩
    · intro other
      by_cases hother : other = pid
      · subst hother
        rw [update_self]
        exact htabled
      · rw [update_of_ne hother]
        exact (hstaged.tabled other).of_other hother op
    · intro other
      by_cases hother : other = pid
      · subst hother
        rw [update_self]
        exact hordered
      · rw [update_of_ne hother]
        exact hstaged.ordered other
    · intro other hother
      rw [update_of_ne hother]
      exact hstaged.process other
    · rw [update_self]
      exact hnext _
  | @unroll pid call _ _ body start next hrunning =>
    have hat := hstaged.process pid
    rw [hrunning] at hat
    exact ⟨stages, resume hstaged.tabled hstaged.ordered
      (fun other _ => hstaged.process other) (Obeys.of_loop hat)⟩
  | @exit pid call fault hrunning =>
    refine ⟨update stages pid [], ?_, ?_, ?_⟩ <;> intro other <;> by_cases hother : other = pid
    · subst hother
      intro fd i type
      simp [LockTable.drop]
    · intro fd i type
      simp only [LockTable.drop, update_of_ne hother]
      exact hstaged.tabled other fd i type
    · subst hother
      rw [update_self]
      trivial
    · rw [update_of_ne hother]
      exact hstaged.ordered other
    · subst hother
      rw [update_self]
      change (config.process other).At []
      rw [hrunning]
      exact .fail
    · rw [update_of_ne hother]
      exact hstaged.process other

end Staged

/-- Processes between two calls, without locks, on files with any contents. -/
def Resting (config : Config) : Prop :=
  (∀ pid, ∃ db, config.process pid = .idle db) ∧ ∀ pid fd i, config.table pid fd i = none

variable {config : Config}

theorem Resting.staged (hresting : Resting config) :
    Staged config fun _ => [] where
  tabled pid fd i type := by
    rw [hresting.2]
    simp
  ordered _ := trivial
  process pid := by
    obtain ⟨db, hidle⟩ := hresting.1 pid
    rw [hidle]
    rfl

theorem exists_staged {init : Config → Prop} (hinit : ∀ config, init config → Resting config)
    (hreaches : Reaches init (Step terms) config) : ∃ stages, Staged config stages := by
  refine @Reaches.invariant _ _ _ (fun config => ∃ stages, Staged config stages) ?_ ?_ _ hreaches
  · exact fun config hstart => ⟨_, (hinit config hstart).staged⟩
  · rintro _ _ ⟨stages, hstaged⟩ hstep
    exact hstaged.step hstep

variable {stages : Nat → Stage}

theorem Staged.unlocked (hstaged : Staged config stages) {db : DB}
    (hidle : config.process pid = .idle db) (fd : Fd) (i : Nat) : config.table pid fd i = none := by
  have hat := hstaged.process pid
  rw [hidle] at hat
  cases htable : config.table pid fd i with
  | none => rfl
  | some type =>
    obtain ⟨lock, hmem, _⟩ := (hstaged.tabled pid fd i type).mp htable
    rw [show stages pid = [] from hat] at hmem
    cases hmem

theorem alone_of_idle {init : Config → Prop} (hinit : ∀ config, init config → Resting config)
    (hreaches : Reaches init (Step terms) config)
    (hidle : ∀ other, other ≠ pid → ∃ db, config.process other = .idle db) :
    ∀ other, other ≠ pid → ∀ fd i, config.table other fd i = none := by
  obtain ⟨stages, hstaged⟩ := exists_staged hinit hreaches
  intro other hother
  obtain ⟨db, hprocess⟩ := hidle other hother
  exact hstaged.unlocked hprocess

/-- A process waits in a locking call for a lock of another process. -/
def Config.WaitsFor (config : Config) (pid other : Nat) : Prop :=
  ∃ call fd type start len next,
    config.process pid = .running call (.call (.lock fd type start len) next) ∧
    config.table.Conflict pid other fd type start len

/-- A process that waits has at most the lock of a hash chain, and then it waits
for another kind of lock, which the other process has. -/
theorem Staged.of_waitsFor (hstaged : Staged config stages) {other : Nat}
    (hwaits : config.WaitsFor pid other) :
    ∃ lock type, (lock, type) ∈ stages other ∧ (stages pid = [] ∨
      lock.isChain = false ∧ ∃ hash type', stages pid = [(.chain hash, type')]) := by
  obtain ⟨call, fd, type, start, len, next, hrunning, _, i, held, hrange, htable, _⟩ := hwaits
  have hat := hstaged.process pid
  rw [hrunning] at hat
  obtain ⟨after, hrule, _⟩ := Obeys.of_call hat
  obtain ⟨lock, hname, htake, _⟩ := mayTake_of_rule hrule
  obtain ⟨lock', hmem, hcovers⟩ := (hstaged.tabled other fd i held).mp htable
  cases hcovers.unique ((covers_of_lockName hname).mpr ⟨rfl, hrange⟩)
  exact ⟨lock, held, hmem, Stage.mayTake_cases htake⟩

/-- No processes wait for each other, and a process between two calls has no
locks. -/
theorem no_deadlock {terms : Terms} {config : Config}
    (hreaches : Reaches Resting (Step terms) config) :
    (¬ ∃ waiting : Nat → Prop, (∃ pid, waiting pid) ∧
      ∀ pid, waiting pid → ∃ other, waiting other ∧ config.WaitsFor pid other) ∧
    ∀ pid db, config.process pid = .idle db → ∀ fd i, config.table pid fd i = none := by
  obtain ⟨stages, hstaged⟩ := exists_staged (fun _ hresting => hresting) hreaches
  constructor
  · rintro ⟨waiting, ⟨pid, hpid⟩, hall⟩
    -- Whoever is waited for has a lock and waits, so it has the lock of a hash
    -- chain and is waited for by nobody who waits for another kind of lock.
    have hchain : ∀ pid, waiting pid → ∀ lock type, (lock, type) ∈ stages pid →
        ∃ hash type', stages pid = [(.chain hash, type')] := by
      intro pid hpid lock type hmem
      obtain ⟨other, _, hwaits⟩ := hall pid hpid
      obtain ⟨_, _, _, hempty | ⟨_, hshape⟩⟩ := hstaged.of_waitsFor hwaits
      · rw [hempty] at hmem
        cases hmem
      · exact hshape
    obtain ⟨second, hsecond, hwaits⟩ := hall pid hpid
    obtain ⟨lock, type, hmem, _⟩ := hstaged.of_waitsFor hwaits
    obtain ⟨hash, type', hshape⟩ := hchain second hsecond lock type hmem
    obtain ⟨third, hthird, hwaits'⟩ := hall second hsecond
    obtain ⟨lock', type'', hmem', hcases⟩ := hstaged.of_waitsFor hwaits'
    rcases hcases with hempty | ⟨hinner, _⟩
    · rw [hempty] at hshape
      cases hshape
    · obtain ⟨hash', _, hshape'⟩ := hchain third hthird lock' type'' hmem'
      rw [hshape'] at hmem'
      cases List.mem_singleton.mp hmem'
      cases hinner
  · exact fun pid db hidle fd i => hstaged.unlocked hidle fd i

/-- Two processes on an empty database; the first has locked the hash chain of a
key for writing, and the second waits for it. -/
theorem no_deadlock_waiting : ∃ config : Config,
    Reaches Resting (Step ⟨fun _ _ => True, fun _ _ _ _ => True⟩) config ∧ config.WaitsFor 1 0 ∧
    (¬ ∃ waiting : Nat → Prop, (∃ pid, waiting pid) ∧
      ∀ pid, waiting pid → ∃ other, waiting other ∧ config.WaitsFor pid other) ∧
    ∀ pid db, config.process pid = .idle db → ∀ fd i, config.table pid fd i = none := by
  let terms : Terms := ⟨fun _ _ => True, fun _ _ _ _ => True⟩
  let key : CString := ⟨[97], by decide⟩
  have hstart : Reaches Resting (Step terms)
      ⟨⟨⟨[], []⟩, []⟩, fun _ _ _ => none, fun _ => .idle dbAlloc⟩ :=
    .start ⟨fun _ => ⟨_, rfl⟩, fun _ _ _ => rfl⟩
  have hlocked : Reaches Resting (Step terms) _ := .step (.step hstart
    (@Step.invoke terms _ 0 (.delete key) dbAlloc rfl trivial trivial))
    (@Step.perform terms _ 0 (.delete key)
      (.lock .idx .write (chainOff (dbHash [97])) 1) _ rfl
      (by rintro other ⟨_, i, held, _, ⟨⟩, _⟩) trivial)
  have hwaiting : Reaches Resting (Step terms) _ := .step hlocked
    (@Step.invoke terms _ 1 (.fetch key) dbAlloc rfl trivial trivial)
  refine ⟨_, hwaiting, ?_, no_deadlock hwaiting⟩
  refine ⟨.fetch key, .idx, .read, chainOff (dbHash [97]), 1, _, rfl, by decide,
    chainOff (dbHash [97]), .write, ?_, ?_, .inl rfl⟩
  · exact ⟨Nat.le_refl _, .inr (Nat.lt_succ_self _)⟩
  · change LockTable.put (fun _ _ _ => none) 0 .idx (chainOff (dbHash [97])) 1 (some .write) 0
      .idx (chainOff (dbHash [97])) = _
    exact LockTable.put_covers (lockName_chain [97]) _
      ⟨rfl, rfl, Nat.le_refl _, .inr (Nat.lt_succ_self _)⟩

end ApueFormal.Database
