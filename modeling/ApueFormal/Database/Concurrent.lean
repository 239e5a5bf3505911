import ApueFormal.Database.Deadlock
import ApueFormal.Database.Session

/-!
# Processes at work together

The specification of every call, in the theory of one process, is enough for
all interleavings: at every moment the processes and the locks share out the
cells that describe the files.  Of runs in which a call has given up nothing is
said: it may have stopped in the middle of its writes.
-/

namespace ApueFormal.Database

open Function Libc Program

/-- What a process has between two calls, and the faults in which its calls may
end. -/
structure Contract where
  rests : Nat → DB → DbHeap → Prop
  faults : Call → Fault → Prop

namespace Contract

/-- A call announces its reply with its last system call, or the map does not
depend on it. -/
def Returns (contract : Contract) (pid : Nat) (call : Call) :
    Except Fault (Reply × DB) → DbLocal → Prop
  | .ok (reply, db), after => ∃ own, contract.rests pid db own ∧
      ((∃ taken, after = finished own taken reply) ∨
        after = idle own ∧ call ≠ .nextrec ∧
          ∀ map : KeyMap, map.accepts call reply ∧ map.next call = map)
  | .error fault, _ => contract.faults call fault

/-- The cells of a process fit what it has left to do. -/
def Fits (contract : Contract) (mode : Mode) (pid : Nat) (here : DbLocal) : Process → Prop
  | .idle db => ∃ own, contract.rests pid db own ∧ here = idle own
  | .running call program => here.reply = none ∧
      Wp (mode.theory (pid, call)) (contract.faults call)
        (contract.Returns pid call) program here

def Aborted (contract : Contract) (config : Config) : Prop :=
  ∃ pid call fault, config.process pid = .running call (.fail fault) ∧ contract.faults call fault

end Contract

/-- The processes and the locks share out the cells. -/
structure Sound (mode : Mode) (contract : Contract) (config : Config)
    (here : Nat → DbLocal) (pool : Lock → DbHeap) (total : DbHeap) : Prop where
  together : Protocol.Together (protocol mode) config.world here pool total
  guarded : ∀ pid, Guarded config.table pid (here pid)
  fits : ∀ pid, contract.Fits mode pid (here pid) (config.process pid)

/-- The processes work as they should, unless a call has given up. -/
def Contract.Kept (contract : Contract) (mode : Mode) (config : Config) : Prop :=
  contract.Aborted config ∨ ∃ here pool total, Sound mode contract config here pool total

def Sys.Takes (lock : Lock) : Sys → Prop
  | .lock fd _ start len => lockName fd start len = some lock
  | _ => False

structure Contract.Signed (contract : Contract) (mode : Mode) (terms : Terms) : Prop where
  known : ∀ lock part, mode.known lock part
  calls : ∀ pid call db own, terms.allowed pid call → call.Reads db →
    contract.rests pid db own → Wp (mode.theory (pid, call)) (contract.faults call)
      (contract.Returns pid call) (call.prog db) (idle own)
  allows : ∀ pid call key op world, terms.condition pid call op world →
    call.key? = some key → op.Takes (.chain (chainOf key.bytes)) →
    mode.Allows (mapOf world.trace key.bytes) call

variable {mode : Mode} {contract : Contract} {config : Config} {here : Nat → DbLocal}
variable {pool : Lock → DbHeap} {total : DbHeap} {pid : Nat} {call : Call}

theorem Contract.Fits.update {process : Process} {next : DbLocal}
    (hothers : ∀ other, other ≠ pid → contract.Fits mode other (here other) (config.process other))
    (hfits : contract.Fits mode pid next process) (other : Nat) :
    contract.Fits mode other (update here pid next other)
      (update config.process pid process other) := by
  by_cases hother : other = pid
  · subst hother
    rw [update_self, update_self]
    exact hfits
  · rw [update_of_ne hother, update_of_ne hother]
    exact hothers other hother

theorem guarded_update {table : LockTable} {next : DbLocal}
    (hothers : ∀ other, other ≠ pid → Guarded table other (here other))
    (hnext : Guarded table pid next) (other : Nat) :
    Guarded table other (update here pid next other) := by
  by_cases hother : other = pid
  · subst hother
    rw [update_self]
    exact hnext
  · rw [update_of_ne hother]
    exact hothers other hother

/-- A call that has announced its reply returns it, and the process has no locks
then. -/
theorem Sound.answer {reply : Reply} {next : DbLocal} {program : DbProg (Reply × DB)}
    (htogether : Protocol.Together (protocol mode) (World.finish (pid, call) reply config.world)
      (update here pid next) pool total)
    (hguarded : ∀ other, other ≠ pid → Guarded config.table other (here other))
    (hothers : ∀ other, other ≠ pid → contract.Fits mode other (here other) (config.process other))
    (hreply : next.reply = some reply)
    (hwp : Wp (mode.theory (pid, call)) (contract.faults call)
      (contract.Returns pid call) program next) :
    contract.Kept mode (config.resume pid call program) := by
  rcases Protocol.done_of_reply hwp (by rw [hreply]; simp) with
    ⟨⟨reply', db⟩, rfl, own, hrests, hways⟩ | ⟨fault, rfl, hfault⟩
  · rcases hways with ⟨taken, rfl⟩ | ⟨rfl, _⟩
    · cases hreply
      right
      refine ⟨update here pid (idle own), pool, total, ?_, ?_, ?_⟩
      · refine htogether.relabel ?_ ?_ ?_ ?_ <;> intro other <;>
          by_cases hother : other = pid <;> simp [hother, finished, idle, Local.start]
      · exact guarded_update hguarded ⟨fun _ hmem => absurd hmem List.not_mem_nil, fun _ => nofun⟩
      · exact Contract.Fits.update hothers ⟨own, hrests, rfl⟩
    · cases hreply
  · exact .inl ⟨pid, call, fault, update_self .., hfault⟩

/-- A call that has not announced its reply goes on, or it returns a reply on
which the map does not depend. -/
theorem Sound.resume {next : DbLocal} {program : DbProg (Reply × DB)}
    (htogether : Protocol.Together (protocol mode) config.world (update here pid next) pool total)
    (hguarded : ∀ other, other ≠ pid → Guarded config.table other (here other))
    (hothers : ∀ other, other ≠ pid → contract.Fits mode other (here other) (config.process other))
    (hnext : Guarded config.table pid next) (hreply : next.reply = none)
    (hwp : Wp (mode.theory (pid, call)) (contract.faults call)
      (contract.Returns pid call) program next) :
    ∃ here' pool' total', Sound mode contract (config.resume pid call program)
      here' pool' total' := by
  refine ⟨update here pid next, pool, total, ?_⟩
  unfold Config.resume
  split
  · next reply db =>
      cases hwp with
      | ret hpost =>
        obtain ⟨own, hrests, ⟨taken, rfl⟩ | ⟨rfl, hcall, hsame⟩⟩ := hpost
        · cases hreply
        · have hholds : Holds mode.strict config.world total := htogether.rep
          exact ⟨htogether.restate
            (hholds.finish_same (hsame _).1 (hsame _).2 hcall),
            guarded_update hguarded hnext, Contract.Fits.update hothers ⟨own, hrests, rfl⟩⟩
  · exact ⟨htogether, guarded_update hguarded hnext,
      Contract.Fits.update hothers ⟨hreply, hwp⟩⟩

theorem Sound.assume {terms : Terms} (hsigned : contract.Signed mode terms)
    (hsound : Sound mode contract config here pool total) {fd : Fd} {type : LockType}
    {start len : Nat} {lock : Lock} (hname : lockName fd start len = some lock)
    (hcondition : terms.condition pid call (.lock fd type start len) config.world) :
    LockAssume mode (pid, call) lock (pool lock) := by
  refine ⟨hsigned.known lock _, ?_⟩
  rintro key table hcall rfl htable
  have htotal := hsound.together.splits.sub (.inr (.chain (chainOf key.bytes))) _ _ htable
  rw [hsound.together.rep.tables _ _ htotal key.bytes rfl]
  exact hsigned.allows pid call key _ _ hcondition hcall hname

theorem Sound.perform {terms : Terms} (hsigned : contract.Signed mode terms)
    (hsound : Sound mode contract config here pool total) {op : Sys}
    {next : op.Answer → DbProg (Reply × DB)}
    (hrunning : config.process pid = .running call (.call op next))
    (hready : op.Ready config.table pid) (hcondition : terms.condition pid call op config.world) :
    contract.Kept mode (config.perform pid call op next) := by
  have hfits := hsound.fits pid
  rw [hrunning] at hfits
  obtain ⟨hreply, hwp⟩ := hfits
  have hguarded : ∀ other, other ≠ pid → Guarded (op.locks pid config.table) other (here other) :=
    fun other hother => (hsound.guarded other).of_other hother op
  have hothers : ∀ other, other ≠ pid →
      contract.Fits mode other (here other) (config.process other) :=
    fun other _ => hsound.fits other
  have hkeep : lockUse op ≠ .io → (World.exec (pid, call) op config.world).2 = config.world :=
    (protocol mode).exec_lock (pid, call) op config.world
  have hspec := lockUse_spec op
  cases hwp with
  | call accepted hopeless hmay hnext hgive =>
    obtain ⟨_, hmay⟩ := hmay
    rw [show (protocol mode).lockUse op = lockUse op from rfl] at hmay
    unfold Config.perform
    cases huse : lockUse op with
    | io =>
      rw [huse] at hmay hspec
      rcases hsound.together.io pid hmay with hhopeless | ⟨own, total', haccepted, hafter⟩
      · obtain ⟨fault, heq, hfault⟩ := hgive _ hhopeless
        refine .inl ⟨pid, call, fault, ?_, hfault⟩
        change (Config.resume _ pid call (next ((protocol mode).exec (pid, call) op
          config.world).1)).process pid = _
        rw [heq]
        exact update_self ..
      · refine .inr (Sound.resume hafter hguarded hothers ?_ hreply (hnext _ _ haccepted))
        change Guarded (op.locks pid config.table) pid _
        rw [hspec]
        exact ⟨(hsound.guarded pid).held, (hsound.guarded pid).reading⟩
    | write lock =>
      rw [huse] at hmay hspec hkeep
      rw [hkeep (by simp)]
      obtain ⟨fd, start, len, rfl, hname⟩ := hspec
      obtain ⟨after, haccepted, hsame, hheld, hreading, _, hafter⟩ :=
        hsound.together.write pid hmay
          (fun other hother => ⟨(hsound.guarded other).not_held hother hname hready,
            (hsound.guarded other).not_reading hother hname hready⟩)
          (fun _ => hsound.assume hsigned hname hcondition)
          (World.exec (pid, call) _ config.world).1
      exact .inr (Sound.resume hafter hguarded hothers
        ((hsound.guarded pid).write hname hmay.1 hheld hreading) (hsame.trans hreply)
        (hnext _ _ haccepted))
    | read lock =>
      rw [huse] at hmay hspec hkeep
      rw [hkeep (by simp)]
      obtain ⟨fd, start, len, rfl, hname⟩ := hspec
      obtain ⟨after, haccepted, hsame, hheld, hreading, _, hafter⟩ :=
        hsound.together.read pid hmay
          (fun other hother => (hsound.guarded other).not_held hother hname hready)
          (fun _ => hsound.assume hsigned hname hcondition)
          (World.exec (pid, call) _ config.world).1
      exact .inr (Sound.resume hafter hguarded hothers
        ((hsound.guarded pid).read hname hmay.2.1 hheld hreading) (hsame.trans hreply)
        (hnext _ _ haccepted))
    | release lock =>
      rw [huse] at hmay hspec hkeep
      rw [hkeep (by simp)]
      obtain ⟨fd, start, len, rfl, hname⟩ := hspec
      obtain ⟨after, pool', total', haccepted, hheld, hreading, _, _, _, hways⟩ :=
        hsound.together.release pid hmay (World.exec (pid, call) _ config.world).1
      rcases hways with ⟨hsame, hafter⟩ | ⟨reply, hsome, hafter⟩
      · exact .inr (Sound.resume hafter hguarded hothers
          ((hsound.guarded pid).release hname (hsound.together.nodup pid) hheld hreading)
          (hsame.trans hreply) (hnext _ _ haccepted))
      · exact Sound.answer hafter hguarded hothers hsome (hnext _ _ haccepted)
    | stray =>
      rw [huse] at hmay
      exact hmay.elim

theorem Holds.invoke {strict : Prop} {world : World} {total : DbHeap}
    (hholds : Holds strict world total) (pid : Nat) (call : Call) :
    Holds strict { world with trace := world.trace ++ [.invoke pid call] } total where
  rep := hholds.rep
  tables := by
    unfold mapOf
    rw [completed_append, completed_invoke, List.append_nil]
    exact hholds.tables
  legal := by
    rw [completed_append, completed_invoke, List.append_nil]
    exact hholds.legal
  good hstrict := (hholds.good hstrict).append _
    ((hholds.good hstrict).scans.snoc _ fun _ _ _ _ _ heq => by cases heq)

theorem Sound.invoke {terms : Terms} (hsigned : contract.Signed mode terms)
    (hsound : Sound mode contract config here pool total) {db : DB}
    (hidle : config.process pid = .idle db) (hallowed : terms.allowed pid call)
    (hreads : call.Reads db) : contract.Kept mode (config.invoke pid call db) := by
  have hfits := hsound.fits pid
  rw [hidle] at hfits
  obtain ⟨own, hrests, hhere⟩ := hfits
  have hholds : Holds mode.strict config.world total := hsound.together.rep
  refine .inr (@Sound.resume mode contract _ here pool total pid call (here pid) _
    ?_ ?_ ?_ ?_ ?_ ?_)
  · rw [update_eq_self]
    exact hsound.together.restate (hholds.invoke pid call)
  · exact fun other _ => hsound.guarded other
  · exact fun other _ => hsound.fits other
  · exact hsound.guarded pid
  · rw [hhere]
    rfl
  · rw [hhere]
    exact hsigned.calls pid call db own hallowed hreads hrests

theorem Sound.unroll (hsound : Sound mode contract config here pool total) {σ τ : Type}
    {body : σ → DbProg (σ ⊕ τ)} {start : σ} {next : τ → DbProg (Reply × DB)}
    (hrunning : config.process pid = .running call (.loop body start next)) :
    contract.Kept mode (config.resume pid call (Prog.unroll body start next)) := by
  have hfits := hsound.fits pid
  rw [hrunning] at hfits
  obtain ⟨hreply, hwp⟩ := hfits
  cases hwp with
  | loop _ hunroll =>
    refine .inr (@Sound.resume mode contract _ here pool total pid call (here pid) _
      ?_ ?_ ?_ ?_ hreply hunroll)
    · rw [update_eq_self]
      exact hsound.together
    · exact fun other _ => hsound.guarded other
    · exact fun other _ => hsound.fits other
    · exact hsound.guarded pid

theorem Contract.Aborted.step {terms : Terms} {config' : Config}
    (haborted : contract.Aborted config) (hstep : Step terms config config') :
    contract.Aborted config' := by
  obtain ⟨failed, call, fault, hfailed, hfault⟩ := haborted
  refine ⟨failed, call, fault, ?_, hfault⟩
  have hresume : ∀ (config' : Config) pid call program, config'.process = config.process →
      pid ≠ failed → (config'.resume pid call program).process failed = config.process failed := by
    intro config' pid call program hsame hne
    unfold Config.resume
    split <;> rw [← hsame] <;> exact update_of_ne hne.symm ..
  rw [← hfailed]
  cases hstep with
  | invoke hidle _ _ =>
    refine hresume _ _ _ _ rfl ?_
    rintro rfl
    rw [hidle] at hfailed
    cases hfailed
  | perform hrunning _ _ | unroll hrunning =>
    refine hresume _ _ _ _ rfl ?_
    rintro rfl
    rw [hrunning] at hfailed
    cases hfailed
  | exit _ => rfl

theorem Contract.Kept.step {terms : Terms} (hsigned : contract.Signed mode terms)
    {config' : Config} (hkept : contract.Kept mode config) (hstep : Step terms config config') :
    contract.Kept mode config' := by
  rcases hkept with haborted | ⟨here, pool, total, hsound⟩
  · exact .inl (haborted.step hstep)
  · cases hstep with
    | invoke hidle hallowed hreads => exact hsound.invoke hsigned hidle hallowed hreads
    | perform hrunning hready hcondition =>
      exact hsound.perform hsigned hrunning hready hcondition
    | unroll hrunning => exact hsound.unroll hrunning
    | @exit pid call fault hrunning =>
      have hfits := hsound.fits pid
      rw [hrunning] at hfits
      cases hfits.2 with
      | fail hfault => exact .inl ⟨pid, call, fault, hrunning, hfault⟩

/-- Processes with their handles on a new database. -/
structure Fresh (handles : Nat → DB → Prop) (config : Config) : Prop where
  files : config.world = ⟨emptyFiles, []⟩
  unlocked : ∀ pid fd i, config.table pid fd i = none
  idle : ∀ pid, ∃ db, config.process pid = .idle db ∧ handles pid db

theorem Fresh.resting {handles : Nat → DB → Prop} (hfresh : Fresh handles config) :
    Resting config := by
  refine ⟨fun pid => ?_, hfresh.unlocked⟩
  obtain ⟨db, hidle, _⟩ := hfresh.idle pid
  exact ⟨db, hidle⟩

theorem reaches_call_idle {handles : Nat → DB → Prop} {terms : Terms}
    (hreaches : Reaches (Fresh handles) (Step terms) config)
    (hidle : ∀ other, ∃ db, config.process other = .idle db) (pid : Nat) {db : DB}
    {outcome : Except Fault (Reply × DB)} {files files' : Files}
    (hruns : Runs os (call.prog db) files outcome files') (hfiles : config.world.files = files)
    (hprocess : config.process pid = .idle db) (hallowed : terms.allowed pid call)
    (hreads : call.Reads db) (hcondition : ∀ op world, terms.condition pid call op world) :
    ∃ config', Reaches (Fresh handles) (Step terms) config' ∧
      config.Ended config' pid call outcome files' ∧
      ∀ other, other ≠ pid ∨ (∃ reply db', outcome = .ok (reply, db')) →
        ∃ db, config'.process other = .idle db := by
  obtain ⟨config', hreaches', hended⟩ := reaches_call hruns hcondition hfiles
    (alone_of_idle (fun _ hfresh => hfresh.resting) hreaches fun other _ => hidle other)
    hprocess hallowed hreads hreaches
  refine ⟨config', hreaches', hended, ?_⟩
  intro other hways
  rw [hended.process, update_apply]
  split
  next hother =>
    obtain ⟨reply, db', rfl⟩ := hways.resolve_left (not_not.mpr hother)
    exact ⟨db', rfl⟩
  next => exact hidle other

/-- Every run from a new database is sound. -/
theorem Contract.Signed.kept {terms : Terms} (hsigned : contract.Signed mode terms)
    {handles : Nat → DB → Prop} {own : Nat → DbHeap} (hown : Beginning own)
    (hrests : ∀ pid db, handles pid db → contract.rests pid db (own pid))
    (hreaches : Reaches (Fresh handles) (Step terms) config) : contract.Kept mode config := by
  refine @Reaches.invariant _ _ _ (contract.Kept mode) ?_ ?_ _ hreaches
  · intro config hfresh
    refine .inr ⟨fun pid => Database.idle (own pid), emptyPool, emptyHeap own, ?_, ?_, ?_⟩
    · rw [hfresh.files]
      exact together_empty mode hown
    · exact fun pid => ⟨fun _ hmem => absurd hmem List.not_mem_nil, fun _ => nofun⟩
    · intro pid
      obtain ⟨db, hidle, hdb⟩ := hfresh.idle pid
      rw [hidle]
      exact ⟨own pid, hrests pid db hdb, rfl⟩
  · exact fun _ _ hkept hstep => hkept.step hsigned hstep

def newDatabase : Config where
  world := ⟨emptyFiles, []⟩
  table _ _ _ := none
  process _ := .idle (dbRewind dbAlloc)

theorem fresh_newDatabase {handles : Nat → DB → Prop}
    (hhandles : ∀ pid, handles pid (dbRewind dbAlloc)) : Fresh handles newDatabase :=
  ⟨rfl, fun _ _ _ => rfl, fun pid => ⟨_, rfl, hhandles pid⟩⟩

/-- What one handle does in a session, a process can do while the others rest. -/
theorem Session.reaches {allowed : KeyMap → Call → Prop} {history : List (Call × Reply)} {db : DB}
    {files : Files} (hsession : Session allowed history db files) {handles : Nat → DB → Prop}
    (hhandles : ∀ pid, handles pid (dbRewind dbAlloc)) {terms : Terms} {pid : Nat}
    (hallowed : ∀ map call, allowed map call → terms.allowed pid call)
    (hcondition : ∀ call op world, terms.condition pid call op world) :
    ∃ config, Reaches (Fresh handles) (Step terms) config ∧ config.world.files = files ∧
      completed config.world.trace = history ∧
      config.process = update newDatabase.process pid (.idle db) := by
  induction hsession with
  | @create files files' db hruns =>
    obtain ⟨heq, rfl⟩ := hruns.unique (runs_dbOpen files)
    cases heq
    exact ⟨newDatabase, .start (fresh_newDatabase hhandles), rfl, rfl, (update_eq_self ..).symm⟩
  | @call history db db' files files' call reply _ hcall hreads hruns ih =>
    obtain ⟨config, hreaches, hfiles, hhistory, hprocess⟩ := ih
    obtain ⟨config', hreaches', hended, _⟩ := reaches_call_idle hreaches (by
      intro other
      rw [hprocess, update_apply]
      split <;> exact ⟨_, rfl⟩) pid hruns hfiles (by rw [hprocess, update_self])
      (hallowed _ _ hcall) hreads (hcondition call)
    refine ⟨config', hreaches', hended.files, ?_, ?_⟩
    · rw [hended.history, hhistory]
      rfl
    · rw [hended.process, hprocess, update_idem]
      rfl

/-! ## Calls on keys without separators -/

/-- Calls of `db_store`, `db_fetch` and `db_delete` on keys without separators. -/
def plainTerms : Terms where
  allowed _ call := call.OnPlainKey
  condition _ _ _ _ := True

/-- A call that gets the lock of its hash chain does not move the record that its key
has then with strings that are overwritten. -/
def steadyTerms : Terms where
  allowed _ call := call.OnPlainKey
  condition _ call op world := ∀ key, call.key? = some key →
    op.Takes (.chain (chainOf key.bytes)) → Steady (mapOf world.trace key.bytes) call

def plainContract : Contract where
  rests _ _ own := own = Heap.empty
  faults _ _ := True

theorem plainContract_signed : plainContract.Signed plainCalls steadyTerms where
  known _ _ := trivial
  calls := by
    rintro pid call db _ ⟨key, hkey, hnoSep⟩ hreads rfl
    refine wp_call hkey (fun _ => hnoSep) hreads ?_ ?_ ?_
    · exact fun reply db' taken => ⟨_, rfl, .inl ⟨taken, rfl⟩⟩
    · refine fun reply db' hsame => ⟨_, rfl, .inr ⟨rfl, ?_, hsame⟩⟩
      rintro rfl
      cases hkey
    · exact fun _ _ => trivial
  allows _ _ key _ _ hcondition hkey htakes := ⟨hcondition key hkey htakes, False.elim⟩

/-- However the processes interleave, the completed calls are the calls of one
map in an order that respects real time. -/
theorem processes_linearizable {config : Config}
    (hreaches : Reaches (Fresh fun _ _ => True) (Step steadyTerms) config)
    (hnoAbort : ∀ pid call fault, config.process pid ≠ .running call (.fail fault)) :
    Linearizable keyMap config.world.trace := by
  have hkept := @Contract.Signed.kept _ _ _ _ plainContract_signed _ (fun _ => Heap.empty)
    ⟨by rintro _ cell value ⟨⟩, fun _ _ _ _ => .inl rfl⟩ (fun _ _ _ => rfl) hreaches
  rcases hkept with ⟨pid, call, fault, hfailed, _⟩ | ⟨here, pool, total, hsound⟩
  · exact absurd hfailed (hnoAbort pid call fault)
  · exact linearizable_of_legal hsound.together.rep.legal

/-- A fetch begins, another process stores the record, and the fetch finds it. -/
theorem processes_linearizable_overlap : ∃ config : Config,
    Reaches (Fresh fun _ _ => True) (Step steadyTerms) config ∧
    (∀ pid call fault, config.process pid ≠ .running call (.fail fault)) ∧
    (∃ rc, completed config.world.trace =
      [(.store sampleKey sampleData dbInsert, rc),
        (.fetch sampleKey, .data (some sampleData.bytes))]) ∧
    Linearizable keyMap config.world.trace := by
  have hallowed : ∀ pid call, call.key? = some sampleKey → steadyTerms.allowed pid call :=
    fun _ _ hkey => ⟨sampleKey, hkey, by decide⟩
  have heval : endsWith 100 ((Call.store sampleKey sampleData dbInsert).prog (dbRewind dbAlloc))
      emptyFiles (isOk fun _ files =>
        endsWith 100 ((Call.fetch sampleKey).prog (dbRewind dbAlloc)) files
          (isData (· == some sampleData.bytes))) := by decide +kernel
  obtain ⟨⟨rc, db⟩, files, hstore, hfetch⟩ := runs_ok heval
  obtain ⟨found, db', final, hfetch, hfound⟩ := runs_data hfetch
  cases eq_of_beq hfound
  obtain ⟨op, next, hprog⟩ : ∃ op next,
      (Call.fetch sampleKey).prog (dbRewind dbAlloc) = .call op next := ⟨_, _, rfl⟩
  have hbegun : Reaches (Fresh fun _ _ => True) (Step steadyTerms)
      ⟨⟨emptyFiles, [.invoke 1 (.fetch sampleKey)]⟩, fun _ _ _ => none,
        update (fun _ => .idle (dbRewind dbAlloc)) 1
          (.running (.fetch sampleKey) (.call op next))⟩ := by
    have hstart : Fresh (fun _ _ => True) newDatabase := fresh_newDatabase fun _ => trivial
    have hinvoke := (Reaches.start hstart).step
      (@Step.invoke steadyTerms _ 1 (.fetch sampleKey) _ rfl (hallowed _ _ rfl) trivial)
    unfold Config.invoke at hinvoke
    rw [hprog] at hinvoke
    exact hinvoke
  obtain ⟨middle, hmiddle, hended⟩ := reaches_call hstore
    (fun _ _ _ _ _ => steady_own _ _ _ _) rfl (fun _ _ _ _ => rfl) rfl (hallowed 0 _ rfl)
    (reads_own _ _ _ _) hbegun
  have halone := @alone_of_idle 1 _ _ _ (fun _ hfresh => hfresh.resting) hmiddle (by
    intro other hother
    simp only [hended.process, update_apply, if_neg hother]
    split_ifs <;> exact ⟨_, rfl⟩)
  have hrunning : middle.process 1 = .running (.fetch sampleKey) (.call op next) := by
    rw [hended.process]
    rfl
  have hpending : Reaches (Fresh fun _ _ => True) (Step steadyTerms)
      (middle.resume 1 (.fetch sampleKey) ((Call.fetch sampleKey).prog (dbRewind dbAlloc))) := by
    rw [hprog, Config.resume_self hrunning]
    exact hmiddle
  obtain ⟨last, hlast, hended'⟩ := reaches_end hfetch (fun _ _ _ _ _ => trivial) hended.files
    halone hpending
  have hnoAbort : ∀ pid call fault, last.process pid ≠ .running call (.fail fault) := by
    intro pid call fault
    simp only [hended'.process, hended.process, update_apply, Process.after]
    split_ifs <;> simp
  refine ⟨last, hlast, hnoAbort, ⟨rc, ?_⟩, processes_linearizable hlast hnoAbort⟩
  rw [hended'.history, hended.history]
  rfl

/-- A process fetches the blanks of the deleted record, which nobody has stored. -/
theorem copied_record_not_linearizable : ∃ config : Config,
    Reaches (Fresh fun _ _ => True) (Step plainTerms) config ∧
    (∀ pid call fault, config.process pid ≠ .running call (.fail fault)) ∧
    (completed config.world.trace).map Prod.fst = copyCalls ∧
    ¬ Linearizable keyMap config.world.trace := by
  obtain ⟨history, db, files, hsession, hcalls, hfetched, hstored⟩ :=
    @exists_copied (fun _ call => call.OnPlainKey) fun call hcall map => by
      simp only [copyCalls, List.mem_cons, List.not_mem_nil, or_false] at hcall
      rcases hcall with rfl | rfl | rfl | rfl | rfl <;> exact ⟨_, rfl, by decide⟩
  obtain ⟨config, hreaches, _, rfl, hprocess⟩ := @Session.reaches _ _ _ _ hsession
    (fun _ _ => True) (fun _ => trivial) plainTerms 0 (fun _ _ hcall => hcall) fun _ _ _ => trivial
  refine ⟨config, hreaches, ?_, hcalls, ?_⟩
  · intro pid call fault
    rw [hprocess, update_apply]
    split <;> rintro ⟨⟩
  · intro hlinearizable
    obtain ⟨calls, hperm, hlegal⟩ := hlinearizable.exists_legal
    exact not_legal_of_unstored (hperm.any_eq.trans hfetched) (hperm.any_eq.trans hstored) hlegal

end ApueFormal.Database
