import ApueFormal.Database.Session

/-!
# Several handles

A database may be opened again for reading and writing, by the same program or by another one,
while earlier handles are in use or after they have been closed.  As long as the calls on
all handles come one after the other, they are calls on one map: what is stored outlives every
handle.
-/

namespace ApueFormal.Database

open Program

/-- The calls on all handles so far, and the handles that are open. -/
inductive Handles : List (Call × Reply) → List DB → Files → Prop where
  | create {files files' : Files} {db : DB}
      (hruns : Runs os (dbOpen .rdwrCreatTrunc) files (.ok db) files') :
      Handles [] [db] files'
  | open {history : List (Call × Reply)} {dbs : List DB} {files files' : Files} {db : DB}
      (hhandles : Handles history dbs files)
      (hruns : Runs os (dbOpen .rdwr) files (.ok db) files') : Handles history (db :: dbs) files'
  | close {history : List (Call × Reply)} {before after : List DB} {db : DB} {files : Files}
      (hhandles : Handles history (before ++ db :: after) files) :
      Handles history (before ++ after) files
  | call {history : List (Call × Reply)} {before after : List DB} {db db' : DB}
      {files files' : Files} {call : Call} {reply : Reply}
      (hhandles : Handles history (before ++ db :: after) files)
      (hcall : SteadyKeys (keyMap.after history) call) (hreads : call.Reads db)
      (hruns : Runs os (call.prog db) files (.ok (reply, db')) files') :
      Handles (history ++ [(call, reply)]) (before ++ db' :: after) files'

theorem Handles.settled {history : List (Call × Reply)} {dbs : List DB} {files : Files}
    (hhandles : Handles history dbs files) : Settled anyCalls history files := by
  induction hhandles with
  | create hruns =>
    obtain ⟨_, rfl⟩ := hruns.unique (runs_dbOpen _)
    exact settled_empty anyCalls
  | @«open» history dbs files files' db _ hruns ih =>
    obtain ⟨_, rfl⟩ := hruns.unique (.ret (dbRewind dbAlloc) files)
    exact ih
  | close _ ih => exact ih
  | @call history before after db db' files files' call reply _ hcall hreads hruns ih =>
    obtain ⟨key, hadmits⟩ := admits_steadyKeys hcall
    obtain ⟨outcome, final, hruns', hnext⟩ := ih.call (fun _ _ => trivial) hadmits.onKey
      hadmits.noSep hadmits.allows hreads
    obtain ⟨rfl, rfl⟩ := hruns.unique hruns'
    exact hnext reply db' rfl

/-- The calls on all handles together return what the map returns, and a call on any of the
handles stops. -/
theorem handles_refine_map {history : List (Call × Reply)} {dbs : List DB} {files : Files}
    (hhandles : Handles history dbs files) :
    keyMap.Legal history ∧ ∀ db ∈ dbs, ∀ call, SteadyKeys (keyMap.after history) call →
      call.Reads db → ∃ outcome final, Runs os (call.prog db) files outcome final := by
  refine ⟨hhandles.settled.legal, fun db _ call hcall hreads => ?_⟩
  obtain ⟨key, hadmits⟩ := admits_steadyKeys hcall
  obtain ⟨outcome, final, hruns, _⟩ := hhandles.settled.call (fun _ _ => trivial) hadmits.onKey
    hadmits.noSep hadmits.allows hreads
  exact ⟨outcome, final, hruns⟩

/-- A database is opened twice, and the later handle stores a record. -/
theorem handles_refine_map_twice : ∃ reply db files,
    Handles [(.store sampleKey sampleData dbStoreFlag, reply)] [db, dbRewind dbAlloc] files ∧
      keyMap.Legal [(.store sampleKey sampleData dbStoreFlag, reply)] := by
  have heval : endsWith 100 ((Call.store sampleKey sampleData dbStoreFlag).prog (dbRewind dbAlloc))
      emptyFiles (isOk fun _ _ => true) := by decide +kernel
  obtain ⟨⟨reply, db⟩, files, hruns, _⟩ := runs_ok heval
  have hopened := (Handles.create (runs_dbOpen ⟨[], []⟩)).open (.ret _ _)
  have hhandles := @Handles.call _ [] _ _ _ _ _ _ _ hopened
    ⟨sampleKey, rfl, steady_own _ _ _ _⟩ (reads_own ..) hruns
  exact ⟨reply, db, files, hhandles, (handles_refine_map hhandles).1⟩

end ApueFormal.Database
