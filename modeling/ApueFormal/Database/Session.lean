import ApueFormal.Database.Create
import ApueFormal.Database.Update
import ApueFormal.Program.Sequential

/-!
# One handle at a time

A session is a sequence of calls on one handle, from a new database on.  After
every call the files hold exactly what the abstract map holds.
-/

namespace ApueFormal.Database

open Libc Program

variable {mode : Mode}

/-- A call on a key ends with the answer of the map, or with a fault. -/
theorem wp_call {pid : Nat} {own : DbHeap} {call : Call} {key : CString}
    (hcall : call.key? = some key) (hnoSep : mode.plain → sep ∉ key.bytes) {db : DB}
    (hreads : call.Reads db) {post : Except Fault (Reply × DB) → DbLocal → Prop}
    (hdone : ∀ reply db' taken, post (.ok (reply, db')) (finished own taken reply))
    (hsilent : ∀ reply db', (∀ map : KeyMap, map.accepts call reply ∧
      map.next call = map) → post (.ok (reply, db')) (idle own))
    (hfault : ∀ fault after, post (.error fault) after) :
    Wp (mode.theory (pid, call)) (fun _ => True) post (call.prog db) (idle own) := by
  cases call with
  | store ckey data flag =>
    cases hcall
    refine Wp.seq (wp_dbStore trivial ?_ ?_ ?_ ?_ ?_ db hreads.1 hreads.2 hnoSep ?_ (hfault _ _)
      ?_)
    · intro entries db' taken _ _
      exact .ret (hdone _ db' taken)
    · intro fault before entry after extra taken _ _
      exact hfault fault _
    · intro before entry after free _ _ _
      exact hfault _ _
    · intro fault entries extra taken _ _ _ _
      exact hfault fault _
    · intro fault after _
      exact hfault fault after
    · intro hinvalid
      refine .ret (hsilent _ db fun map => ?_)
      simp [KeyMap.accepts, KeyMap.next, storeCode, hinvalid]
    · intro _ after
      exact hfault _ after
  | fetch ckey =>
    cases hcall
    refine Wp.seq (wp_dbFetch db ?_ ?_ ?_)
    · intro before entry after _ _ _
      exact .ret (hdone _ _ _)
    · intro entries _ _ _
      exact .ret (hdone _ _ _)
    · intro _ after
      exact hfault _ after
  | delete ckey =>
    cases hcall
    refine Wp.seq (wp_dbDelete db ?_ ?_ ?_)
    · intro entries db' taken _ _
      exact .ret (hdone _ db' taken)
    · intro _ after
      exact hfault _ after
    · intro after
      exact hfault _ after
  | nextrec => cases hcall
  | rewind => cases hcall

/-! ## Runs of one process -/
variable {α : Type} {world : World} {outcome : Except Fault α} {files : Files}
  {history : List (Call × Reply)} {db : DB}

section

variable {program : DbProg α} {actor : Actor} {final : World}
  (hruns : Runs (World.exec actor) program world outcome final)
include hruns

theorem completed_of_runs : completed final.trace = completed world.trace := by
  refine Runs.invariant (fun state => completed state.trace = completed world.trace) ?_ hruns rfl
  exact fun op state hstate => (completed_exec actor op state).trans hstate

theorem runs_files : Runs os program world.files outcome final.files :=
  hruns.map World.files (fun _ _ => rfl) (fun _ _ => rfl)

end

variable {pool : Lock → DbHeap} {total own : DbHeap}

theorem fresh_idle {pid : Nat} {call : Call} (htogether : AtRest mode world own pool total)
    (hknown : ∀ lock, mode.known lock (pool lock))
    (hallows : ∀ key, call.key? = some key → mode.Allows (mapOf world.trace key.bytes) call) :
    (protocol mode).Fresh (pid, call) (idle own) pool where
  assume lock _ := by
    refine ⟨hknown lock, ?_⟩
    rintro key table hcall rfl htable
    have htotal := htogether.splits.sub (.inr (.chain (chainOf key.bytes))) _ _ htable
    rw [htogether.rep.tables _ _ htotal key.bytes rfl]
    exact hallows key hcall
  held lock hheld := absurd hheld List.not_mem_nil
  reading lock hreading := by cases hreading

/-- The mode in which a call knows the cells of the locks. -/
def Mode.knowing (mode : Mode) (pool : Lock → DbHeap) : Mode :=
  { mode with known := fun lock part => part = pool lock }

theorem lookup_of_finds (htogether : AtRest mode world own pool total) {key : Bytes}
    {entries : List Entry} (hfinds : (mode.knowing pool).Finds key entries) :
    (tableOf entries).lookup key = mapOf world.trace key := by
  have hcell := chainHeap_table (dbHash key) 0 (tableOf entries) entries
  rw [show chainHeap _ _ _ _ = pool _ from hfinds] at hcell
  exact htogether.rep.tables _ _
    (htogether.splits.sub (.inr (.chain (chainOf key))) _ _ hcell) key rfl

/-- The files hold what the completed calls have left in the map, and no lock is
held. -/
def Settled (mode : Mode) (history : List (Call × Reply)) (files : Files) : Prop :=
  ∃ trace pool total, completed trace = history ∧ AtRest mode ⟨files, trace⟩ Heap.empty pool total

theorem settled_empty (mode : Mode) : Settled mode [] emptyFiles := by
  refine ⟨[], emptyPool, _, rfl, together_empty mode ⟨?_, ?_⟩⟩
  · rintro _ cell value ⟨⟩
  · exact fun _ _ _ _ => .inl rfl

theorem Settled.legal (hsettled : Settled mode history files) : keyMap.Legal history := by
  obtain ⟨trace, pool, total, rfl, htogether⟩ := hsettled
  exact htogether.rep.legal

theorem together_call {trace : Trace} (htogether : AtRest mode ⟨files, trace⟩ own pool total)
    (hknown : ∀ lock part, mode.known lock part) {call : Call} {key : CString}
    (hcall : call.key? = some key) (hnoSep : mode.plain → sep ∉ key.bytes)
    (hallows : mode.Allows (mapOf trace key.bytes) call) (hreads : call.Reads db) :
    ∃ outcome final, Runs os (call.prog db) files outcome final ∧
      ∀ reply db', outcome = .ok (reply, db') → ∃ trace' pool' total',
        completed trace' = completed trace ++ [(call, reply)] ∧
        AtRest mode ⟨final, trace'⟩ own pool' total' := by
  -- A call with an invalid flag says nothing of its reply, the others announce it.
  have hwp := @wp_call mode 0 own call key hcall hnoSep db hreads
    (fun outcome after => ∀ reply db', outcome = .ok (reply, db') →
      (∃ taken, after = finished own taken reply) ∨ after = idle own ∧
        ∀ map : KeyMap, map.accepts call reply ∧ map.next call = map)
    (fun reply db' taken _ _ heq => by cases heq; exact .inl ⟨taken, rfl⟩)
    (fun reply db' hsame _ _ heq => by cases heq; exact .inr ⟨rfl, hsame⟩)
    (fun fault after _ _ heq => by cases heq)
  obtain ⟨outcome, final, hruns, hend⟩ := Protocol.runs_alone hwp rfl htogether
    (fresh_idle htogether (fun lock => hknown lock _) (by
      intro key' hkey'
      rw [hcall] at hkey'
      cases hkey'
      exact hallows))
  refine ⟨outcome, final.files, runs_files hruns, ?_⟩
  rintro reply db' rfl
  have htrace := completed_of_runs hruns
  rcases hend with ⟨fault, heq, _⟩ | ⟨after, pool', total', hpost, hafter⟩
  · cases heq
  rcases hpost reply db' rfl with ⟨taken, rfl⟩ | ⟨rfl, hsame⟩
  · refine ⟨_, pool', total', ?_, hafter.relabel (fun _ => rfl) (fun _ => rfl)
      (fun _ => rfl) (fun _ => rfl)⟩
    rw [completed_append, completed_reply, htrace]
  · have hfinal : Holds mode.strict final total' := hafter.rep
    have hreply : Holds mode.strict (World.finish (0, call) reply final) total' :=
      hfinal.finish_same (hsame _).1 (hsame _).2 (by
        rintro rfl
        cases hcall)
    refine ⟨_, pool', total', ?_, hafter.restate hreply⟩
    rw [completed_append, completed_reply, htrace]

theorem Settled.call {history : List (Call × Reply)} {files : Files}
    (hsettled : Settled mode history files) (hknown : ∀ lock part, mode.known lock part)
    {call : Call} {key : CString} (hcall : call.key? = some key)
    (hnoSep : mode.plain → sep ∉ key.bytes)
    (hallows : mode.Allows (keyMap.after history key.bytes) call) {db : DB}
    (hreads : call.Reads db) :
    ∃ outcome final, Runs os (call.prog db) files outcome final ∧
      ∀ reply db', outcome = .ok (reply, db') →
        Settled mode (history ++ [(call, reply)]) final := by
  obtain ⟨trace, pool, total, rfl, htogether⟩ := hsettled
  obtain ⟨outcome, final, hruns, hnext⟩ :=
    together_call htogether hknown hcall hnoSep hallows hreads
  exact ⟨outcome, final, hruns, hnext⟩

theorem Settled.stops {history : List (Call × Reply)} {files : Files}
    (hsettled : Settled mode history files) (hknown : ∀ lock part, mode.known lock part)
    {α : Type} {program : DbProg α} {key : CString}
    (hwp : Wp (mode.theory (0, .fetch key)) (fun _ => True)
      (fun _ _ => True) program (idle Heap.empty)) :
    ∃ outcome final, Runs os program files outcome final := by
  obtain ⟨trace, pool, total, _, htogether⟩ := hsettled
  obtain ⟨outcome, final, hruns, _⟩ := Protocol.runs_alone hwp rfl htogether
    (fresh_idle htogether (fun lock => hknown lock _) fun _ _ => ⟨trivial, fun _ => trivial⟩)
  exact ⟨outcome, final.files, runs_files hruns⟩

section

variable (hsettled : Settled mode history files) (hknown : ∀ lock part, mode.known lock part)
  (db : DB)
include hsettled hknown

theorem Settled.find_stops (key : CString) (writelock : Bool) :
    ∃ outcome final, Runs os (dbFindAndLock db key writelock) files outcome final := by
  refine @Settled.stops _ _ _ hsettled hknown _ _ key ?_
  unfold dbFindAndLock
  simp only [Prog.bind_eq]
  cases writelock with
  | true =>
    refine wp_writewLock (lockName_chain key.bytes) rfl rfl List.not_mem_nil ?_
    rintro part hdisj ⟨entries, hchain, rfl⟩ _
    have hview : Heap.Sub (listHeap (chainOff (dbHash key.bytes)) 0 entries)
        ((idle Heap.empty).take (.chain (chainOf key.bytes))
          (chainHeap (dbHash key.bytes) 0 (tableOf entries) entries)).view :=
      ((list_sub_chainHeap _ _ _ _).trans (Heap.sub_union_right hdisj)).trans
        (Heap.sub_union_left _ _)
    refine wp_findChain rfl hchain hview db ?_ ?_ ?_ <;> intros <;> trivial
  | false =>
    refine wp_readwLock (lockName_chain key.bytes) rfl rfl List.not_mem_nil ?_
    rintro part hdisj ⟨entries, hchain, rfl⟩ _
    have hview : Heap.Sub (listHeap (chainOff (dbHash key.bytes)) 0 entries)
        ((idle Heap.empty).look (.chain (chainOf key.bytes))
          (chainHeap (dbHash key.bytes) 0 (tableOf entries) entries)).view :=
      (list_sub_chainHeap _ _ _ _).trans (Heap.sub_union_right hdisj)
    refine wp_findChain rfl hchain hview db ?_ ?_ ?_ <;> intros <;> trivial

theorem Settled.findFree_stops (keylen datlen : Int) :
    ∃ outcome final, Runs os (dbFindFree db keylen datlen) files outcome final := by
  refine @Settled.stops _ _ _ hsettled hknown _ _ ⟨[], by decide⟩
    (wp_dbFindFree rfl rfl List.not_mem_nil db ?_ ?_) <;> intros <;> trivial

end

/-- Calls on one handle, one after the other, on a new database.  Each call may
depend on what the map and the data buffer have become. -/
inductive Session (allowed : KeyMap → Call → Prop) : List (Call × Reply) → DB → Files → Prop where
  | create {files files' : Files} {db : DB}
      (hruns : Runs os (dbOpen .rdwrCreatTrunc) files (.ok db) files') :
      Session allowed [] db files'
  | call {history : List (Call × Reply)} {db db' : DB} {files files' : Files}
      {call : Call} {reply : Reply} (hsession : Session allowed history db files)
      (hallowed : allowed (keyMap.after history) call) (hreads : call.Reads db)
      (hruns : Runs os (call.prog db) files (.ok (reply, db')) files') :
      Session allowed (history ++ [(call, reply)]) db' files'

/-- The calls of a session are calls on keys that the mode allows. -/
structure Mode.Admits (mode : Mode) (map : KeyMap) (call : Call) (key : CString) : Prop where
  onKey : call.key? = some key
  noSep : mode.plain → sep ∉ key.bytes
  allows : mode.Allows (map key.bytes) call

theorem Session.settled {allowed : KeyMap → Call → Prop} {history : List (Call × Reply)} {db : DB}
    {files : Files} (hsession : Session allowed history db files)
    (hknown : ∀ lock part, mode.known lock part)
    (hadmits : ∀ map call, allowed map call → ∃ key, mode.Admits map call key) :
    Settled mode history files := by
  induction hsession with
  | create hruns =>
    obtain ⟨_, rfl⟩ := hruns.unique (runs_dbOpen _)
    exact settled_empty mode
  | @call history db db' files files' call reply _ hallowed hreads hruns ih =>
    obtain ⟨key, hadmits⟩ := hadmits _ _ hallowed
    obtain ⟨outcome, final, hruns', hnext⟩ := ih.call hknown hadmits.onKey hadmits.noSep
      hadmits.allows hreads
    obtain ⟨rfl, rfl⟩ := hruns.unique hruns'
    exact hnext reply db' rfl

theorem Session.mono {allowed allowed' : KeyMap → Call → Prop}
    (hsub : ∀ map call, allowed map call → allowed' map call)
    (hsession : Session allowed history db files) : Session allowed' history db files := by
  induction hsession with
  | create hruns => exact .create hruns
  | call _ hallowed hreads hruns ih => exact ih.call (hsub _ _ hallowed) hreads hruns

theorem Session.start (allowed : KeyMap → Call → Prop) :
    Session allowed [] (dbRewind dbAlloc) emptyFiles :=
  .create (runs_dbOpen ⟨[], []⟩)

/-- Evaluate calls one after the other; none of them may end in a fault, and their
strings must be those of the handle. -/
def runCalls (fuel : Nat) : List Call → DB → Files → Option (List (Call × Reply) × DB × Files)
  | [], db, files => some ([], db, files)
  | call :: rest, db, files =>
    match decide (call.Reads db), run os fuel (call.prog db) files with
    | true, some (.ok (reply, db'), files') =>
      (runCalls fuel rest db' files').map fun result =>
        ((call, reply) :: result.1, result.2)
    | _, _ => none

theorem Session.runCalls {allowed : KeyMap → Call → Prop} {fuel : Nat} {calls : List Call}
    {more : List (Call × Reply)} {db' : DB} {files' : Files}
    (hsession : Session allowed history db files)
    (hallowed : ∀ call ∈ calls, ∀ map, allowed map call)
    (hrun : Database.runCalls fuel calls db files = some (more, db', files')) :
    Session allowed (history ++ more) db' files' := by
  induction calls generalizing history db files more with
  | nil =>
    cases hrun
    rw [List.append_nil]
    exact hsession
  | cons call rest ih =>
    rw [Database.runCalls] at hrun
    split at hrun
    next reply db₁ files₁ hreads hcall =>
      obtain ⟨⟨more', _⟩, hrest, heq⟩ := Option.map_eq_some_iff.mp hrun
      cases heq
      have hnext := ih (hsession.call (hallowed call List.mem_cons_self _)
        (of_decide_eq_true hreads) ⟨fuel, hcall⟩)
        (fun other hother => hallowed other (List.mem_cons_of_mem _ hother)) hrest
      rw [List.append_assoc] at hnext
      exact hnext
    next => cases hrun

theorem exists_session {allowed : KeyMap → Call → Prop} (fuel : Nat) (calls : List Call)
    (check : List (Call × Reply) → DB → Files → Bool)
    (hallowed : ∀ call ∈ calls, ∀ map, allowed map call)
    (hcheck : (runCalls fuel calls (dbRewind dbAlloc) emptyFiles).any
      (fun result => check result.1 result.2.1 result.2.2) = true) :
    ∃ history db files, Session allowed history db files ∧ check history db files := by
  obtain ⟨⟨history, db, files⟩, hrun, hresult⟩ := (Option.any_eq_true _ _).mp hcheck
  exact ⟨history, db, files, (Session.start allowed).runCalls hallowed hrun, hresult⟩

/-- Evaluate a program and look at its outcome and at the files. -/
def endsWith {α : Type} (fuel : Nat) (program : DbProg α) (files : Files)
    (check : Except Fault α → Files → Bool) : Bool :=
  (run os fuel program files).any fun result => check result.1 result.2

section Evaluation

variable {fuel : Nat} {program : DbProg α} {call : DbProg (Reply × DB)}

theorem runs_of_endsWith {check : Except Fault α → Files → Bool}
    (hends : endsWith fuel program files check) :
    ∃ outcome final, Runs os program files outcome final ∧ check outcome final := by
  obtain ⟨⟨outcome, final⟩, hrun, hcheck⟩ := (Option.any_eq_true _ _).mp hends
  exact ⟨outcome, final, ⟨fuel, hrun⟩, hcheck⟩

/-- The outcome is a fault that passes a check, together with the files. -/
def isFault {α : Type} (check : Fault → Files → Bool) : Except Fault α → Files → Bool
  | .error fault, files => check fault files
  | .ok _, _ => false

theorem runs_fault {check : Fault → Files → Bool}
    (hends : endsWith fuel program files (isFault check)) :
    ∃ fault final, Runs os program files (.error fault) final ∧ check fault final := by
  obtain ⟨outcome, final, hruns, hfault⟩ := runs_of_endsWith hends
  cases outcome with
  | error fault => exact ⟨fault, final, hruns, hfault⟩
  | ok value => cases hfault

def isOk {α : Type} (check : α → Files → Bool) : Except Fault α → Files → Bool
  | .ok value, files => check value files
  | .error _, _ => false

theorem runs_ok {check : α → Files → Bool} (hends : endsWith fuel program files (isOk check)) :
    ∃ value final, Runs os program files (.ok value) final ∧ check value final := by
  obtain ⟨outcome, final, hruns, hok⟩ := runs_of_endsWith hends
  cases outcome with
  | error fault => cases hok
  | ok value => exact ⟨value, final, hruns, hok⟩

def isCode (rc : Int) (check : DB → Files → Bool) : Except Fault (Reply × DB) → Files → Bool
  | .ok (.code rc', db), files => rc' == rc && check db files
  | _, _ => false

theorem runs_code {rc : Int} {check : DB → Files → Bool}
    (hends : endsWith fuel call files (isCode rc check)) :
    ∃ db final, Runs os call files (.ok (.code rc, db)) final ∧ check db final := by
  obtain ⟨outcome, final, hruns, hcode⟩ := runs_of_endsWith hends
  unfold isCode at hcode
  split at hcode
  next _ rc' db =>
    obtain ⟨hrc, hcheck⟩ := Bool.and_eq_true_iff.mp hcode
    exact ⟨db, final, eq_of_beq hrc ▸ hruns, hcheck⟩
  next => cases hcode

def isData (check : Option Bytes → Bool) : Except Fault (Reply × DB) → Files → Bool
  | .ok (.data found, _), _ => check found
  | _, _ => false

theorem runs_data {check : Option Bytes → Bool}
    (hends : endsWith fuel call files (isData check)) :
    ∃ found db final, Runs os call files (.ok (.data found, db)) final ∧ check found := by
  obtain ⟨outcome, final, hruns, hdata⟩ := runs_of_endsWith hends
  unfold isData at hdata
  split at hdata
  next found db => exact ⟨found, db, final, hruns, hdata⟩
  next => cases hdata

end Evaluation

theorem steady_own (found : Option Bytes) (key data : CString) (flag : Int) :
    Steady found (.store key data flag) :=
  fun _ _ _ => ⟨nofun, nofun⟩

theorem reads_own (key data : CString) (flag : Int) (db : DB) :
    (Call.store key data flag).Reads db :=
  ⟨nofun, nofun⟩

/-- Calls on keys without separators. -/
def Call.OnPlainKey (call : Call) : Prop := ∃ key, call.key? = some key ∧ sep ∉ key.bytes

/-- Calls on keys without separators, none of which moves a record with strings that
are overwritten. -/
def PlainKeys (map : KeyMap) (call : Call) : Prop :=
  ∃ key, call.key? = some key ∧ sep ∉ key.bytes ∧ Steady (map key.bytes) call

/-- Calls on keys without separators, none of which deletes or moves a record
with a nonempty key. -/
def Gentle (map : KeyMap) (call : Call) : Prop :=
  PlainKeys map call ∧ ∀ key, call.key? = some key → Calm (map key.bytes) call

def plainCalls : Mode where
  plain := True
  strict := False
  plain_of_strict := False.elim
  known _ _ := True

def gentleCalls : Mode where
  plain := True
  strict := True
  plain_of_strict := id
  known _ _ := True

theorem Session.settled_plain (hsession : Session PlainKeys history db files) :
    Settled plainCalls history files := by
  refine hsession.settled (fun _ _ => trivial) ?_
  rintro map call ⟨key, honKey, hnoSep, hsteady⟩
  exact ⟨key, honKey, fun _ => hnoSep, hsteady, False.elim⟩

theorem Session.settled_gentle (hsession : Session Gentle history db files) :
    Settled gentleCalls history files := by
  refine hsession.settled (fun _ _ => trivial) ?_
  rintro map call ⟨⟨key, honKey, hnoSep, hsteady⟩, hcalm⟩
  exact ⟨key, honKey, fun _ => hnoSep, hsteady, fun _ => hcalm key honKey⟩

def anyCalls : Mode where
  plain := False
  strict := False
  plain_of_strict := id
  known _ _ := True

/-- Calls on keys, none of which moves a record with strings that are overwritten. -/
def SteadyKeys (map : KeyMap) (call : Call) : Prop :=
  ∃ key, call.key? = some key ∧ Steady (map key.bytes) call

theorem admits_steadyKeys {map : KeyMap} {call : Call} (hcall : SteadyKeys map call) :
    ∃ key, anyCalls.Admits map call key := by
  obtain ⟨key, hkey, hsteady⟩ := hcall
  exact ⟨key, hkey, False.elim, hsteady, False.elim⟩

/-- Every call of a session returns what the map returns, and every further call
stops. -/
theorem session_refines_map {history : List (Call × Reply)} {db : DB} {files : Files}
    (hsession : Session SteadyKeys history db files) :
    keyMap.Legal history ∧ ∀ call, SteadyKeys (keyMap.after history) call → call.Reads db →
      ∃ outcome final, Runs os (call.prog db) files outcome final ∧ ∀ reply db',
        outcome = .ok (reply, db') → keyMap.Legal (history ++ [(call, reply)]) := by
  have hsettled := @Session.settled anyCalls _ _ _ _ hsession (fun _ _ => trivial)
    fun _ _ => admits_steadyKeys
  refine ⟨hsettled.legal, ?_⟩
  intro call hcall hreads
  obtain ⟨key, hadmits⟩ := admits_steadyKeys hcall
  obtain ⟨outcome, final, hruns, hnext⟩ := hsettled.call (fun _ _ => trivial) hadmits.onKey
    hadmits.noSep hadmits.allows hreads
  exact ⟨outcome, final, hruns, fun reply db' heq => (hnext reply db' heq).legal⟩

def sampleKey : CString := ⟨[97], by decide⟩

def sampleData : CString := ⟨List.replicate 9 120, by decide⟩

theorem session_refines_map_store_fetch_delete : ∃ history db files,
    Session SteadyKeys history db files ∧ history.length = 3 ∧ keyMap.Legal history := by
  obtain ⟨history, db, files, hsession, hlength⟩ := @exists_session SteadyKeys 100
    [.store sampleKey sampleData dbStoreFlag, .fetch sampleKey, .delete sampleKey]
    (fun history _ _ => history.length == 3)
    (by
      intro call hcall map
      simp only [List.mem_cons, List.not_mem_nil, or_false] at hcall
      rcases hcall with rfl | rfl | rfl
      · exact ⟨sampleKey, rfl, steady_own _ _ _ _⟩
      · exact ⟨sampleKey, rfl, trivial⟩
      · exact ⟨sampleKey, rfl, trivial⟩)
    (by decide +kernel)
  exact ⟨history, db, files, hsession, by simpa using hlength,
    (session_refines_map hsession).1⟩

theorem gentle_sample {map : KeyMap} {call : Call}
    (hsteady : Steady (map sampleKey.bytes) call) (hcall : call.key? = some sampleKey)
    (hcalm : Calm (map sampleKey.bytes) call) : Gentle map call := by
  refine ⟨⟨sampleKey, hcall, by decide, hsteady⟩, ?_⟩
  intro key hkey
  rw [hcall] at hkey
  cases hkey
  exact hcalm

/-- Calls on keys, with strings anywhere. -/
def OnKey (_ : KeyMap) (call : Call) : Prop := call.key?.isSome

def otherKey : CString := ⟨[98], by decide⟩

def otherData : CString := ⟨List.replicate 12 121, by decide⟩

/-- Two records are stored, and the second one is replaced by what a fetch of the first
one has returned. -/
def copyCalls : List Call :=
  [.store sampleKey sampleData dbInsert, .store otherKey otherData dbInsert, .fetch sampleKey,
    .store otherKey ⟨sampleData, some 0⟩ dbStoreFlag, .fetch otherKey]

theorem exists_copied {allowed : KeyMap → Call → Prop}
    (hallowed : ∀ call ∈ copyCalls, ∀ map, allowed map call) : ∃ history db files,
      Session allowed history db files ∧ history.map Prod.fst = copyCalls ∧
      history.any (isFetched (List.replicate 12 space)) = true ∧
      history.any (isStored (List.replicate 12 space)) = false := by
  obtain ⟨history, db, files, hsession, hcheck⟩ := @exists_session allowed 100 copyCalls
    (fun history _ _ => history.map Prod.fst == copyCalls &&
      history.any (isFetched (List.replicate 12 space)) &&
      !history.any (isStored (List.replicate 12 space))) hallowed (by decide +kernel)
  obtain ⟨hrest, hstored⟩ := Bool.and_eq_true_iff.mp hcheck
  obtain ⟨hcalls, hfetched⟩ := Bool.and_eq_true_iff.mp hrest
  exact ⟨history, db, files, hsession, eq_of_beq hcalls, hfetched, by simpa using hstored⟩

/-- The blanks of the deleted record are stored in place of the fetched data. -/
theorem copied_record_blank : ∃ history db files, Session OnKey history db files ∧
    history.map Prod.fst = copyCalls ∧ ¬ keyMap.Legal history := by
  obtain ⟨history, db, files, hsession, hcalls, hfetched, hstored⟩ :=
    @exists_copied OnKey fun call hcall map => by
      simp only [copyCalls, List.mem_cons, List.not_mem_nil, or_false] at hcall
      rcases hcall with rfl | rfl | rfl | rfl | rfl <;> rfl
  exact ⟨history, db, files, hsession, hcalls, not_legal_of_unstored hfetched hstored⟩

end ApueFormal.Database
