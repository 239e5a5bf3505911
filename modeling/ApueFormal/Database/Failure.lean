import ApueFormal.Database.Complete

/-!
# Stores that stop in a size check

When a process stops, the kernel releases its locks.  To the other processes it
is then as if it had finished some call on its key: a fetch when the record was
left alone, a deletion when the old record was already gone.
-/

namespace ApueFormal.Database

open Libc Program

/-- The faults that come from a size check of `db_store`. -/
def Fault.ofSize (fault : Fault) : Prop :=
  fault = .storeLength ∨ fault = .writeIdxLength ∨ fault = .writeIdxPtr ∨ fault = .writePtrPtr

/-- The call does not have to move a record. -/
def Still (found : Option Bytes) (data : Bytes) (flag : Int) : Prop :=
  ∀ old, found = some old → ¬ Moves old data flag

def releaseLocks : List Nat → DbProg Unit
  | [] => .ret ()
  | off :: rest => (unLock .idx off 1).bind fun _ => releaseLocks rest

theorem runs_releaseLocks (actor : Actor) (offs : List Nat) (world : World) :
    Runs (World.exec actor) (releaseLocks offs) world (.ok ()) world := by
  induction offs with
  | nil => exact .ret () world
  | cons off rest ih => exact .call ih

/-- The stopped process can be taken for one that has finished a call and keeps
some cells. -/
def Recovers (mode : Mode) (call : Call) (extra : DbHeap) (after : DbLocal) : Prop :=
  ∃ offs reply taken, Wp (mode.theory (0, call)) (fun _ => False)
    (fun _ final => final = finished extra taken reply) (releaseLocks offs) after

variable {extra : DbHeap}

section Recover

variable {mode : Mode} {key : CString} {call : Call}

theorem recovers_stopped {kept : DbHeap} {table : List (Bytes × Bytes)} {entries : List Entry}
    (hcall : call.key? = some key)
    (hkept : Heap.Disjoint kept (chainHeap (dbHash key.bytes) 0 table entries))
    (hchain : IsChain mode.plain (dbHash key.bytes) entries)
    (hothers : ∀ other, other ≠ key.bytes → (tableOf entries).lookup other = table.lookup other)
    {reply : Reply}
    (hmap : ∀ map : KeyMap, map key.bytes = table.lookup key.bytes →
      map.accepts call reply ∧
        map.next call key.bytes = (tableOf entries).lookup key.bytes) (taken : List Lock) :
    Recovers mode call kept (stopped (kept ∪ chainHeap (dbHash key.bytes) 0 table entries)
      key.bytes taken) := by
  refine ⟨[chainOff (dbHash key.bytes)], reply, taken, ?_⟩
  exact @wp_finish mode (0, call) _ _ Unit _ rfl rfl key [] rfl kept table entries rfl hkept
    hchain hcall hothers reply hmap { dbAlloc with chainoff := chainOff (dbHash key.bytes) }
    rfl () rfl

theorem recovers_blocked {own free : DbHeap} (hdisj : Heap.Disjoint own free)
    (hfree : lockInv mode .free free) (hrecovers : Recovers mode call extra
      (stopped own key.bytes [.free, .chain (chainOf key.bytes)])) :
    Recovers mode call extra (blocked (own ∪ free) key.bytes) := by
  obtain ⟨offs, reply, taken, hwp⟩ := hrecovers
  exact ⟨freeOff :: offs, reply, taken,
    wp_unLock lockName_free rfl rfl rfl own free rfl hdisj hfree hwp⟩

theorem fresh_of_held {after : DbLocal} (hcall : call.key? = some key)
    (hknown : ∀ lock part, mode.known lock part) (hreading : after.reading = none)
    (hheld : after.held = after.taken) (hchain : .chain (chainOf key.bytes) ∈ after.held)
    (pool : Lock → DbHeap) : (protocol mode).Fresh (0, call) after pool where
  assume lock htaken := by
    refine ⟨hknown _ _, ?_⟩
    rintro key' table hkey' rfl _
    rw [hcall] at hkey'
    cases hkey'
    rw [hheld] at hchain
    exact absurd hchain htaken
  held lock hmem := hheld ▸ hmem
  reading lock hread := by
    rw [hreading] at hread
    cases hread

/-- After the locks have been released the database is as after the call that the
stopped process can be taken for. -/
theorem Recovers.together {after : DbLocal} (hrecovers : Recovers mode call extra after)
    (hcall : call.key? = some key) (hknown : ∀ lock part, mode.known lock part)
    (hreply : after.reply = none) (hreading : after.reading = none)
    (hheld : after.held = after.taken) (hchain : .chain (chainOf key.bytes) ∈ after.held)
    {world : World} {pool : Lock → DbHeap} {total : DbHeap}
    (htogether : Protocol.Together (protocol mode) world (fun _ : Unit => after) pool total) :
    ∃ reply pool' total', AtRest mode (World.finish (0, call) reply world) extra pool' total' := by
  obtain ⟨offs, reply, taken, hwp⟩ := hrecovers
  obtain ⟨outcome, final, hruns, hend⟩ := Protocol.runs_alone hwp hreply htogether
    (fresh_of_held hcall hknown hreading hheld hchain pool)
  obtain ⟨_, rfl⟩ := hruns.unique (runs_releaseLocks (0, call) offs world)
  rcases hend with ⟨_, _, impossible⟩ | ⟨_, pool', total', rfl, hafter⟩
  · exact impossible.elim
  exact ⟨reply, pool', total', hafter.relabel (fun _ => rfl) (fun _ => rfl)
    (fun _ => rfl) (fun _ => rfl)⟩

end Recover

/-! ## Where a store can stop -/

/-- What a store leaves behind when it stops with its chain locked. -/
structure Stops (mode : Mode) (key : CString) (still : Prop) (fault : Fault)
    (after : DbLocal) (call : Call) (extra : DbHeap) : Prop where
  recovers : Recovers mode call extra { after with taken := after.held }
  onKey : call.key? = some key
  reply : after.reply = none
  reading : after.reading = none
  chain : .chain (chainOf key.bytes) ∈ after.held
  fetch : still → call = .fetch key
  orphaned : still → fault ≠ .writePtrPtr → Orphaned extra

variable {fault : Fault} {entry : Entry}

section Stops

variable {mode : Mode} {key data : Arg} {flag : Int} {still : Prop}

theorem union_swap {chain : DbHeap} (hdisj : Heap.Disjoint (Heap.empty ∪ chain) extra) :
    Heap.empty ∪ chain ∪ extra = extra ∪ chain ∧ Heap.Disjoint extra chain := by
  rw [Heap.empty_union] at hdisj ⊢
  exact ⟨Heap.union_comm hdisj, hdisj.symm⟩

theorem stops_stranded {entries : List Entry} {taken : List Lock}
    (hchain : IsChain mode.plain (dbHash key.bytes) entries)
    (hdisj : Heap.Disjoint (Heap.empty ∪ chainHeap (dbHash key.bytes) 0 (tableOf entries)
      entries) extra) (hstranded : Stranded fault extra) :
    Stops mode key.toCString still fault (stopped (Heap.empty ∪ chainHeap (dbHash key.bytes) 0
      (tableOf entries) entries ∪ extra) key.bytes taken) (.fetch key.toCString) extra where
  recovers := by
    obtain ⟨hheap, hextra⟩ := union_swap hdisj
    rw [hheap]
    refine @recovers_stopped mode key.toCString _ _ _ _ rfl hextra hchain (fun _ _ => rfl)
      (.data ((tableOf entries).lookup key.bytes)) ?_ [.chain (chainOf key.bytes)]
    intro map hmap
    exact ⟨congrArg Reply.data hmap.symm, hmap⟩
  onKey := rfl
  reply := rfl
  reading := rfl
  chain := List.mem_singleton_self _
  fetch _ := rfl
  orphaned _ hfault off slot hslot := (hstranded off slot hslot).resolve_right hfault

variable {before after : List Entry} (hmoving : Moving mode key data flag before entry after)
  (hmoved : ¬ still)
include hmoving hmoved

theorem stops_moving {taken : List Lock}
    (hdisj : Heap.Disjoint (Heap.empty ∪ chainHeap (dbHash key.bytes) 0
      (tableOf (before ++ entry :: after)) (before ++ after)) extra) :
    Stops mode key.toCString still fault (stopped (Heap.empty ∪ chainHeap (dbHash key.bytes) 0
      (tableOf (before ++ entry :: after)) (before ++ after) ∪ extra) key.bytes taken)
      (.delete key.toCString) extra where
  recovers := by
    have hkey := hmoving.sameKey
    have hlookup : (tableOf (before ++ entry :: after)).lookup key.bytes = some entry.data := by
      rw [← hkey]
      exact lookup_tableOf hmoving.isChain.keys
    obtain ⟨hheap, hextra⟩ := union_swap hdisj
    rw [hheap]
    refine @recovers_stopped mode key.toCString _ _ _ _ rfl hextra hmoving.isChain.remove ?_
      (.code 0) ?_
      [.chain (chainOf key.bytes)]
    · intro other hother
      rw [lookup_tableOf_ne (by rw [hkey]; exact hother)]
    · intro map hmap
      refine ⟨?_, ?_⟩
      · change Reply.code 0 = Reply.code _
        rw [hmap, hlookup]
        rfl
      · change Function.update map key.bytes none key.bytes = _
        rw [Function.update_self, lookup_tableOf_none]
        rw [← hkey]
        exact hmoving.isChain.key_ne
  onKey := rfl
  reply := rfl
  reading := rfl
  chain := List.mem_singleton_self _
  fetch hstill := absurd hstill hmoved
  orphaned hstill := absurd hstill hmoved

theorem stops_blanked {free : List Entry} (hfree : IsFree free)
    (hdisj : Heap.Disjoint (Heap.empty ∪ chainHeap (dbHash key.bytes) 0
      (tableOf (before ++ entry :: after)) (before ++ entry.blanked :: after))
      (freeHeap free)) :
    Stops mode key.toCString still .writeIdxLength (blocked (Heap.empty ∪
      chainHeap (dbHash key.bytes) 0 (tableOf (before ++ entry :: after))
        (before ++ entry.blanked :: after) ∪ freeHeap free) key.bytes)
      (.store key.toCString (⟨entry.blanked.data, by
        simp [Entry.blanked, Entry.filled, space]⟩ : CString) dbStoreFlag) Heap.empty where
  recovers := by
    have hkey := hmoving.sameKey
    have hname : entry.blanked.key = key.bytes := hkey
    have hchain : IsChain mode.plain (dbHash key.bytes) (before ++ entry.blanked :: after) :=
      hmoving.isChain.fill none (List.length_replicate ..) (by simp [space])
    refine recovers_blocked hdisj ⟨free, hfree, rfl⟩ ?_
    refine @recovers_stopped mode key.toCString _ _ _ _ rfl (Heap.disjoint_empty_left _) hchain ?_
      (.code 0) ?_ _
    · intro other hother
      rw [lookup_tableOf_ne (by rw [hname]; exact hother),
        lookup_tableOf_ne (by rw [hkey]; exact hother)]
    · intro map _
      have hcode : storeCode (map key.bytes).isSome dbStoreFlag = 0 := by
        cases (map key.bytes).isSome <;> decide
      refine ⟨congrArg Reply.code hcode.symm, ?_⟩
      rw [KeyMap.next, if_pos hcode, Function.update_self, ← hname]
      exact (lookup_tableOf hchain.keys).symm
  onKey := rfl
  reply := rfl
  reading := rfl
  chain := by simp [blocked]
  fetch hstill := absurd hstill hmoved
  orphaned hstill := absurd hstill hmoved

end Stops

/-! ## The files after a failed store -/

section Failed

variable {mode : Mode} {trace : Trace} {files files' : Files} {pool : Lock → DbHeap}
variable {total : DbHeap} {key data : Arg} {flag : Int}

theorem not_still {before after : List Entry}
    (htogether : AtRest mode ⟨files, trace⟩ Heap.empty pool total)
    (hmoving : Moving (mode.knowing pool) key data flag before entry after) :
    ¬ Still (mapOf trace key.bytes) data.bytes flag := by
  intro hstill
  have hmap := lookup_of_finds htogether hmoving.finds
  rw [← hmoving.sameKey, lookup_tableOf hmoving.isChain.keys, hmoving.sameKey] at hmap
  exact hstill _ hmap.symm hmoving.moves

/-- After a store has stopped in a size check and its locks have been released,
the database is settled again, up to the record of the key. -/
theorem failed_store (hplain : mode.plain) (hknown : ∀ lock part, mode.known lock part)
    (htogether : AtRest mode ⟨files, trace⟩ Heap.empty pool total) (hnoSep : sep ∉ key.bytes)
    (hallows : mode.Allows (mapOf trace key.bytes) (.store key data flag)) {db : DB}
    (hreads : (Call.store key data flag).Reads db) {fault : Fault}
    (hruns : Runs os ((Call.store key data flag).prog db) files (.error fault) files')
    (hsize : fault.ofSize) :
    ∃ trace' extra pool' total', AtRest mode ⟨files', trace'⟩ extra pool' total' ∧
      (∀ other, other ≠ key.bytes → mapOf trace' other = mapOf trace other) ∧
      (Still (mapOf trace key.bytes) data.bytes flag →
        mapOf trace' = mapOf trace ∧ (fault ≠ .writePtrPtr → Orphaned extra)) := by
  have hwp : Wp ((mode.knowing pool).theory (0, .store key data flag))
      (fun fault => fault = .writeDatWritev)
      (fun outcome after => ∀ fault, outcome = .error fault → fault.ofSize →
        after = idle Heap.empty ∨ ∃ call extra, Stops mode key.toCString
          (Still (mapOf trace key.bytes) data.bytes flag) fault after call extra)
      ((Call.store key data flag).prog db) (idle Heap.empty) := by
    refine Wp.seq (wp_dbStore ?_ ?_ ?_ ?_ ?_ ?_ db hreads.1 hreads.2 (fun _ => hnoSep) ?_ ?_ ?_)
    · rfl
    · intro entries db' taken _ _
      exact .ret (by rintro fault ⟨⟩)
    · rintro fault before entry after extra taken hmoving hdisj _ ⟨⟩ _
      have hmoving' : Moving mode key data flag before entry after :=
        { hmoving with finds := hknown _ _ }
      exact .inr ⟨_, _, stops_moving hmoving' (not_still htogether hmoving) hdisj⟩
    · rintro before entry after free hmoving hfree hdisj _ ⟨⟩ _
      have hmoving' : Moving mode key data flag before entry after :=
        { hmoving with finds := hknown _ _ }
      exact .inr ⟨_, _, stops_blanked hmoving' (not_still htogether hmoving) hfree hdisj⟩
    · rintro fault entries extra taken hchain _ hdisj hstranded _ ⟨⟩ _
      exact .inr ⟨_, _, stops_stranded hchain hdisj hstranded⟩
    · rintro fault after hio _ ⟨⟩ hsize
      rcases hio with rfl | rfl <;> simp [Fault.ofSize] at hsize
    · intro _
      exact .ret (by rintro fault ⟨⟩)
    · rintro _ ⟨⟩ _
      exact .inl rfl
    · intro hnot
      exact absurd hplain hnot
  have hstart : AtRest (mode.knowing pool) ⟨files, trace⟩ Heap.empty pool total :=
    htogether.transfer htogether.rep fun _ _ => id
  obtain ⟨outcome, final, hruns', hend⟩ := Protocol.runs_alone hwp rfl hstart
    (fresh_idle hstart (fun _ => rfl) (by
      rintro _ ⟨⟩
      exact ⟨hallows.steady, hallows.calm⟩))
  have htrace : mapOf final.trace = mapOf trace :=
    congrArg keyMap.after (completed_of_runs hruns')
  obtain ⟨rfl, rfl⟩ := hruns.unique (runs_files hruns')
  rcases hend with ⟨_, ⟨⟩, rfl⟩ | ⟨after, pool', total', hpost, hafter⟩
  · simp [Fault.ofSize] at hsize
  rcases hpost fault rfl hsize with rfl | ⟨call, extra, hstops⟩
  · refine ⟨final.trace, Heap.empty, pool', total', hafter.transfer hafter.rep fun _ _ => id,
      ?_, ?_⟩
    · intro other _
      rw [htrace]
    · exact fun _ => ⟨htrace, fun _ => orphaned_empty⟩
  · rw [hstops.reply] at hafter
    have hback : Protocol.Together (protocol mode) final (fun _ : Unit => after) pool'
        total' := hafter.transfer hafter.rep fun _ _ => id
    obtain ⟨reply, pool'', total'', hrecovered⟩ := hstops.recovers.together hstops.onKey
      hknown hstops.reply hstops.reading rfl hstops.chain
      (hback.relabel (fun _ => rfl) (fun _ => rfl) (fun _ => rfl) (fun _ => rfl))
    have hmap : mapOf (final.trace ++ [.reply 0 call reply]) = (mapOf trace).next call := by
      rw [mapOf_reply, htrace]
    refine ⟨_, extra, pool'', total'', hrecovered, ?_, ?_⟩
    · intro other hother
      rw [hmap, KeyMap.next_of_ne _ hstops.onKey hother]
    · intro hstill
      refine ⟨?_, hstops.orphaned hstill⟩
      rw [hmap, hstops.fetch hstill]
      rfl

end Failed

/-- The checks at the start of `db_store` leave the files alone. -/
theorem stops_early {db : DB} {key data : Arg} {flag : Int} (hreads : data.At db)
    (hearly : ¬ (ValidFlag flag ∧ DatLenOk data.bytes.length)) {files files' : Files}
    (hruns : Runs os ((Call.store key data flag).prog db) files (.error fault) files') :
    files' = files := by
  have hprog : (Call.store key data flag).prog db = .fail .storeLength ∨
      (Call.store key data flag).prog db = .ret (.code (-1), db) := by
    simp only [Call.prog, dbStore, Prog.bind_eq]
    rw [hreads.now_eq]
    by_cases hvalid : ValidFlag flag
    · left
      have hlength : toInt (data.strlen + 1) < datLenMin ∨
          (datLenMax : Int) < toInt (data.strlen + 1) :=
        not_not.mp fun hlength => hearly ⟨hvalid, hlength⟩
      rw [if_neg (by unfold ValidFlag at hvalid; omega), if_pos hlength]
      rfl
    · right
      rw [if_pos (by unfold ValidFlag at hvalid; omega)]
      rfl
  rcases hprog with hprog | hprog
  · rw [hprog] at hruns
    exact (hruns.unique (.fail Fault.storeLength files)).2
  · rw [hprog] at hruns
    cases (hruns.unique (.ret _ files)).1

/-- A store that stops in a size check leaves the other keys alone, and its own
key as well unless it had to move a record. -/
theorem failed_store_keeps_records {history : List (Call × Reply)} {db : DB}
    {files files' : Files} {key data : Arg} {flag : Int} {fault : Fault}
    (hsession : Session PlainKeys history db files) (hnoSep : sep ∉ key.bytes)
    (hsteady : Steady (keyMap.after history key.bytes) (.store key data flag))
    (hreads : (Call.store key data flag).Reads db)
    (hruns : Runs os ((Call.store key data flag).prog db) files (.error fault) files')
    (hsize : fault.ofSize) :
    (∀ other : CString, other.bytes ≠ key.bytes → ∃ found,
      Fetches files other found ∧ Fetches files' other found) ∧
    (Still (keyMap.after history key.bytes) data.bytes flag →
      (∃ found, Fetches files key.toCString found ∧ Fetches files' key.toCString found) ∧
      (Session Gentle history db files → fault ≠ .writePtrPtr →
        ∀ handle handle', ∃ pairs pairs', Scan files (dbRewind handle) pairs ∧
          Scan files' (dbRewind handle') pairs' ∧
          ∀ pair, pair ∈ pairs' ↔ pair ∈ pairs)) := by
  have hbefore := fun key => hsession.settled_plain.fetches (fun _ _ => trivial) trivial key
  obtain ⟨trace, pool, total, rfl, htogether⟩ := hsession.settled_plain
  obtain ⟨trace', extra, pool', total', hafter, hothers, hsame⟩ :=
    @failed_store plainCalls _ _ _ _ _ _ _ _ trivial (fun _ _ => trivial) htogether hnoSep
      ⟨hsteady, False.elim⟩ _ hreads _ hruns hsize
  have hfetches : ∀ key, Fetches files' key (mapOf trace' key.bytes) := fun key =>
    fetch_map hafter trivial (fun _ => trivial) key
  refine ⟨?_, ?_⟩
  · intro other hother
    refine ⟨_, hbefore other, ?_⟩
    have hmap : keyMap.after (completed trace) other.bytes = mapOf trace' other.bytes :=
      (hothers _ hother).symm
    rw [hmap]
    exact hfetches other
  intro hstill
  refine ⟨⟨_, hbefore key.toCString, ?_⟩, ?_⟩
  · have hmap : keyMap.after (completed trace) = mapOf trace' := (hsame hstill).1.symm
    rw [hmap]
    exact hfetches key.toCString
  · intro hgentle hfault handle handle'
    obtain ⟨trace₁, pool₁, total₁, htrace, htogether₁⟩ := hgentle.settled_gentle
    obtain ⟨records, _, hscan, _, hmem⟩ := scan_map htogether₁ orphaned_empty trivial handle
    by_cases hearly : ¬ (ValidFlag flag ∧ DatLenOk data.bytes.length)
    · obtain ⟨records', _, hscan', _, hmem'⟩ :=
        scan_map htogether₁ orphaned_empty trivial handle'
      cases stops_early hreads.2 hearly hruns
      refine ⟨_, _, hscan, hscan', ?_⟩
      rintro ⟨key', data'⟩
      rw [hmem, hmem']
    obtain ⟨hvalid, hlength⟩ := not_not.mp hearly
    have hmap₁ : mapOf trace₁ = mapOf trace := congrArg keyMap.after htrace
    have hstill₁ : Still (mapOf trace₁ key.bytes) data.bytes flag := by
      rw [hmap₁]
      exact hstill
    have hcalm : Calm (mapOf trace₁ key.bytes) (.store key data flag) := by
      intro _ hinsert old hold
      by_contra hne
      exact hstill₁ old hold ⟨hvalid.resolve_left hinsert, hlength, hne⟩
    obtain ⟨trace₂, extra₂, pool₂, total₂, hafter₂, _, hsame₂⟩ :=
      @failed_store gentleCalls _ _ _ _ _ _ _ _ trivial (fun _ _ => trivial) htogether₁
        hnoSep ⟨by rw [hmap₁]; exact hsteady, fun _ => hcalm⟩ _ hreads _ hruns hsize
    obtain ⟨hmap₂, horphaned⟩ := hsame₂ hstill₁
    obtain ⟨records', _, hscan', _, hmem'⟩ :=
      scan_map hafter₂ (horphaned hfault) trivial handle'
    refine ⟨_, _, hscan, hscan', ?_⟩
    rintro ⟨key', data'⟩
    rw [hmem, hmem']
    change mapOf trace₂ key' = _ ∧ _ ↔ _
    rw [hmap₂]

def longKey (size : Nat) : CString := ⟨List.replicate size 97, by simp⟩

theorem sep_longKey (size : Nat) : sep ∉ (longKey size).bytes := by
  simp [longKey, sep]

theorem failed_store_keeps_records_long : ∃ (fault : Fault) (files : Files),
    Runs os ((Call.store (longKey 1019) sampleData dbInsert).prog (dbRewind dbAlloc))
      emptyFiles (.error fault) files ∧ ∃ pairs pairs', Scan emptyFiles (dbRewind dbAlloc) pairs ∧
      Scan files (dbRewind dbAlloc) pairs' ∧ ∀ pair, pair ∈ pairs' ↔ pair ∈ pairs := by
  have heval : endsWith 100 ((Call.store (longKey 1019) sampleData dbInsert).prog
      (dbRewind dbAlloc)) emptyFiles (isFault fun fault _ => fault == .writeIdxLength) := by
    decide +kernel
  obtain ⟨fault, files, hruns, hlength⟩ := runs_fault heval
  cases eq_of_beq hlength
  obtain ⟨_, hstill⟩ := failed_store_keeps_records (Session.start PlainKeys)
    (sep_longKey 1019) (steady_own _ _ _ _) (reads_own ..) hruns (.inr (.inl rfl))
  obtain ⟨_, hscan⟩ := hstill fun _ hold => by cases hold
  exact ⟨_, files, hruns, hscan (Session.start Gentle) (by simp) _ _⟩

/-- A record that has to move is deleted first, and it is lost when there is then
no room for the longer offset in the new index record. -/
theorem failed_store_loses_record : ∃ history db files,
    Session PlainKeys history db files ∧ ∃ (data : CString) (fault : Fault) (files' : Files),
      Runs os ((Call.store (longKey 1018) data dbStoreFlag).prog db) files (.error fault) files' ∧
      fault.ofSize ∧
      (∃ old db' final, Runs os ((Call.fetch (longKey 1018)).prog db) files
        (.ok (.data (some old), db')) final) ∧
      ∃ db' final, Runs os ((Call.fetch (longKey 1018)).prog db) files'
        (.ok (.data none, db')) final := by
  obtain ⟨history, db, files, hsession, hcheck⟩ := @exists_session PlainKeys 100
    [.store (longKey 1018) sampleData dbInsert]
    (fun _ db files =>
      endsWith 100 ((Call.fetch (longKey 1018)).prog db) files (isData Option.isSome) &&
      endsWith 100 ((Call.store (longKey 1018) (⟨List.replicate 10 120, by decide⟩ : CString)
        dbStoreFlag).prog db) files (isFault fun fault files' =>
          fault == .writeIdxLength &&
          endsWith 100 ((Call.fetch (longKey 1018)).prog db) files' (isData Option.isNone)))
    (by
      intro call hcall map
      rw [List.mem_singleton.mp hcall]
      exact ⟨longKey 1018, rfl, sep_longKey 1018, steady_own _ _ _ _⟩)
    (by decide +kernel)
  obtain ⟨hold, hstore⟩ := Bool.and_eq_true_iff.mp hcheck
  obtain ⟨found, db', final, hruns, hsome⟩ := runs_data hold
  obtain ⟨old, rfl⟩ := Option.isSome_iff_exists.mp hsome
  obtain ⟨fault, files', hruns', hafter⟩ := runs_fault hstore
  obtain ⟨hlength, hgone⟩ := Bool.and_eq_true_iff.mp hafter
  cases eq_of_beq hlength
  obtain ⟨found'', db'', final'', hruns'', hnone⟩ := runs_data hgone
  cases Option.isNone_iff_eq_none.mp hnone
  exact ⟨history, db, files, hsession, _, _, files', hruns', .inr (.inl rfl),
    ⟨old, db', final, hruns⟩, db'', final'', hruns''⟩

end ApueFormal.Database
