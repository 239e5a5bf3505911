import ApueFormal.Database.Contents
import ApueFormal.Database.Scan

/-!
# Scans and fetches of a database between two calls

A scan returns what the map holds under keys that are not blank, every pair
once, and a fetch returns what the map holds under its key.
-/

namespace ApueFormal.Database

open Libc Program

/-- Index records outside the lists have an empty key. -/
def Orphaned (own : DbHeap) : Prop :=
  ∀ off slot, own (.slot off) = some (.slot slot) → slot.key = []

theorem mem_of_lookup_tableOf {entries : List Entry} {key data : Bytes}
    (hlookup : (tableOf entries).lookup key = some data) :
    ∃ entry ∈ entries, entry.key = key ∧ entry.data = data := by
  induction entries with
  | nil => cases hlookup
  | cons first rest ih =>
    rw [tableOf, List.map_cons, lookup_pair] at hlookup
    split at hlookup
    next hkey =>
      exact ⟨first, List.mem_cons_self, hkey.symm, Option.some.inj hlookup⟩
    next =>
      obtain ⟨entry, hmem, hentry⟩ := ih hlookup
      exact ⟨entry, List.mem_cons_of_mem _ hmem, hentry⟩

theorem ne_nil_of_not_blank {key : Bytes} (hlive : blank key = false) : key ≠ [] := by
  rintro rfl
  cases hlive

section Idle

variable {mode : Mode} {own : DbHeap} {world : World} {pool : Lock → DbHeap} {total : DbHeap}
variable (htogether : AtRest mode world own pool total)
variable (horphaned : Orphaned own) (stock : Stock mode.plain pool)
include htogether horphaned

theorem entry_of_slot {off : Nat} {slot : Slot}
    (hslot : total (.slot off) = some (.slot slot)) (hkey : slot.key ≠ []) :
    ∃ entry ∈ stock.chain (chainOf slot.key), entry.off = off ∧ entry.key = slot.key ∧
      dataOf world.files slot = entry.data ∧ mapOf world.trace slot.key = some entry.data := by
  rcases slot_cases htogether stock hslot with
    hown | ⟨hash, before, entry, after, hsplit, hoff, rfl⟩ |
    ⟨before, entry, after, hsplit, hoff, rfl⟩
  · exact absurd (horphaned off slot hown) hkey
  · have hentry : entry ∈ stock.chain hash := by
      rw [hsplit]
      simp
    have hhash : hash = chainOf entry.key :=
      Fin.ext ((stock.isChain hash).hash entry hentry).symm
    subst hhash
    have hblock := (chain_entry htogether stock hsplit).2
    have hkeys := (stock.isChain (chainOf entry.key)).keys
    have hmap := mapOf_eq_lookup htogether stock entry.key
    rw [hsplit] at hkeys
    rw [hsplit, lookup_tableOf hkeys] at hmap
    refine ⟨entry, hentry, hoff, rfl, ?_, hmap⟩
    rw [dataOf]
    change (readAt world.files.dat entry.datoff (entry.data.length + 1)).dropLast = _
    rw [htogether.rep.rep.read_block hblock, List.dropLast_concat]
  · exact absurd (stock.isFree.key entry (by rw [hsplit]; simp)) hkey

theorem slot_of_map {key data : Bytes} (hmap : mapOf world.trace key = some data) :
    ∃ off slot, total (.slot off) = some (.slot slot) ∧ slot.key = key ∧
      (key ≠ [] → dataOf world.files slot = data) := by
  obtain ⟨stock⟩ := exists_stock htogether
  have hlookup := mapOf_eq_lookup htogether stock key
  rw [hmap] at hlookup
  obtain ⟨entry, hentry, rfl, rfl⟩ := mem_of_lookup_tableOf hlookup.symm
  obtain ⟨before, after, hsplit⟩ := List.append_of_mem hentry
  have hslot := (chain_entry htogether stock hsplit).1
  refine ⟨_, _, hslot, rfl, ?_⟩
  intro hkey
  obtain ⟨entry', _, _, _, hdata, hmap'⟩ :=
    entry_of_slot htogether horphaned stock hslot hkey
  rw [hdata]
  exact Option.some.inj (hmap'.symm.trans hmap)

theorem slot_unique {off off' : Nat} {slot slot' : Slot}
    (hslot : total (.slot off) = some (.slot slot))
    (hslot' : total (.slot off') = some (.slot slot')) (hkey : slot.key ≠ [])
    (hsame : slot'.key = slot.key) : off = off' := by
  obtain ⟨stock⟩ := exists_stock htogether
  obtain ⟨entry, hentry, rfl, hentryKey, _⟩ :=
    entry_of_slot htogether horphaned stock hslot hkey
  obtain ⟨entry', hentry', rfl, hentryKey', _⟩ :=
    entry_of_slot htogether horphaned stock hslot' (hsame ▸ hkey)
  rw [hsame] at hentry' hentryKey'
  rw [List.inj_on_of_nodup_map (stock.isChain _).keys hentry hentry'
    (hentryKey.trans hentryKey'.symm)]

variable {records : List (Nat × Slot)}

omit horphaned in
theorem records_readable (hstrict : mode.strict)
    (hmem : ∀ off slot, (off, slot) ∈ records ↔ total (.slot off) = some (.slot slot)) :
    (∀ record ∈ records, sep ∉ record.2.key) ∧
      ∀ record ∈ records, HoldsData world.files record.2 := by
  have hgood : Good world.trace total := htogether.rep.good hstrict
  refine ⟨?_, ?_⟩
  · intro record hrecord
    exact hgood.plain record.1 record.2 ((hmem _ _).mp hrecord)
  · intro record hrecord
    obtain ⟨data, tag, hblock, _, hlen, _⟩ :=
      hgood.block record.1 record.2 ((hmem _ _).mp hrecord)
    obtain ⟨hnul, hread, _⟩ := htogether.rep.rep.agree _ _ hblock
    exact ⟨data, hnul, hlen, by rw [hlen]; exact hread⟩

theorem liveRecords_map (hlaid : Laid world.files.idx firstRec records)
    (hmem : ∀ off slot, (off, slot) ∈ records ↔ total (.slot off) = some (.slot slot)) :
    ((liveRecords world.files records).map Prod.fst).Nodup ∧
      ∀ key data, (key, data) ∈ liveRecords world.files records ↔
        mapOf world.trace key = some data ∧ blank key = false := by
  obtain ⟨stock⟩ := exists_stock htogether
  refine ⟨?_, ?_⟩
  · rw [liveRecords, List.map_map]
    refine List.Nodup.map_on ?_ ?_
    · rintro ⟨off, slot⟩ hrecord ⟨off', slot'⟩ hrecord' hkey
      obtain ⟨hrecord, hlive⟩ := List.mem_filter.mp hrecord
      obtain ⟨hrecord', _⟩ := List.mem_filter.mp hrecord'
      have hslot := (hmem _ _).mp hrecord
      have hslot' := (hmem _ _).mp hrecord'
      have hoff := slot_unique htogether horphaned hslot hslot'
        (ne_nil_of_not_blank (by simpa using hlive)) hkey.symm
      subst hoff
      rw [hslot] at hslot'
      cases Option.some.inj hslot'
      rfl
    · refine List.Nodup.filter _ ?_
      exact List.Nodup.of_map Prod.fst (hlaid.sorted.2.imp Nat.ne_of_lt)
  · intro key data
    rw [liveRecords, List.mem_map]
    constructor
    · rintro ⟨⟨off, slot⟩, hrecord, heq⟩
      obtain ⟨hrecord, hlive⟩ := List.mem_filter.mp hrecord
      have hlive : blank slot.key = false := by simpa using hlive
      obtain ⟨rfl, rfl⟩ := Prod.mk.inj heq
      obtain ⟨entry, _, _, _, hdata, hmap⟩ := entry_of_slot htogether horphaned stock
        ((hmem _ _).mp hrecord) (ne_nil_of_not_blank hlive)
      exact ⟨by rw [hdata, hmap], hlive⟩
    · rintro ⟨hmap, hlive⟩
      obtain ⟨off, slot, hslot, rfl, hdata⟩ := slot_of_map htogether horphaned hmap
      refine ⟨(off, slot), List.mem_filter.mpr ⟨(hmem _ _).mpr hslot, by simp [hlive]⟩, ?_⟩
      rw [hdata (ne_nil_of_not_blank hlive)]

theorem scan_map (hstrict : mode.strict) (db : DB) :
    ∃ records, Laid world.files.idx firstRec records ∧
      Scan world.files (dbRewind db) (liveRecords world.files records) ∧
      ((liveRecords world.files records).map Prod.fst).Nodup ∧
      ∀ key data, (key, data) ∈ liveRecords world.files records ↔
        mapOf world.trace key = some data ∧ blank key = false := by
  have hgood : Good world.trace total := htogether.rep.good hstrict
  obtain ⟨records, hlaid, hmem⟩ := htogether.rep.rep.laid hgood.room
  obtain ⟨hnoSep, hdata⟩ := records_readable htogether hstrict hmem
  exact ⟨records, hlaid, scan_laid hlaid hnoSep hdata,
    liveRecords_map htogether horphaned hlaid hmem⟩

omit horphaned in
theorem fetch_map (hplain : mode.plain) (hknown : ∀ lock, mode.known lock (pool lock))
    (key : CString) (db : DB) :
    ∃ db' final, Runs os ((Call.fetch key).prog db) world.files
      (.ok (.data (mapOf world.trace key.bytes), db')) final := by
  have hwp : Wp (mode.theory (0, .fetch key)) (fun _ => False)
      (fun outcome after => ∃ found db' taken, outcome = .ok (.data found, db') ∧
        after = finished own taken (.data found))
      ((Call.fetch key).prog db) (idle own) := by
    refine Wp.seq (wp_dbFetch db ?_ ?_ ?_)
    · intro before entry after _ _ _
      exact .ret ⟨_, _, _, rfl, rfl⟩
    · intro entries _ _ _
      exact .ret ⟨_, _, _, rfl, rfl⟩
    · intro hnot
      exact absurd hplain hnot
  obtain ⟨outcome, final, hruns, hend⟩ := Protocol.runs_alone hwp rfl htogether
    (fresh_idle htogether hknown fun _ _ => ⟨trivial, fun _ => trivial⟩)
  rcases hend with ⟨_, _, impossible⟩ | ⟨_, pool', total', ⟨found, db', taken, rfl, rfl⟩, hafter⟩
  · exact impossible.elim
  have hlegal : keyMap.Legal (completed (final.trace ++ [.reply 0 (.fetch key)
      (.data found)])) := hafter.rep.legal
  rw [completed_append, completed_reply, completed_of_runs hruns,
    Object.legal_snoc] at hlegal
  have hfound : Reply.data found = .data (mapOf world.trace key.bytes) := hlegal.2
  refine ⟨db', final.files, ?_⟩
  rw [← hfound]
  exact runs_files hruns

end Idle

/-- Calls on keys that are not taken for deleted records. -/
def PlainLive (map : KeyMap) (call : Call) : Prop :=
  PlainKeys map call ∧ ∀ key, call.key? = some key → blank key.bytes = false

def GentleLive (map : KeyMap) (call : Call) : Prop :=
  Gentle map call ∧ ∀ key, call.key? = some key → blank key.bytes = false

theorem orphaned_empty : Orphaned Heap.empty := by
  rintro off slot ⟨⟩

variable {history : List (Call × Reply)}

theorem GentleLive.live {call : Call} {reply : Reply}
    (hallowed : GentleLive (keyMap.after history) call)
    (hlive : ∀ key data, keyMap.after history key = some data → blank key = false)
    (key data : Bytes) (hmap : keyMap.after (history ++ [(call, reply)]) key = some data) :
    blank key = false := by
  obtain ⟨⟨⟨ckey, hcall, _⟩, _⟩, hkey⟩ := hallowed
  by_cases hsame : key = ckey.bytes
  · rw [hsame]
    exact hkey ckey hcall
  · rw [Object.after_snoc] at hmap
    exact hlive key data ((KeyMap.next_of_ne _ hcall hsame).symm.trans hmap)

variable {files : Files}

theorem Session.live {db : DB} (hsession : Session GentleLive history db files) (key data : Bytes)
    (hmap : keyMap.after history key = some data) : blank key = false := by
  induction hsession generalizing key data with
  | create => cases hmap
  | call _ hallowed _ _ ih => exact hallowed.live ih key data hmap

/-- A scan returns every pair of the map once, in the order of the index file. -/
theorem session_scan_complete {history : List (Call × Reply)} {db : DB} {files : Files}
    (hsession : Session GentleLive history db files) :
    ∃ records, Laid files.idx firstRec records ∧
      Scan files (dbRewind db) (liveRecords files records) ∧
      ((liveRecords files records).map Prod.fst).Nodup ∧
      ∀ key data, (key, data) ∈ liveRecords files records ↔
        keyMap.after history key = some data := by
  have hgentle : Session Gentle history db files := hsession.mono fun _ _ hcall => hcall.1
  obtain ⟨trace, pool, total, rfl, htogether⟩ := hgentle.settled_gentle
  obtain ⟨records, hlaid, hscan, hnodup, hmem⟩ :=
    scan_map htogether orphaned_empty trivial db
  refine ⟨records, hlaid, hscan, hnodup, ?_⟩
  intro key data
  rw [hmem]
  exact ⟨fun hpair => hpair.1, fun hmap => ⟨hmap, hsession.live key data hmap⟩⟩

theorem gentleLive_sample {map : KeyMap} {call : Call}
    (hsteady : Steady (map sampleKey.bytes) call) (hcall : call.key? = some sampleKey)
    (hcalm : Calm (map sampleKey.bytes) call) : GentleLive map call := by
  refine ⟨gentle_sample hsteady hcall hcalm, ?_⟩
  intro key hkey
  rw [hcall] at hkey
  cases hkey
  rfl

theorem session_scan_complete_insert : ∃ history db files,
    Session GentleLive history db files ∧ history.length = 1 ∧
    ∃ pairs, Scan files (dbRewind db) pairs := by
  obtain ⟨history, db, files, hsession, hlength⟩ := @exists_session GentleLive 100
    [.store sampleKey sampleData dbInsert] (fun history _ _ => history.length == 1)
    (by
      intro call hcall map
      rw [List.mem_singleton.mp hcall]
      exact gentleLive_sample (steady_own _ _ _ _) rfl fun _ hinsert => absurd rfl hinsert)
    (by decide +kernel)
  obtain ⟨records, _, hscan, _⟩ := session_scan_complete hsession
  exact ⟨history, db, files, hsession, by simpa using hlength, _, hscan⟩

/-- After one record has been stored and deleted, a scan ends in a fault. -/
theorem delete_breaks_scan : ∃ history db files, Session PlainLive history db files ∧
    ∃ fault final, Runs os (dbNextRec (dbRewind db)) files (.error fault) final := by
  obtain ⟨history, db, files, hsession, hfails⟩ := @exists_session PlainLive 100
    [.store sampleKey sampleData dbInsert, .delete sampleKey]
    (fun _ db files => endsWith 100 (dbNextRec (dbRewind db)) files
      (isFault fun _ _ => true))
    (by
      intro call hcall map
      simp only [List.mem_cons, List.not_mem_nil, or_false] at hcall
      rcases hcall with rfl | rfl
      · exact ⟨⟨sampleKey, rfl, by decide, steady_own _ _ _ _⟩, by rintro key ⟨⟩; rfl⟩
      · exact ⟨⟨sampleKey, rfl, by decide, trivial⟩, by rintro key ⟨⟩; rfl⟩)
    (by decide +kernel)
  obtain ⟨fault, final, hruns, _⟩ := runs_fault hfails
  exact ⟨history, db, files, hsession, fault, final, hruns⟩

/-! ## A record after it has been stored -/

/-- A fetch of the key returns this data, whatever the handle is. -/
def Fetches (files : Files) (key : CString) (found : Option Bytes) : Prop :=
  ∀ db, ∃ db' final, Runs os ((Call.fetch key).prog db) files (.ok (.data found, db')) final

theorem Settled.fetches {mode : Mode} (hsettled : Settled mode history files)
    (hknown : ∀ lock part, mode.known lock part) (hplain : mode.plain) (key : CString) :
    Fetches files key (keyMap.after history key.bytes) := by
  obtain ⟨trace, pool, total, rfl, htogether⟩ := hsettled
  exact fetch_map htogether hplain (fun lock => hknown lock _) key

theorem Fetches.unique {key : CString} {found found' : Option Bytes}
    (hfetches : Fetches files key found) (hfetches' : Fetches files key found') :
    found' = found := by
  obtain ⟨db, final, hruns⟩ := hfetches dbAlloc
  obtain ⟨db', final', hruns'⟩ := hfetches' dbAlloc
  cases (hruns.unique hruns').1
  rfl

/-- What has been stored can be fetched, what was there can still be fetched, and
a scan returns what has been stored. -/
theorem stored_record_usable {history : List (Call × Reply)} {db db' : DB}
    {files files' : Files} {key data : Arg}
    (hsession : Session PlainKeys history db files) (hnoSep : sep ∉ key.bytes)
    (hsteady : Steady (keyMap.after history key.bytes) (.store key data dbStoreFlag))
    (hreads : (Call.store key data dbStoreFlag).Reads db)
    (hruns : Runs os ((Call.store key data dbStoreFlag).prog db) files
      (.ok (.code 0, db')) files') :
    Fetches files' key.toCString (some data.bytes) ∧
    (∀ other : CString, other.bytes ≠ key.bytes → ∀ old, Fetches files other (some old) →
      Fetches files' other (some old)) ∧
    (Session Gentle history db files →
      Calm (keyMap.after history key.bytes) (.store key data dbStoreFlag) →
      blank key.bytes = false →
      ∃ pairs, Scan files' (dbRewind db') pairs ∧ (key.bytes, data.bytes) ∈ pairs) := by
  have hplain : PlainKeys (keyMap.after history) (.store key data dbStoreFlag) :=
    ⟨key.toCString, rfl, hnoSep, hsteady⟩
  have hsettled := (hsession.call hplain hreads hruns).settled_plain
  obtain ⟨_, haccepts⟩ := Object.legal_snoc.mp hsettled.legal
  have hcode : storeCode (keyMap.after history key.bytes).isSome dbStoreFlag = 0 :=
    (Reply.code.inj haccepts).symm
  have hnext : keyMap.after (history ++ [(.store key data dbStoreFlag, .code 0)]) =
      (keyMap.after history).next (.store key data dbStoreFlag) :=
    Object.after_snoc ..
  have hmap : keyMap.after (history ++ [(.store key data dbStoreFlag, .code 0)]) key.bytes =
      some data.bytes := by
    rw [hnext, KeyMap.next, if_pos hcode, Function.update_self]
  refine ⟨?_, ?_, ?_⟩
  · rw [← hmap]
    exact hsettled.fetches (fun _ _ => trivial) trivial key.toCString
  · intro other hother old hold
    rw [(hsession.settled_plain.fetches (fun _ _ => trivial) trivial other).unique hold,
      ← KeyMap.next_of_ne (keyMap.after history)
        (rfl : (Call.store key data dbStoreFlag).key? = some key.toCString) hother, ← hnext]
    exact hsettled.fetches (fun _ _ => trivial) trivial other
  · intro hgentle hcalm hlive
    have hallowed : Gentle (keyMap.after history) (.store key data dbStoreFlag) := by
      refine ⟨hplain, ?_⟩
      rintro _ ⟨⟩
      exact hcalm
    obtain ⟨trace, pool, total, htrace, htogether⟩ :=
      (hgentle.call hallowed hreads hruns).settled_gentle
    obtain ⟨records, _, hscan, _, hmem⟩ := scan_map htogether orphaned_empty trivial db'
    refine ⟨_, hscan, (hmem _ _).mpr ⟨?_, hlive⟩⟩
    rw [mapOf, htrace]
    exact hmap

theorem stored_record_usable_sample : ∃ db files,
    Runs os ((Call.store sampleKey sampleData dbStoreFlag).prog (dbRewind dbAlloc))
      emptyFiles (.ok (.code 0, db)) files ∧
    (∃ db' final, Runs os ((Call.fetch sampleKey).prog db) files
      (.ok (.data (some sampleData.bytes), db')) final) ∧
    ∃ pairs, Scan files (dbRewind db) pairs ∧ (sampleKey.bytes, sampleData.bytes) ∈ pairs := by
  have heval : endsWith 100 ((Call.store sampleKey sampleData dbStoreFlag).prog (dbRewind dbAlloc))
      emptyFiles (isCode 0 fun _ _ => true) := by decide +kernel
  obtain ⟨db, files, hruns, _⟩ := runs_code heval
  obtain ⟨hfetch, _, hscan⟩ := stored_record_usable (Session.start PlainKeys) (by decide)
    (steady_own _ _ _ _) (reads_own ..) hruns
  exact ⟨db, files, hruns, hfetch db, hscan (Session.start Gentle) (by rintro _ _ _ ⟨⟩) rfl⟩

def isNull {α : Type} : Except Fault (Option α × DB) → Files → Bool
  | .ok (none, _), _ => true
  | _, _ => false

theorem runs_null {α : Type} {fuel : Nat} {program : DbProg (Option α × DB)}
    (hends : endsWith fuel program files isNull) :
    ∃ db final, Runs os program files (.ok (none, db)) final := by
  obtain ⟨outcome, final, hruns, hnull⟩ := runs_of_endsWith hends
  unfold isNull at hnull
  split at hnull
  next _ db => exact ⟨db, final, hruns⟩
  next => cases hnull

/-- A blank key is taken for a deleted record by a scan, and a key with a
separator cannot be read back. -/
theorem odd_keys_unusable : (∃ (key : CString) (db : DB) (files : Files),
      Runs os ((Call.store key sampleData dbStoreFlag).prog (dbRewind dbAlloc))
        emptyFiles (.ok (.code 0, db)) files ∧
      ∃ db' final, Runs os (dbNextRec (dbRewind db)) files (.ok (none, db')) final) ∧
    ∃ (key : CString) (db : DB) (files : Files),
      Runs os ((Call.store key sampleData dbStoreFlag).prog (dbRewind dbAlloc))
        emptyFiles (.ok (.code 0, db)) files ∧
      ∃ fault final, Runs os ((Call.fetch key).prog db) files (.error fault) final := by
  constructor
  · have heval : endsWith 100 ((Call.store (⟨[space], by decide⟩ : CString) sampleData
        dbStoreFlag).prog (dbRewind dbAlloc)) emptyFiles
        (isCode 0 fun db files => endsWith 100 (dbNextRec (dbRewind db)) files isNull) := by
      decide +kernel
    obtain ⟨db, files, hruns, hnext⟩ := runs_code heval
    obtain ⟨db', final, hruns'⟩ := runs_null hnext
    exact ⟨_, db, files, hruns, db', final, hruns'⟩
  · have heval : endsWith 100 ((Call.store (⟨[sep], by decide⟩ : CString) sampleData
        dbStoreFlag).prog (dbRewind dbAlloc)) emptyFiles (isCode 0 fun db files =>
          endsWith 100 ((Call.fetch ⟨[sep], by decide⟩).prog db) files
            (isFault fun _ _ => true)) := by decide +kernel
    obtain ⟨db, files, hruns, hfetch⟩ := runs_code heval
    obtain ⟨fault, final, hruns', _⟩ := runs_fault hfetch
    exact ⟨_, db, files, hruns, fault, final, hruns'⟩

end ApueFormal.Database
