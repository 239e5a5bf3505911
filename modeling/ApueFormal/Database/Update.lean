import ApueFormal.Database.Store

/-!
# The calls that change a chain

`db_store` and `db_delete` hold the lock of the chain of their key until they
return.  When they release it, the chain shows what the map after the call has
for that key, and the same as before for every other key.
-/

namespace ApueFormal.Database

open Function Libc Program

variable {mode : Mode} {actor : Actor} {here : DbLocal} {doom : Fault → Prop} {key : CString}

theorem KeyMap.next_of_ne (map : KeyMap) {call : Call} (hcall : call.key? = some key)
    {other : Bytes} (hother : other ≠ key.bytes) : map.next call other = map other := by
  cases call with
  | store ckey data flag =>
    cases hcall
    simp only [KeyMap.next]
    split
    · exact update_of_ne hother _ _
    · rfl
  | delete ckey =>
    cases hcall
    exact update_of_ne hother _ _
  | _ => rfl

theorem wp_finish {α : Type} {post : Except Fault α → DbLocal → Prop} (hreply : here.reply = none)
    (hreading : here.reading = none) {key : CString} {rest : List Lock}
    (hheld : here.held = .chain (chainOf key.bytes) :: rest) {kept : DbHeap}
    {table : List (Bytes × Bytes)} {entries : List Entry}
    (hown : here.own = kept ∪ chainHeap (dbHash key.bytes) 0 table entries)
    (hkept : Heap.Disjoint kept (chainHeap (dbHash key.bytes) 0 table entries))
    (hchain : IsChain mode.plain (dbHash key.bytes) entries) (hcall : actor.2.key? = some key)
    (hothers : ∀ other, other ≠ key.bytes → (tableOf entries).lookup other = table.lookup other)
    {reply : Reply}
    (hmap : ∀ map : KeyMap, map key.bytes = table.lookup key.bytes →
      map.accepts actor.2 reply ∧
        map.next actor.2 key.bytes = (tableOf entries).lookup key.bytes) {db : DB}
    (hchainoff : db.chainoff = (chainOff (dbHash key.bytes) : Nat)) {value : α}
    (hpost : post (.ok value) { here with own := kept, held := rest, reply := some reply }) :
    Wp (mode.theory actor) doom post
      ((unLock .idx db.chainoff.toNat 1).bind fun _ => .ret value) here := by
  have hcell := chainHeap_table (dbHash key.bytes) 0 table entries
  have hnone := hkept.symm.right_none hcell
  have hset : chainHeap (dbHash key.bytes) 0 (tableOf entries) entries =
      (chainHeap (dbHash key.bytes) 0 table entries).set (.table (dbHash key.bytes))
        (.table (tableOf entries)) := (update_idem ..).symm
  rw [hchainoff, Int.toNat_natCast]
  refine wp_unLock_reply (lockName_chain key.bytes) hreply hreading hheld kept _
    (chainHeap (dbHash key.bytes) 0 (tableOf entries) entries) hown hkept reply
    ⟨_, hchain, rfl⟩ ?_ (.ret hpost)
  intro frame world hframe hholds
  have hownCell : here.own (.table (dbHash key.bytes)) = some (.table table) := by
    rw [hown]
    exact Heap.sub_union_right hkept _ _ hcell
  have hheap : kept ∪ chainHeap (dbHash key.bytes) 0 (tableOf entries) entries =
      here.own.set (.table (dbHash key.bytes)) (.table (tableOf entries)) := by
    rw [hset, hown, Heap.set_union_right _ hnone]
  have htotal := Heap.sub_union_left here.own frame _ _ hownCell
  refine ⟨?_, ?_, ?_⟩
  · rw [hset]
    exact (hkept.symm.set hnone _).symm
  · rw [hheap]
    exact hframe.set (hframe.right_none hownCell) _
  rw [hheap, Heap.set_union]
  have hlookup := hholds.tables _ _ htotal
  obtain ⟨haccepts, hnext⟩ := hmap (mapOf world.trace) (hlookup key.bytes rfl).symm
  refine hholds.finish (hholds.rep.retag htotal (fun fd i => Iff.rfl) trivial) haccepts ?_ ?_ ?_
  · intro hash table' htable other hother
    by_cases hsame : hash = dbHash key.bytes
    · subst hsame
      rw [Heap.set_self] at htable
      cases Option.some.inj htable
      by_cases hkey : other = key.bytes
      · rw [hkey]
        exact hnext.symm
      · rw [hothers other hkey, KeyMap.next_of_ne _ hcall hkey]
        exact hlookup other hother
    · rw [Heap.set_of_ne _ (by simpa using hsame)] at htable
      have hkey : other ≠ key.bytes := by
        rintro rfl
        exact hsame hother.symm
      rw [KeyMap.next_of_ne _ hcall hkey]
      exact hholds.tables hash table' htable other hother
  · intro hgood
    exact hgood.congr (fun _ => Heap.set_of_ne _ (by simp) _)
      (fun _ => Heap.set_of_ne _ (by simp) _) (fun _ => Heap.set_of_ne _ (by simp) _)
  · intro _ _ _ _ _ hnextrec
    rw [hnextrec] at hcall
    cases hcall

/-- The process when it is stopped in the middle of a call on a chain. -/
def stopped (own : DbHeap) (key : Bytes) (taken : List Lock) : DbLocal :=
  { idle own with
    held := [.chain (chainOf key)]
    taken := taken }

/-- The process when it is stopped while it deletes a record. -/
def blocked (own : DbHeap) (key : Bytes) : DbLocal :=
  { idle own with
    held := [.free, .chain (chainOf key)]
    taken := [.free, .chain (chainOf key)] }

theorem not_mem_stopped (own : DbHeap) (key : Bytes) (taken : List Lock) :
    Lock.free ∉ (stopped own key taken).held ∧ Lock.datAll ∉ (stopped own key taken).held ∧
      Lock.idxTail ∉ (stopped own key taken).held := by
  simp [stopped]

theorem wp_lockChain {α : Type} {post : Except Fault α → DbLocal → Prop} {own : DbHeap}
    {next : Int × DB → DbProg α} (db : DB) (hcall : actor.2.key? = some key)
    (hfound : ∀ before entry after,
      IsChain mode.plain (dbHash key.bytes) (before ++ entry :: after) →
      mode.Finds key.bytes (before ++ entry :: after) →
      mode.Allows ((tableOf (before ++ entry :: after)).lookup key.bytes) actor.2 →
      Heap.Disjoint own (chainHeap (dbHash key.bytes) 0
        (tableOf (before ++ entry :: after)) (before ++ entry :: after)) →
      entry.key = key.bytes → Wp (mode.theory actor) doom post
        (next (0, (db.opened (dbHash key.bytes)).found (chainOff (dbHash key.bytes))
          before entry (headOff 0 after)))
        (stopped (own ∪ chainHeap (dbHash key.bytes) 0
          (tableOf (before ++ entry :: after)) (before ++ entry :: after)) key.bytes
          [.chain (chainOf key.bytes)]))
    (hmissed : ∀ entries, IsChain mode.plain (dbHash key.bytes) entries →
      mode.Finds key.bytes entries → Heap.Disjoint own (chainHeap (dbHash key.bytes) 0
        (tableOf entries) entries) →
      (∀ entry ∈ entries, entry.key ≠ key.bytes) → Wp (mode.theory actor) doom post
        (next (-1, (db.opened (dbHash key.bytes)).passed 0 entries))
        (stopped (own ∪ chainHeap (dbHash key.bytes) 0 (tableOf entries) entries)
          key.bytes [.chain (chainOf key.bytes)]))
    (hbad : ¬ mode.plain → ∀ after, post (.error .readIdxManySeps) after) :
    Wp (mode.theory actor) doom post
      ((dbFindAndLock db key true).bind next) (idle own) := by
  unfold dbFindAndLock
  simp only [Prog.bind_eq]
  refine Wp.seq ?_
  rw [if_pos trivial]
  refine wp_writewLock (lockName_chain key.bytes) rfl rfl List.not_mem_nil ?_
  rintro part hdisj ⟨entries, hchain, rfl⟩ hassume
  obtain ⟨hknown, hallows⟩ := hassume List.not_mem_nil
  have hview : Heap.Sub (listHeap (chainOff (dbHash key.bytes)) 0 entries)
      ((idle own).take (.chain (chainOf key.bytes))
        (chainHeap (dbHash key.bytes) 0 (tableOf entries) entries)).view :=
    ((list_sub_chainHeap _ _ _ _).trans (Heap.sub_union_right hdisj)).trans
      (Heap.sub_union_left _ _)
  refine wp_findChain rfl hchain hview db ?_ ?_ ?_
  · rintro before entry after rfl hkey
    exact hfound before entry after hchain hknown
      (hallows key _ hcall rfl (chainHeap_table ..)) hdisj hkey
  · intro hnone
    exact hmissed entries hchain hknown hdisj hnone
  · intro hnot
    exact hbad hnot _

theorem wp_dbDelete {pid : Nat} {own : DbHeap} {post : Except Fault (Int × DB) → DbLocal → Prop}
    (db : DB) (hdone : ∀ entries (db' : DB) taken,
      IsChain mode.plain (dbHash key.bytes) entries → mode.Finds key.bytes entries →
      post (.ok (if ((tableOf entries).lookup key.bytes).isSome then 0 else -1, db'))
        (finished own taken
          (.code (if ((tableOf entries).lookup key.bytes).isSome then 0 else -1))))
    (hbad : ¬ mode.plain → ∀ after, post (.error .readIdxManySeps) after)
    (hfault : ∀ after, post (.error .writeIdxLength) after) :
    Wp (mode.theory (pid, .delete key)) doom post (dbDelete db key) (idle own) := by
  unfold dbDelete
  simp only [Prog.bind_eq]
  refine wp_lockChain db rfl ?_ ?_ hbad
  · intro before entry after hchain hfinds hallows hdisj hkey
    have hlookup : (tableOf (before ++ entry :: after)).lookup key.bytes = some entry.data := by
      rw [← hkey]
      exact lookup_tableOf hchain.keys
    have hempty : mode.strict → entry.key = [] := by
      intro hmode
      by_contra hne
      rw [hkey] at hne
      rw [hallows.calm hmode hne] at hlookup
      cases hlookup
    rw [if_pos rfl]
    refine Wp.seq (wp_dbDoDelete rfl rfl (not_mem_stopped ..).1 rfl hdisj
      hchain.toChained hempty _ ?_ fun _ _ _ => hfault _)
    intro db' hchainoff _
    have hpost := hdone _ db' [.free, .chain (chainOf key.bytes)] hchain hfinds
    rw [hlookup] at hpost
    refine wp_finish rfl rfl rfl rfl (disjoint_cut hchain.toChained hdisj).2.1
      hchain.remove rfl ?_ ?_ hchainoff hpost
    · intro other hother
      rw [lookup_tableOf_ne (by rw [hkey]; exact hother)]
    · intro map hmap
      refine ⟨?_, ?_⟩
      · change Reply.code _ = Reply.code _
        rw [hmap, hlookup]
      · change update map key.bytes none key.bytes = _
        rw [update_self, lookup_tableOf_none]
        rw [← hkey]
        exact hchain.key_ne
  · intro entries hchain hfinds hdisj hnone
    have hlookup := lookup_tableOf_none hnone
    have hpost := hdone _ ((db.opened (dbHash key.bytes)).passed 0 entries)
      [.chain (chainOf key.bytes)] hchain hfinds
    rw [hlookup] at hpost
    rw [if_neg (by simp)]
    refine wp_finish rfl rfl rfl rfl hdisj hchain rfl (fun _ _ => rfl) ?_
      (DB.passed_chainoff ..) hpost
    intro map hmap
    refine ⟨?_, ?_⟩
    · change Reply.code _ = Reply.code _
      rw [hmap, hlookup]
    · change update map key.bytes none key.bytes = _
      rw [update_self, hlookup]

theorem storeCode_of_valid {flag : Int} (hvalid : ValidFlag flag) (present : Bool) :
    storeCode present flag = if present ∧ flag = dbInsert then 1
      else if ¬ present ∧ flag = dbReplace then -1 else 0 := by
  unfold storeCode
  rw [if_neg (not_not.mpr hvalid)]

section Storing

variable {pid : Nat} {own : DbHeap} {key data : Arg} {flag : Int}
variable {post : Except Fault (Int × DB) → DbLocal → Prop}
variable {entries : List Entry}

theorem wp_finish_store {kept : DbHeap} {table : List (Bytes × Bytes)} {taken : List Lock}
    (hkept : Heap.Disjoint kept (chainHeap (dbHash key.bytes) 0 table entries))
    (hchain : IsChain mode.plain (dbHash key.bytes) entries)
    (hothers : ∀ other, other ≠ key.bytes → (tableOf entries).lookup other = table.lookup other)
    {rc : Int} (hrc : storeCode (table.lookup key.bytes).isSome flag = rc)
    (hlookup : (tableOf entries).lookup key.bytes =
      if rc = 0 then some data.bytes else table.lookup key.bytes) {db : DB}
    (hchainoff : db.chainoff = (chainOff (dbHash key.bytes) : Nat))
    (hpost : post (.ok (rc, db)) (finished kept taken (.code rc))) :
    Wp (mode.theory (pid, .store key data flag)) doom post
      ((unLock .idx db.chainoff.toNat 1).bind fun _ => .ret (rc, db))
      (stopped (kept ∪ chainHeap (dbHash key.bytes) 0 table entries) key.bytes
        taken) := by
  refine wp_finish rfl rfl rfl rfl hkept hchain rfl hothers ?_ hchainoff hpost
  intro map hmap
  have hcode : storeCode (map key.bytes).isSome flag = rc := by
    rw [hmap]
    exact hrc
  refine ⟨congrArg Reply.code hcode.symm, ?_⟩
  simp only [KeyMap.next, hcode, hlookup]
  split
  · exact update_self ..
  · exact hmap

/-- The call finds a record and has to move it, because its data has another
length. -/
structure Moving (mode : Mode) (key data : Arg) (flag : Int)
    (before : List Entry) (entry : Entry) (after : List Entry) : Prop where
  isChain : IsChain mode.plain (dbHash key.bytes) (before ++ entry :: after)
  finds : mode.Finds key.bytes (before ++ entry :: after)
  sameKey : entry.key = key.bytes
  moves : Moves entry.data data.bytes flag

variable (hstorable : Storable mode (pid, .store key data flag) key.toCString data.toCString)
variable (hvalid : ValidFlag flag) (hdoom : doom .writeDatWritev)
variable (hdone : ∀ entries (db' : DB) taken,
  IsChain mode.plain (dbHash key.bytes) entries → mode.Finds key.bytes entries →
  post (.ok (storeCode ((tableOf entries).lookup key.bytes).isSome flag, db'))
    (finished own taken
      (.code (storeCode ((tableOf entries).lookup key.bytes).isSome flag))))
variable (hmoving : ∀ fault before entry after extra taken,
  Moving mode key data flag before entry after →
  Heap.Disjoint (own ∪ chainHeap (dbHash key.bytes) 0
    (tableOf (before ++ entry :: after)) (before ++ after)) extra →
  post (.error fault) (stopped (own ∪ chainHeap (dbHash key.bytes) 0
    (tableOf (before ++ entry :: after)) (before ++ after) ∪ extra) key.bytes taken))
variable (hblanked : ∀ before entry after free,
  Moving mode key data flag before entry after → IsFree free →
  Heap.Disjoint (own ∪ chainHeap (dbHash key.bytes) 0
    (tableOf (before ++ entry :: after)) (before ++ entry.blanked :: after))
    (freeHeap free) →
  post (.error .writeIdxLength) (blocked (own ∪ chainHeap (dbHash key.bytes) 0
    (tableOf (before ++ entry :: after)) (before ++ entry.blanked :: after) ∪
    freeHeap free) key.bytes))
variable (hstranded : ∀ fault entries extra taken,
  IsChain mode.plain (dbHash key.bytes) entries → mode.Finds key.bytes entries →
  Heap.Disjoint (own ∪ chainHeap (dbHash key.bytes) 0 (tableOf entries) entries)
    extra → Stranded fault extra →
  post (.error fault) (stopped (own ∪ chainHeap (dbHash key.bytes) 0
    (tableOf entries) entries ∪ extra) key.bytes taken))
variable (hfault : ∀ fault after, fault = .writeDatWritev ∨ fault = .writeIdxWritev →
  post (.error fault) after)

include hstorable hvalid hdoom hdone

include hmoving hblanked hfault in
theorem wp_storeFound {before after : List Entry} {entry : Entry} (db : DB)
    (hchain : IsChain mode.plain (dbHash key.bytes) (before ++ entry :: after))
    (hfinds : mode.Finds key.bytes (before ++ entry :: after))
    (hallows : mode.Allows ((tableOf (before ++ entry :: after)).lookup key.bytes)
      (.store key data flag))
    (hkeyAt : key.At db) (hdataAt : data.At db)
    (hdisj : Heap.Disjoint own (chainHeap (dbHash key.bytes) 0
      (tableOf (before ++ entry :: after)) (before ++ entry :: after)))
    (hkey : entry.key = key.bytes) :
    Wp (mode.theory (pid, .store key data flag)) doom post
      ((dbStoreOld ((db.opened (dbHash key.bytes)).found (chainOff (dbHash key.bytes))
        before entry (headOff 0 after)) key data flag (toInt (data.strlen + 1))).bind
        fun (rc, db) => (unLock .idx db.chainoff.toNat 1).bind fun _ => .ret (rc, db))
      (stopped (own ∪ chainHeap (dbHash key.bytes) 0
        (tableOf (before ++ entry :: after)) (before ++ entry :: after)) key.bytes
        [.chain (chainOf key.bytes)]) := by
  have hlookup : (tableOf (before ++ entry :: after)).lookup key.bytes = some entry.data := by
    rw [← hkey]
    exact lookup_tableOf hchain.keys
  have hcode : storeCode ((tableOf (before ++ entry :: after)).lookup
      key.bytes).isSome flag = if flag = dbInsert then 1 else 0 := by
    rw [storeCode_of_valid hvalid, hlookup]
    simp
  have hheld := not_mem_stopped (own ∪ chainHeap (dbHash key.bytes) 0
    (tableOf (before ++ entry :: after)) (before ++ entry :: after)) key.bytes
    [.chain (chainOf key.bytes)]
  have hmoves : flag ≠ dbInsert → data.bytes.length ≠ entry.data.length →
      Moves entry.data data.bytes flag :=
    fun hinsert hlen => ⟨hvalid.resolve_left hinsert, hstorable.checked, hlen.symm⟩
  refine Wp.seq (wp_dbStoreOld rfl rfl hstorable rfl hdisj hchain hkey hheld.1 hheld.2.1
    hheld.2.2 _ rfl (hkeyAt.same rfl) (hdataAt.same rfl) ?_ ?_ hdoom ?_ ?_ ?_ ?_ ?_ hfault)
  · intro hinsert hlen
    exact hallows.steady _ hlookup (hmoves hinsert hlen)
  · intro hmode hinsert hlen
    by_contra hne
    exact hlen (hallows.calm hmode (hkey ▸ hne) hinsert _ hlookup).symm
  · intro hinsert
    rw [if_pos hinsert] at hcode
    have hpost := hdone _ ((db.opened (dbHash key.bytes)).found
      (chainOff (dbHash key.bytes)) before entry (headOff 0 after))
      [.chain (chainOf key.bytes)] hchain hfinds
    rw [hcode] at hpost
    exact wp_finish_store hdisj hchain (fun _ _ => rfl) hcode rfl rfl hpost
  · intro hinsert hlen db' hchainoff hdisj'
    rw [if_neg hinsert] at hcode
    have hpost := hdone _ db' [.chain (chainOf key.bytes)] hchain hfinds
    rw [hcode] at hpost
    have hfill := hchain.fill (some key.bytes) hlen data.noNul
    refine wp_finish_store hdisj' hfill ?_ hcode ?_ hchainoff hpost
    · intro other hother
      rw [← hkey] at hother
      have hfilled : other ≠ (entry.filled (some key.bytes) data.bytes).key := hother
      rw [lookup_tableOf_ne hfilled, lookup_tableOf_ne hother]
    · have hname : (entry.filled (some key.bytes) data.bytes).key = key.bytes := hkey
      have hnewLookup := lookup_tableOf hfill.keys
      rw [hname] at hnewLookup
      exact hnewLookup
  · intro hinsert hlen new db' taken hnew hnewKey hdata hdisj' hchainoff
    rw [if_neg hinsert] at hcode
    have hpost := hdone _ db' taken hchain hfinds
    rw [hcode] at hpost
    refine wp_finish_store hdisj' hnew ?_ hcode ?_ hchainoff hpost
    · intro other hother
      rw [lookup_tableOf_ne (hkey ▸ hother)]
      exact @lookup_tableOf_ne [] _ _ _ (hnewKey ▸ hother)
    · rw [if_pos rfl, ← hnewKey, ← hdata]
      exact @lookup_tableOf [] _ _ hnew.keys
  · intro hinsert hlen fault extra taken hextra
    exact hmoving fault before entry after extra taken
      ⟨hchain, hfinds, hkey, hmoves hinsert hlen⟩ hextra
  · intro hinsert hlen free hfree hextra
    exact hblanked before entry after free ⟨hchain, hfinds, hkey, hmoves hinsert hlen⟩ hfree
      hextra

include hstranded hfault in
theorem wp_storeMissed (db : DB) (hchain : IsChain mode.plain (dbHash key.bytes) entries)
    (hfinds : mode.Finds key.bytes entries)
    (hdisj : Heap.Disjoint own (chainHeap (dbHash key.bytes) 0 (tableOf entries) entries))
    (hnone : ∀ entry ∈ entries, entry.key ≠ key.bytes) :
    Wp (mode.theory (pid, .store key data flag)) doom post
      ((dbStoreNew ((db.opened (dbHash key.bytes)).passed 0 entries) key.toCString
        data.toCString flag (toInt key.strlen) (toInt (data.strlen + 1))).bind
        fun (rc, db) => (unLock .idx db.chainoff.toNat 1).bind fun _ => .ret (rc, db))
      (stopped (own ∪ chainHeap (dbHash key.bytes) 0 (tableOf entries) entries)
        key.bytes [.chain (chainOf key.bytes)]) := by
  have hlookup := lookup_tableOf_none hnone
  have hcode : storeCode ((tableOf entries).lookup key.bytes).isSome flag =
      if flag = dbReplace then -1 else 0 := by
    rw [storeCode_of_valid hvalid, hlookup]
    simp
  by_cases hreplace : flag = dbReplace
  · rw [if_pos hreplace] at hcode
    have hpost := hdone entries ((db.opened (dbHash key.bytes)).passed 0 entries)
      [.chain (chainOf key.bytes)] hchain hfinds
    rw [hcode] at hpost
    unfold dbStoreNew
    rw [if_pos hreplace]
    exact wp_finish_store hdisj hchain (fun _ _ => rfl) hcode rfl (DB.passed_chainoff ..) hpost
  rw [if_neg hreplace] at hcode
  have hheld := not_mem_stopped (own ∪ chainHeap (dbHash key.bytes) 0 (tableOf entries)
    entries) key.bytes [.chain (chainOf key.bytes)]
  refine Wp.seq (wp_dbStoreNew rfl rfl hstorable rfl hdisj hchain hnone
    (DB.passed_chainoff (db.opened (dbHash key.bytes)) 0 entries) ?_ ?_ ?_ hdoom
    hheld.1 hheld.2.1 hheld.2.2 hreplace)
  · intro new db' taken hnew hkey hdata hdisj' hchainoff
    have hpost := hdone entries db' taken hchain hfinds
    rw [hcode] at hpost
    refine wp_finish_store hdisj' hnew ?_ hcode ?_ hchainoff hpost
    · intro other hother
      rw [tableOf, List.map_cons, lookup_pair, hkey, if_neg hother]
      rfl
    · rw [tableOf, List.map_cons, lookup_pair, hkey, if_pos rfl, hdata, if_pos rfl]
  · intro fault extra taken hextra hstrand
    exact hstranded fault entries extra taken hchain hfinds hextra hstrand
  · intro fault after hio
    exact hfault fault after hio

omit hstorable hvalid in
include hmoving hblanked hstranded hfault in
/-- `db_store` changes the chain of its key as the map changes, or it stops in
one of its checks. -/
theorem wp_dbStore (db : DB) (hkeyAt : key.At db) (hdataAt : data.At db)
    (hnoSep : mode.plain → sep ∉ key.bytes)
    (hsilent : ¬ ValidFlag flag → post (.ok (-1, db)) (idle own))
    (hlength : post (.error .storeLength) (idle own))
    (hbad : ¬ mode.plain → ∀ after, post (.error .readIdxManySeps) after) :
    Wp (mode.theory (pid, .store key data flag)) doom post
      (dbStore db key data flag) (idle own) := by
  unfold dbStore
  rw [hkeyAt.now_eq, hdataAt.now_eq]
  by_cases hvalid : ValidFlag flag
  swap
  · rw [if_pos (by unfold ValidFlag at hvalid; omega)]
    exact .ret (hsilent hvalid)
  rw [if_neg (by unfold ValidFlag at hvalid; omega)]
  simp only [Prog.bind_eq]
  by_cases hsize : toInt (data.strlen + 1) < datLenMin ∨ (datLenMax : Int) < toInt (data.strlen + 1)
  · rw [if_pos hsize]
    exact .fail hlength
  rw [if_neg hsize]
  have hstorable : Storable mode (pid, .store key data flag) key.toCString data.toCString :=
    ⟨⟨key, data, flag, rfl, rfl, rfl⟩, hnoSep, hsize⟩
  refine wp_lockChain db rfl ?_ ?_ hbad
  · intro before entry after hchain hfinds hallows hdisj hkey
    rw [if_neg (by simp)]
    exact wp_storeFound hstorable hvalid hdoom hdone hmoving hblanked hfault db hchain
      hfinds hallows hkeyAt hdataAt hdisj hkey
  · intro entries hchain hfinds hdisj hnone
    have hbuf := DB.passed_datbuf (db.opened (dbHash key.bytes)) 0 entries
    rw [if_pos (by simp), (hkeyAt.same hbuf).now_eq, (hdataAt.same hbuf).now_eq]
    exact wp_storeMissed hstorable hvalid hdoom hdone hstranded hfault db hchain hfinds hdisj hnone

end Storing

end ApueFormal.Database
