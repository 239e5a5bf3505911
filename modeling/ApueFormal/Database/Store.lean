import ApueFormal.Database.Reuse

/-!
# Storing a record

`db_store` puts a new record at the head of its chain, after it has appended
the record or has filled in a free one.  It overwrites the data of an old
record in place when the lengths agree, and otherwise deletes the old record
and appends a new one.
-/

namespace ApueFormal.Database

open Libc Program

variable {mode : Mode} {actor : Actor} {here : DbLocal} {doom : Fault → Prop}

/-- Cells that no list refers to after a fault: their index records have no key,
unless the pointer to a new record could not be written. -/
def Stranded (fault : Fault) (extra : DbHeap) : Prop :=
  ∀ off slot, extra (.slot off) = some (.slot slot) → slot.key = [] ∨ fault = .writePtrPtr

def freshEntry (off : Nat) (key : Bytes) (datoff : Nat) (data : Bytes) : Entry where
  off := off
  key := key
  datoff := datoff
  data := data
  room := (freshSlot 0 key datoff data).room
  writer := some key

variable {ptr : Nat}

theorem freshEntry_valid {off datoff : Nat} {key data : Bytes}
    (hslot : (freshSlot ptr key datoff data).Valid) (hfirst : firstRec ≤ off) (hoff : off ≤ ptrMax)
    (hnul : (0 : Byte) ∉ data) : (freshEntry off key datoff data).Valid :=
  ⟨hfirst, hoff, ⟨Nat.zero_le _, hslot.key, hslot.datoff, hslot.datlen_pos, hslot.datlen_le,
    hslot.text_min, hslot.text_max, hslot.room⟩, hnul⟩

theorem append_links {own : DbHeap} {off ptr datoff : Nat} {key data : Bytes}
    (hslot : own (.slot off) = none) (hblock : own (.block datoff) = none) (tag : Tag) :
    (((own.set (.block datoff) (.block data tag)).set (.slot off)
        (.slot (freshSlot ptr key datoff data))).set (.block datoff)
        (.block data ⟨some key, some off⟩)) =
      own ∪ links ptr [freshEntry off key datoff data] ∧
    Heap.Disjoint own (links ptr [freshEntry off key datoff data]) := by
  constructor
  · funext cell
    cases cell with
    | slot other =>
      by_cases hother : other = off
      · subst hother
        simp [links, slots, freshEntry, freshSlot, Entry.slot, hslot]
      · simp [links, slots, freshEntry, hother]
    | block other =>
      by_cases hother : other = datoff
      · subst hother
        simp [links, blocks, freshEntry, Entry.tag, hblock]
      · simp [links, blocks, freshEntry, hother]
    | _ => simp [links]
  · intro cell
    cases cell with
    | slot other =>
      by_cases hother : other = off
      · exact .inl (hother ▸ hslot)
      · right
        simp [links, slots, freshEntry, hother]
    | block other =>
      by_cases hother : other = datoff
      · exact .inl (hother ▸ hblock)
      · right
        simp [links, blocks, freshEntry, hother]
    | _ => exact .inr rfl

theorem set_eq_union {own : DbHeap} {cell : Cell} (hnone : own cell = none)
    (value : Val) : own.set cell value = own ∪ Heap.single cell value := by
  rw [Heap.single, ← Heap.set_union_right _ hnone]
  congr 1
  funext other
  simp [Heap.empty]

variable {entries : List Entry} {hash : Nat} {table : List (Bytes × Bytes)}

theorem push_beside {kept : DbHeap} (entry : Entry)
    (hkept : Heap.Disjoint kept (chainHeap hash 0 table entries))
    (hentry : Heap.Disjoint (kept ∪ chainHeap hash 0 table entries)
      (links (headOff 0 entries) [entry])) :
    (kept ∪ chainHeap hash 0 table entries ∪ links (headOff 0 entries) [entry]).set
        (.ptr (chainOff hash)) (.off entry.off) = kept ∪ chainHeap hash 0 table (entry :: entries) ∧
    Heap.Disjoint kept (chainHeap hash 0 table (entry :: entries)) ∧
    entry.off ∉ entries.map Entry.off ∧ entry.datoff ∉ entries.map Entry.datoff := by
  obtain ⟨hkeptEntry, hchainEntry⟩ := Heap.disjoint_union_left.mp hentry
  have hroot := list_sub_chainHeap hash 0 table entries _ _
    (listHeap_root (chainOff hash) 0 entries)
  have hrootKept : kept (.ptr (chainOff hash)) = none := hkept.symm.right_none hroot
  have hlist : Heap.Disjoint (listHeap (chainOff hash) 0 entries)
      (links (headOff 0 entries) [entry]) := by
    intro cell
    refine (hchainEntry cell).imp_left fun hnone => ?_
    cases hcell : listHeap (chainOff hash) 0 entries cell with
    | none => rfl
    | some value =>
      rw [list_sub_chainHeap hash 0 table entries cell value hcell] at hnone
      cases hnone
  have hoffs := not_mem_of_slot (hlist.symm.right_none (links_slot _ entry))
  have hdatoffs := not_mem_of_block (hlist.symm.right_none (links_block _ entry))
  rw [← chainHeap_push hoffs hdatoffs, Heap.disjoint_union_right, Heap.union_assoc,
    Heap.set_union_right _ hrootKept, ← Heap.set_union]
  exact ⟨rfl, ⟨(hkept.symm.set hrootKept _).symm, hkeptEntry⟩, hoffs, hdatoffs⟩

variable {post : Except Fault DB → DbLocal → Prop}

theorem wp_dbWritePtr_push (hreply : here.reply = none) {kept : DbHeap} (entry : Entry)
    (hown : here.own = kept ∪ chainHeap hash 0 table entries ∪ links (headOff 0 entries) [entry])
    (hkept : Heap.Disjoint kept (chainHeap hash 0 table entries))
    (hentry : Heap.Disjoint (kept ∪ chainHeap hash 0 table entries)
      (links (headOff 0 entries) [entry])) (hoff : entry.off ≤ ptrMax) {db : DB}
    (hchainoff : db.chainoff = chainOff hash) (hidxoff : db.idxoff = entry.off)
    (hpost : entry.off ∉ entries.map Entry.off →
      entry.datoff ∉ entries.map Entry.datoff →
      Heap.Disjoint kept (chainHeap hash 0 table (entry :: entries)) →
      post (.ok { db with idxpos := chainOff hash + ptrSz })
        (here.owning (kept ∪ chainHeap hash 0 table (entry :: entries)))) :
    Wp (mode.theory actor) doom post (dbWritePtr db db.chainoff db.idxoff) here := by
  have hroot := list_sub_chainHeap hash 0 table entries _ _
    (listHeap_root (chainOff hash) 0 entries)
  have hsub : Heap.Sub (chainHeap hash 0 table entries) here.own := by
    rw [hown]
    exact (Heap.sub_union_right hkept).trans (Heap.sub_union_left _ _)
  obtain ⟨hheap, hnew, hoffs, hdatoffs⟩ := push_beside entry hkept hentry
  rw [hchainoff, hidxoff]
  refine wp_dbWritePtr hoff (gives_write_ptr hreply (hsub _ _ hroot) hoff) db ?_
  rw [hown, hheap]
  exact hpost hoffs hdatoffs hnew

variable {entry : Entry}

theorem IsChain.push {plain : Prop} (hchain : IsChain plain hash entries) (hvalid : entry.Valid)
    (hoff : entry.off ∉ entries.map Entry.off) (hdatoff : entry.datoff ∉ entries.map Entry.datoff)
    (hhash : dbHash entry.key = hash) (hnew : ∀ other ∈ entries, other.key ≠ entry.key)
    (hnoSep : plain → sep ∉ entry.key) : IsChain plain hash (entry :: entries) where
  toChained := hchain.toChained.cons hvalid hoff hdatoff
  hash := by
    intro other hmem
    rcases List.mem_cons.mp hmem with rfl | hmem
    · exact hhash
    · exact hchain.hash other hmem
  keys := by
    rw [List.map_cons, List.nodup_cons]
    refine ⟨?_, hchain.keys⟩
    intro hmem
    obtain ⟨other, hother, heq⟩ := List.mem_map.mp hmem
    exact hnew other hother heq
  noSep := by
    intro hplain other hmem
    rcases List.mem_cons.mp hmem with rfl | hmem
    · exact hnoSep hplain
    · exact hchain.noSep hplain other hmem

/-- `_db_writedat` in place.  Data whose length was cut to fit an `int` is too
long for one write. -/
theorem wp_dbWriteDat_block (hreply : here.reply = none) {off : Nat} {old data : Bytes} {tag : Tag}
    (writer : Option Bytes) (hown : here.own (.block off) = some (.block old tag))
    (hnul : (0 : Byte) ∉ data) (hlen : data.length + 1 ≤ rwMax → data.length = old.length)
    (hstrict : mode.strict →
      (∀ key, writer = some key → Storing actor.2 key data) ∧
      ∃ soff slot, tag.slot = some soff ∧ here.own (.slot soff) = some (.slot slot) ∧
        (slot.key ≠ [] → writer = some slot.key)) (hdoom : doom .writeDatWritev) {db : DB}
    (hdatoff : db.datoff = off) (hpost : data.length = old.length → post (.ok { db with
        datpos := off + (data.length + 1)
        datoff := off
        datlen := data.length + 1 })
      (here.owning (here.own.set (.block off) (.block data ⟨writer, tag.slot⟩)))) :
    Wp (mode.theory actor) doom post (dbWriteDat db data db.datoff .set) here := by
  rw [hdatoff]
  by_cases hlong : rwMax < data.length + 1
  · unfold dbWriteDat
    simp only [Prog.bind_eq, lseek_natCast, Prog.ret_bind]
    refine wp_write_doomed hreply hlong hdoom ?_
    intro count hcount
    rw [if_pos hcount]
  · exact wp_dbWriteDat (gives_write_block hreply writer hown hnul (hlen (by omega))
      (by omega) hstrict) db (hpost (hlen (by omega)))

structure Storable (mode : Mode) (actor : Actor) (key data : CString) : Prop where
  storing : Storing actor.2 key.bytes data.bytes
  noSep : mode.plain → sep ∉ key.bytes
  checked : DatLenOk data.bytes.length

/-- What the checks of `db_store` leave: the data is short, or its length was cut
to fit an `int`. -/
theorem Storable.size {key data : CString} (hstorable : Storable mode actor key data) :
    data.bytes.length + 1 ≤ datLenMax ∨ rwMax < data.bytes.length + 1 := by
  by_cases hlong : rwMax < data.bytes.length + 1
  · exact .inr hlong
  · left
    have hchecked := hstorable.checked
    unfold DatLenOk at hchecked
    unfold rwMax at hlong
    rw [toInt_of_lt (by omega)] at hchecked
    omega

theorem fill_beside {rest : DbHeap} (writer : Option Bytes) {data : Bytes}
    (hdisj : Heap.Disjoint rest (links ptr [entry])) (hlen : data.length = entry.data.length) :
    (rest ∪ links ptr [entry]).set (.block entry.datoff) (.block data ⟨writer, entry.tag.slot⟩) =
      rest ∪ links ptr [entry.filled writer data] ∧
    Heap.Disjoint rest (links ptr [entry.filled writer data]) := by
  have hnone := hdisj.symm.right_none (links_block ptr entry)
  rw [Heap.set_union_right _ hnone,
    ← @links_set_block entry ptr (entry.filled writer data) rfl rfl rfl rfl hlen]
  exact ⟨rfl, (hdisj.symm.set hnone _).symm⟩

theorem relink_beside {rest : DbHeap} {entry : Entry} {ptr off : Nat}
    (hdisj : Heap.Disjoint rest (links ptr [entry])) (hoff : entry.off = off) (ptr' : Nat) :
    (rest ∪ links ptr [entry]).set (.slot off) (.slot (entry.slot ptr')) =
      rest ∪ links ptr' [entry] ∧ Heap.Disjoint rest (links ptr' [entry]) := by
  subst hoff
  have hnone := hdisj.symm.right_none (links_slot ptr entry)
  rw [Heap.set_union_right _ hnone, ← @links_set_slot entry ptr entry ptr' rfl rfl rfl rfl]
  exact ⟨rfl, (hdisj.symm.set hnone _).symm⟩

theorem length_of_toSize {data : CString} {len : Nat}
    (hlen : len + 1 = toSize (toInt (data.strlen + 1)))
    (hshort : data.bytes.length + 1 ≤ rwMax) : data.bytes.length = len := by
  unfold rwMax at hshort
  rw [CString.strlen, toInt_of_lt (by omega), toSize_natCast (by omega)] at hlen
  omega

theorem dbWriteIdx_long {key : CString} (hlong : 2 ^ 31 ≤ key.strlen) (db : DB) (offset : Int)
    (whence : Whence) (hptr : ptr ≤ ptrMax) :
    dbWriteIdx db (.string key) offset whence ptr = .fail .writeIdxLength := by
  refine dbWriteIdx_bad _ _ _ _ hptr (.inr (Nat.lt_of_lt_of_le ?_ (length_idxText ..)))
  change idxLenMax < key.bytes.length
  unfold CString.strlen at hlong
  unfold idxLenMax
  omega

section NewRecord

variable {post : Except Fault (Int × DB) → DbLocal → Prop}
variable (hreply : here.reply = none) (hreading : here.reading = none)
variable {key data : CString} (hstorable : Storable mode actor key data)
variable {kept : DbHeap} {table : List (Bytes × Bytes)} {entries : List Entry}
variable (hown : here.own = kept ∪ chainHeap (dbHash key.bytes) 0 table entries)
variable (hkept : Heap.Disjoint kept (chainHeap (dbHash key.bytes) 0 table entries))
variable (hchain : IsChain mode.plain (dbHash key.bytes) entries)
variable (hnone : ∀ entry ∈ entries, entry.key ≠ key.bytes)
variable {db : DB} (hchainoff : db.chainoff = (chainOff (dbHash key.bytes) : Nat))
variable (hpost : ∀ (entry : Entry) (db' : DB) taken,
  IsChain mode.plain (dbHash key.bytes) (entry :: entries) →
  entry.key = key.bytes → entry.data = data.bytes →
  Heap.Disjoint kept (chainHeap (dbHash key.bytes) 0 table (entry :: entries)) →
  db'.chainoff = (chainOff (dbHash key.bytes) : Nat) →
  post (.ok (0, db')) (here.having
    (kept ∪ chainHeap (dbHash key.bytes) 0 table (entry :: entries)) taken))
variable (hstranded : ∀ fault extra taken,
  Heap.Disjoint (kept ∪ chainHeap (dbHash key.bytes) 0 table entries) extra →
  Stranded fault extra → post (.error fault) (here.having
    (kept ∪ chainHeap (dbHash key.bytes) 0 table entries ∪ extra) taken))
variable (hfault : ∀ fault after, fault = .writeDatWritev ∨ fault = .writeIdxWritev →
  post (.error fault) after)
variable (hdoom : doom .writeDatWritev)
include hreply hreading hstorable hown hkept hchain hnone hchainoff hpost hstranded
  hfault hdoom

theorem wp_appendRecord {name : DB → CString}
    (hname : ∀ db' : DB, db'.datbuf = db.datbuf → name db' = key)
    (hdatHeld : Lock.datAll ∉ here.held) (hidxHeld : Lock.idxTail ∉ here.held) :
    Wp (mode.theory actor) doom post
      ((dbWriteDat db data.bytes 0 .end).bind fun db =>
        (dbWriteIdx db (.string (name db)) 0 .end (headOff 0 entries : Nat)).bind fun db =>
          (dbWritePtr db db.chainoff db.idxoff).bind fun db => .ret (0, db)) here := by
  refine Wp.seq (@wp_dbWriteDat_end _ _ _ _ _ hreply hreading hdatHeld _ data.noNul
    (some key.bytes) ?_ _ ?_ (fun after => hfault _ _ (.inl rfl)) hdoom)
  · intro _ other hother
    cases hother
    exact hstorable.storing
  intro datoff hblock hplace hshort
  simp only [Wp.follow_ok, hname]
  have hsize : data.bytes.length + 1 ≤ datLenMax := by
    rcases hstorable.size with hsize | hlong
    · exact hsize
    · omega
  have hquiet : ∀ own taken, (here.having own taken).reply = none := fun _ _ => hreply
  refine Wp.seq (wp_dbWriteIdx_end (hquiet (here.own.set (.block datoff)
      (.block data.bytes ⟨some key.bytes, none⟩)) (.datAll :: here.taken))
    hreading hidxHeld hchain.headOff_le rfl rfl hsize (by omega) (Heap.set_self ..) ?_ ?_ ?_ ?_)
  · intro hmode
    exact ⟨hstorable.noSep (mode.plain_of_strict hmode), hstorable.storing, rfl⟩
  · intro off hvalid hslot hfirst
    rw [Local.having_own, Heap.set_of_ne _ (by simp)] at hslot
    obtain ⟨hheap, hdisj⟩ := @append_links here.own off (headOff 0 entries) datoff
      key.bytes data.bytes hslot hblock ⟨some key.bytes, none⟩
    rw [hown] at hdisj
    have hquiet₂ := hquiet (kept ∪ chainHeap (dbHash key.bytes) 0 table entries ∪
      links (headOff 0 entries) [freshEntry off key.bytes datoff data.bytes])
      (.idxTail :: .datAll :: here.taken)
    simp only [Wp.follow_ok, Local.having, hheap]
    rw [hown]
    refine Wp.seq ?_
    by_cases hfits : off ≤ ptrMax
    · refine wp_dbWritePtr_push hquiet₂ (freshEntry off key.bytes datoff data.bytes)
        rfl hkept hdisj hfits hchainoff rfl ?_
      intro hoff hdatoff hnew
      exact .ret (hpost _ _ _ (hchain.push (freshEntry_valid hvalid hfirst hfits data.noNul)
        hoff hdatoff rfl hnone hstorable.noSep) rfl rfl hnew hchainoff)
    · change Wp _ _ _ (dbWritePtr _ _ (off : Int)) _
      rw [dbWritePtr_bad _ _ (by omega)]
      refine .fail (hstranded _ _ _ hdisj ?_)
      intro other slot hcell
      exact .inr rfl
  · rw [hown] at hblock
    have hstrand := hstranded .writeIdxLength
      (Heap.single (.block datoff) (.block data.bytes ⟨some key.bytes, none⟩))
      (.datAll :: here.taken) (disjoint_single hblock _) (fun off slot impossible => by
        simp [Heap.single_apply] at impossible)
    rw [← set_eq_union hblock, ← hown] at hstrand
    exact hstrand
  · intro after
    exact hfault _ _ (.inr rfl)

omit hreading hfault in
theorem wp_reuseRecord (hvalid : entry.Valid) (hkey : entry.key = [])
    (hfits : entry.Fits (toInt key.strlen) (toInt (data.strlen + 1)))
    (hdisj : Heap.Disjoint (kept ∪ chainHeap (dbHash key.bytes) 0 table entries)
      (links ptr [entry])) (hdatoff : db.datoff = entry.datoff) (hidxoff : db.idxoff = entry.off)
    (taken : List Lock) :
    Wp (mode.theory actor) doom post
      ((dbWriteDat db data.bytes db.datoff .set).bind fun db =>
        (dbWriteIdx db (.string key) db.idxoff .set (headOff 0 entries : Nat)).bind fun db =>
          (dbWritePtr db db.chainoff db.idxoff).bind fun db => .ret (0, db))
      (here.having (here.own ∪ links ptr [entry]) taken) := by
  have hquiet : ∀ own, (here.having own taken).reply = none := fun _ => hreply
  rw [hown]
  have hsub := Heap.sub_union_right hdisj
  refine Wp.seq (wp_dbWriteDat_block (hquiet _) (some key.bytes) (hsub _ _ (links_block ptr entry))
    data.noNul (length_of_toSize hfits.2) ?_ hdoom hdatoff ?_)
  · intro _
    refine ⟨?_, entry.off, _, rfl, hsub _ _ (links_slot ptr entry), ?_⟩
    · intro other hother
      cases hother
      exact hstorable.storing
    · intro hne
      exact absurd hkey hne
  intro hlen
  simp only [Wp.follow_ok, Local.having_own]
  obtain ⟨hfill, hfilled⟩ := fill_beside (some key.bytes) hdisj hlen
  rw [hfill]
  have hslotFilled := links_slot ptr (entry.filled (some key.bytes) data.bytes)
  have hvalid' := hvalid.filled (some key.bytes) hlen data.noNul
  rcases eq_zero_of_toSize_toInt (hfits.1.symm.trans (by rw [hkey]; rfl)) with hempty | hlong
  · have hnil : key.bytes = [] := List.eq_nil_of_length_eq_zero hempty
    have hname : (entry.filled (some key.bytes) data.bytes).key = key.bytes :=
      hkey.trans hnil.symm
    have hslot : ((entry.filled (some key.bytes) data.bytes).slot (headOff 0 entries)).Valid :=
      hvalid'.slot_ptr hchain.headOff_le
    simp only [hidxoff]
    refine Wp.seq (wp_dbWriteIdx hslot hname.symm rfl rfl (gives_write_slot
      (hquiet _) (Heap.sub_union_right hfilled _ _ hslotFilled) hslot rfl ?_) ?_)
    · intro _
      rfl
    simp only [Wp.follow_ok, Local.having_own]
    obtain ⟨hwrite, hfinal⟩ := @relink_beside _ _ _ entry.off hfilled rfl (headOff 0 entries)
    rw [hwrite]
    refine Wp.seq (wp_dbWritePtr_push (hquiet _) (entry.filled (some key.bytes) data.bytes) rfl
      hkept hfinal hvalid.off_le hchainoff rfl ?_)
    intro hoff hdatoffs hnew
    refine .ret (hpost (entry.filled (some key.bytes) data.bytes) _ taken (hchain.push
      hvalid' hoff hdatoffs (congrArg dbHash hname) (hname ▸ hnone)
      (hname ▸ hstorable.noSep)) hname rfl hnew hchainoff)
  · rw [dbWriteIdx_long hlong _ _ _ hchain.headOff_le]
    refine .fail (hstranded .writeIdxLength _ taken hfilled ?_)
    intro other slot hcell
    left
    simp only [links, slots] at hcell
    split at hcell
    · cases hcell
      exact hkey
    · cases hcell

theorem wp_dbStoreNew (hfreeHeld : Lock.free ∉ here.held) (hdatHeld : Lock.datAll ∉ here.held)
    (hidxHeld : Lock.idxTail ∉ here.held) {flag : Int} (hreplace : flag ≠ dbReplace) :
    Wp (mode.theory actor) doom post (dbStoreNew db key data flag
      (toInt key.strlen) (toInt (data.strlen + 1))) here := by
  unfold dbStoreNew
  rw [if_neg hreplace]
  simp only [Prog.bind_eq]
  have hroot : here.view (.ptr (chainOff (dbHash key.bytes))) =
      some (.off (headOff 0 entries)) := by
    refine Heap.sub_union_left _ _ _ _ ?_
    rw [hown]
    exact Heap.sub_union_right hkept _ _ (list_sub_chainHeap _ _ _ _ _ _
      (listHeap_root ..))
  rw [hchainoff]
  refine Wp.seq (wp_dbReadPtr hchain.headOff_le (reads_ptr hreply hroot) _ ?_)
  simp only [Wp.follow_ok]
  refine Wp.seq (wp_dbFindFree hreply hreading hfreeHeld _ ?_ ?_)
  · intro entry ptr db' hvalid hkey hfits hdisj hdatoff hidxoff hchainoff'
    simp only [Wp.follow_ok]
    rw [if_neg (by simp)]
    rw [hown] at hdisj
    exact wp_reuseRecord hreply hstorable hown hkept hchain hnone
      (hchainoff'.trans hchainoff) hpost hstranded hdoom hvalid hkey hfits hdisj hdatoff hidxoff _
  · intro db' hchainoff'
    simp only [Wp.follow_ok]
    rw [if_pos (by simp)]
    exact @wp_appendRecord mode actor (here.having here.own (.free :: here.taken)) doom post
      hreply hreading key data hstorable kept table entries hown hkept hchain hnone db'
      (hchainoff'.trans hchainoff) hpost hstranded hfault hdoom (fun _ => key) (fun _ _ => rfl)
      hdatHeld hidxHeld

end NewRecord

section OldRecord

variable {post : Except Fault (Int × DB) → DbLocal → Prop}
variable (hreply : here.reply = none) (hreading : here.reading = none)
variable {key data : Arg} (hstorable : Storable mode actor key.toCString data.toCString)
variable {kept : DbHeap} {table : List (Bytes × Bytes)} {before after : List Entry} {entry : Entry}
variable (hown : here.own =
  kept ∪ chainHeap (dbHash key.bytes) 0 table (before ++ entry :: after))
variable (hkept : Heap.Disjoint kept
  (chainHeap (dbHash key.bytes) 0 table (before ++ entry :: after)))
variable (hchain : IsChain mode.plain (dbHash key.bytes) (before ++ entry :: after))
variable (hkey : entry.key = key.bytes)
include hreply hreading hstorable hown hkept hchain hkey

/-- `db_store` of a key that is on its chain.  Data of another length moves the
record; when the move fails the record is gone or blank. -/
theorem wp_dbStoreOld (hfreeHeld : Lock.free ∉ here.held) (hdatHeld : Lock.datAll ∉ here.held)
    (hidxHeld : Lock.idxTail ∉ here.held) {flag : Int} (db : DB)
    (hchainoff : db.chainoff = (chainOff (dbHash key.bytes) : Nat))
    (hkeyAt : key.At db) (hdataAt : data.At db)
    (hsteady : flag ≠ dbInsert → data.bytes.length ≠ entry.data.length →
      key.Behind entry.data.length ∧ data.Behind entry.data.length)
    (hstrict : mode.strict → flag ≠ dbInsert →
      data.bytes.length ≠ entry.data.length → entry.key = []) (hdoom : doom .writeDatWritev)
    (hrefused : flag = dbInsert → post (.ok (1, db.found (chainOff (dbHash key.bytes))
      before entry (headOff 0 after))) here)
    (hfilled : flag ≠ dbInsert → data.bytes.length = entry.data.length → ∀ db' : DB,
      db'.chainoff = (chainOff (dbHash key.bytes) : Nat) →
      Heap.Disjoint kept (chainHeap (dbHash key.bytes) 0 table
        (before ++ entry.filled (some key.bytes) data.bytes :: after)) →
      post (.ok (0, db')) (here.owning (kept ∪ chainHeap (dbHash key.bytes) 0 table
        (before ++ entry.filled (some key.bytes) data.bytes :: after))))
    (hmoved : flag ≠ dbInsert → data.bytes.length ≠ entry.data.length →
      ∀ (new : Entry) (db' : DB) taken,
      IsChain mode.plain (dbHash key.bytes) (new :: (before ++ after)) →
      new.key = key.bytes → new.data = data.bytes →
      Heap.Disjoint kept (chainHeap (dbHash key.bytes) 0 table
        (new :: (before ++ after))) →
      db'.chainoff = (chainOff (dbHash key.bytes) : Nat) →
      post (.ok (0, db')) (here.having (kept ∪ chainHeap (dbHash key.bytes) 0 table
        (new :: (before ++ after))) taken))
    (hstranded : flag ≠ dbInsert → data.bytes.length ≠ entry.data.length →
      ∀ fault extra taken, Heap.Disjoint (kept ∪ chainHeap (dbHash key.bytes) 0 table
        (before ++ after)) extra → post (.error fault) (here.having
        (kept ∪ chainHeap (dbHash key.bytes) 0 table (before ++ after) ∪ extra) taken))
    (hblanked : flag ≠ dbInsert → data.bytes.length ≠ entry.data.length →
      ∀ free, IsFree free → Heap.Disjoint (kept ∪ chainHeap (dbHash key.bytes) 0 table
        (before ++ entry.blanked :: after)) (freeHeap free) →
      post (.error .writeIdxLength) ((here.take .free (freeHeap free)).owning
        (kept ∪ chainHeap (dbHash key.bytes) 0 table
          (before ++ entry.blanked :: after) ∪ freeHeap free)))
    (hfault : ∀ fault after, fault = .writeDatWritev ∨ fault = .writeIdxWritev →
      post (.error fault) after) :
    Wp (mode.theory actor) doom post
      (dbStoreOld (db.found (chainOff (dbHash key.bytes)) before entry
        (headOff 0 after)) key data flag (toInt (data.strlen + 1))) here := by
  have hvalid := hchain.valid entry (by simp)
  have hmax : entry.data.length + 1 ≤ datLenMax := hvalid.slot.datlen_le
  have hsize := hstorable.size
  unfold dbStoreOld
  by_cases hinsert : flag = dbInsert
  · rw [if_pos hinsert]
    exact .ret (hrefused hinsert)
  rw [if_neg hinsert]
  have hfound : (db.found (chainOff (dbHash key.bytes)) before entry
      (headOff 0 after)).datlen = entry.data.length + 1 := rfl
  rw [hfound]
  have hnow : data.now (db.found (chainOff (dbHash key.bytes)) before entry (headOff 0 after)) =
      data.toCString := (hdataAt.same rfl).now_eq
  by_cases hdatlen : toSize (toInt (data.strlen + 1)) = entry.data.length + 1
  · rw [if_neg (not_not.mpr hdatlen), hnow]
    simp only [Prog.bind_eq]
    have hsub : Heap.Sub (chainHeap (dbHash key.bytes) 0 table
        (before ++ entry :: after)) here.own := by
      rw [hown]
      exact Heap.sub_union_right hkept
    have hblockCell := @chainHeap_block (dbHash key.bytes) 0 table before after entry
      hchain.toChained
    refine Wp.seq (wp_dbWriteDat_block hreply (some key.bytes) (hsub _ _ hblockCell)
      data.noNul (length_of_toSize hdatlen.symm) ?_ hdoom rfl ?_)
    · intro _
      refine ⟨?_, entry.off, _, rfl, hsub _ _ (list_sub_chainHeap _ _ _ _ _ _
        (listHeap_slot hchain.toChained)), fun _ => congrArg some hkey.symm⟩
      intro other hother
      cases hother
      exact hstorable.storing
    intro hlen
    have hnone := hkept.symm.right_none hblockCell
    have hfill := @chainHeap_fill (dbHash key.bytes) 0 table before after entry (some key.bytes)
      data.bytes hchain.toChained hlen
    have hheap : here.own.set (.block entry.datoff)
        (.block data.bytes ⟨some key.bytes, entry.tag.slot⟩) =
        kept ∪ chainHeap (dbHash key.bytes) 0 table
          (before ++ entry.filled (some key.bytes) data.bytes :: after) := by
      rw [hown, Heap.set_union_right _ hnone, ← hfill]
      rfl
    rw [hheap]
    refine .ret (hfilled hinsert hlen _ hchainoff ?_)
    rw [← hfill]
    exact (hkept.symm.set hnone _).symm
  · rw [if_pos hdatlen]
    simp only [Prog.bind_eq]
    have hlen : data.bytes.length ≠ entry.data.length := by
      intro hlen
      refine hdatlen ?_
      unfold datLenMax at hmax
      rw [CString.strlen, toInt_of_lt (by omega), toSize_natCast (by omega), hlen]
    refine Wp.seq (wp_dbDoDelete hreply hreading hfreeHeld hown hkept hchain.toChained
      (fun hmode => hstrict hmode hinsert hlen) db ?_ (hblanked hinsert hlen))
    intro db' hchainoff' hbuf
    obtain ⟨hkeyBehind, hdataBehind⟩ := hsteady hinsert hlen
    have hblanks : (List.replicate entry.data.length space ++ [0]).length =
        entry.data.length + 1 := by simp
    have hkeyNow : ∀ db'' : DB, db''.datbuf = db'.datbuf → key.now db'' = key.toCString :=
      fun _ hsame => ((hkeyAt.overwritten hkeyBehind hblanks hbuf).same hsame).now_eq
    have hdataNow : ∀ db'' : DB, db''.datbuf = db'.datbuf → data.now db'' = data.toCString :=
      fun _ hsame => ((hdataAt.overwritten hdataBehind hblanks hbuf).same hsame).now_eq
    obtain ⟨_, hrest, _⟩ := disjoint_cut hchain.toChained hkept
    have hquiet : (here.having (kept ∪ chainHeap (dbHash key.bytes) 0 table
      (before ++ after)) (.free :: here.taken)).reply = none := hreply
    have hroot : (here.having (kept ∪ chainHeap (dbHash key.bytes) 0 table
        (before ++ after)) (.free :: here.taken)).view (.ptr (chainOff (dbHash key.bytes))) =
        some (.off (headOff 0 (before ++ after))) :=
      Heap.sub_union_left _ _ _ _ (Heap.sub_union_right hrest _ _
        (list_sub_chainHeap _ _ _ _ _ _ (listHeap_root ..)))
    simp only [Wp.follow_ok]
    rw [hchainoff', hchainoff]
    refine Wp.seq (wp_dbReadPtr hchain.remove.headOff_le (reads_ptr hquiet hroot) _ ?_)
    simp only [Wp.follow_ok, hdataNow]
    refine wp_appendRecord hquiet hreading hstorable rfl hrest hchain.remove ?_ ?_
      (hmoved hinsert hlen) ?_ hfault hdoom ?_ hdatHeld hidxHeld
    · rw [← hkey]
      exact hchain.key_ne
    · exact hchainoff'.trans hchainoff
    · intro fault extra taken hextra _
      exact hstranded hinsert hlen fault extra taken hextra
    · exact hkeyNow

end OldRecord

end ApueFormal.Database
