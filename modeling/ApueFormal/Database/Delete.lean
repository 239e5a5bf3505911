import ApueFormal.Database.Append
import ApueFormal.Database.Lookup

/-!
# Deleting a record

`_db_dodelete` blanks the data of a record, moves its index record to the head
of the free list and takes it out of its chain.  The key that it prints into
the index buffer is the index buffer itself, so the index record is left with
an empty key and with less text than room.
-/

namespace ApueFormal.Database

open Libc Program

variable {mode : Mode} {actor : Actor} {here : DbLocal} {doom : Fault → Prop}

def Entry.blanked (entry : Entry) : Entry :=
  entry.filled none (List.replicate entry.data.length space)

def Entry.erased (entry : Entry) : Entry := { entry.blanked with key := [] }

theorem Entry.length_erased_text (entry : Entry) (ptr ptr' : Nat) :
    (entry.erased.slot ptr).text.length + entry.key.length = (entry.slot ptr').text.length := by
  simp only [Slot.length_text, Entry.erased, Entry.blanked, Entry.filled, Entry.slot,
    List.length_replicate, List.length_nil]
  omega

variable {entry : Entry} {hash : Nat} {table : List (Bytes × Bytes)}
  {before after free : List Entry} {kept : DbHeap}

theorem Entry.Valid.erased_slot (hvalid : entry.Valid) {ptr : Nat} (hptr : ptr ≤ ptrMax)
    (hlong : ¬ (entry.erased.slot ptr).text.length < idxLenMin) :
    (entry.erased.slot ptr).Valid := by
  have htext := entry.length_erased_text ptr 0
  have hmax := hvalid.slot.text_max
  refine ⟨hptr, by simp [Entry.erased, Entry.slot], hvalid.slot.datoff, Nat.succ_pos _, ?_,
    by omega, by omega, ?_⟩
  · have hmax := hvalid.slot.datlen_le
    simpa [Entry.erased, Entry.blanked, Entry.filled, Entry.slot] using hmax
  · exact Nat.le_trans (Nat.le_of_add_right_le (Nat.le_of_eq htext)) hvalid.slot.room

theorem IsFree.push (hfree : IsFree free) (hchained : Chained (before ++ entry :: after))
    {ptr : Nat} (hslot : (entry.erased.slot ptr).Valid)
    (hdisj : Heap.Disjoint (chainHeap hash 0 table (before ++ entry :: after)) (freeHeap free)) :
    IsFree (entry.erased :: free) := by
  have hvalid := hchained.valid entry (by simp)
  have hslotCell := list_sub_chainHeap hash 0 table _ _ _
    (@listHeap_slot entry 0 (chainOff hash) before after hchained)
  refine ⟨hfree.toChained.cons ⟨hvalid.off_ge, hvalid.off_le,
    Entry.slot_valid hslot (Nat.zero_le _), ?_⟩ (not_mem_of_slot (hdisj.right_none hslotCell))
    (not_mem_of_block (hdisj.right_none (chainHeap_block hchained))), ?_⟩
  · simp [Entry.erased, Entry.blanked, Entry.filled, space]
  · exact List.forall_mem_cons.mpr ⟨rfl, hfree.key⟩

variable {post : Except Fault DB → DbLocal → Prop}

theorem wp_dbWritePtr_relink (hreply : here.reply = none) {root last new : Nat}
    {entries : List Entry} (hchained : Chained entries) (hnew : new ≤ ptrMax)
    (hown : Heap.Sub (listHeap root last entries) here.own) (db : DB)
    (hpost : post (.ok { db with idxpos := prevOff root entries + ptrSz })
      (here.owning (here.own.set (linkCell root entries) (linkVal entries new)))) :
    Wp (mode.theory actor) doom post
      (dbWritePtr db (prevOff root entries : Nat) new) here := by
  rcases List.eq_nil_or_concat entries with rfl | ⟨entries, entry, rfl⟩
  · exact wp_dbWritePtr hnew (gives_write_ptr hreply
      (hown _ _ (listHeap_root root last [])) hnew) db hpost
  · rw [List.concat_eq_append] at hchained hown hpost ⊢
    rw [prevOff_snoc] at hpost ⊢
    rw [linkCell_snoc, linkVal_snoc] at hpost
    exact wp_dbWritePtr hnew (gives_write_slotPtr hreply
      (hown _ _ (listHeap_slot hchained)) hnew) db hpost

section

variable (hchained : Chained (before ++ entry :: after))
include hchained

theorem linkCell_ne_entry {root : Nat} : linkCell root before ≠ .slot entry.off := by
  rcases List.eq_nil_or_concat before with rfl | ⟨before, last, rfl⟩
  · simp
  · rw [List.concat_eq_append] at hchained ⊢
    rw [linkCell_snoc]
    intro heq
    refine hchained.apart.1 ?_
    rw [← Cell.slot.inj heq]
    simp

omit hchained in
theorem links_erase (entry : Entry) (ptr ptr' : Nat) :
    ((links ptr [entry]).set (.block entry.datoff)
        (.block entry.erased.data entry.erased.tag)).set (.slot entry.off)
        (.slot (entry.erased.slot ptr')) = links ptr' [entry.erased] := by
  have hdata : (links ptr [entry]).set (.block entry.datoff)
      (.block entry.erased.data entry.erased.tag) = links ptr [entry.blanked] :=
    @links_set_block entry _ entry.blanked rfl rfl rfl rfl (by simp [Entry.blanked, Entry.filled])
  rw [hdata]
  exact @links_set_slot entry.blanked _ entry.erased _ rfl rfl rfl rfl

section

variable (hkept : Heap.Disjoint kept (chainHeap hash 0 table (before ++ entry :: after)))
include hkept

theorem disjoint_cut : kept (linkCell (chainOff hash) before) = none ∧
      Heap.Disjoint kept (chainHeap hash 0 table (before ++ after)) ∧
      Heap.Disjoint kept (links (headOff 0 after) [entry]) := by
  -- The link cell belongs to the chain.
  have hlink : chainHeap hash 0 table (before ++ entry :: after)
      (linkCell (chainOff hash) before) = some (linkVal before entry.off) := by
    refine list_sub_chainHeap _ _ _ _ _ _ ?_
    rw [listHeap_append]
    exact Heap.sub_union_left _ _ _ _ (listHeap_link hchained.append_left)
  have hnone := hkept.symm.right_none hlink
  have hcut := (hkept.symm.set hnone (linkVal before (headOff 0 after))).symm
  rw [chainHeap_cut hchained, Heap.disjoint_union_right] at hcut
  exact ⟨hnone, hcut⟩

variable
  (hfree : Heap.Disjoint (kept ∪ chainHeap hash 0 table (before ++ entry :: after)) (freeHeap free))
include hfree

theorem delete_heap : ((((kept ∪ chainHeap hash 0 table (before ++ entry :: after) ∪
        freeHeap free).set (.block entry.datoff)
          (.block entry.erased.data entry.erased.tag)).set (.slot entry.off)
          (.slot (entry.erased.slot (headOff 0 free)))).set (.ptr freeOff)
          (.off entry.off)).set (linkCell (chainOff hash) before)
          (linkVal before (headOff 0 after)) = (kept ∪ chainHeap hash 0 table (before ++ after)) ∪
        freeHeap (entry.erased :: free) ∧
    Heap.Disjoint (kept ∪ chainHeap hash 0 table (before ++ after))
      (freeHeap (entry.erased :: free)) := by
  obtain ⟨hkeptFree, hchainFree⟩ := Heap.disjoint_union_left.mp hfree
  -- Taking the entry out of the chain leaves three disjoint parts.
  obtain ⟨hkeptLink, hkeptRest, hkeptEntry⟩ := disjoint_cut hchained hkept
  obtain ⟨_, hrestFree, hentryFree⟩ := disjoint_cut hchained hchainFree.symm
  have hrestEntry : Heap.Disjoint (chainHeap hash 0 table (before ++ after))
      (links (headOff 0 after) [entry]) := by
    obtain ⟨hone, htwo, hthree, hfour⟩ := hchained.apart
    refine chainHeap_disjoint ?_ ?_
    · simpa using ⟨by simpa using hone, by simpa using htwo⟩
    · simpa using ⟨by simpa using hthree, by simpa using hfour⟩
  have hleftEntry : Heap.Disjoint (kept ∪ chainHeap hash 0 table (before ++ after))
      (links (headOff 0 after) [entry]) :=
    Heap.disjoint_union_left.mpr ⟨hkeptEntry, hrestEntry⟩
  have hleftFree : Heap.Disjoint (kept ∪ chainHeap hash 0 table (before ++ after))
      (freeHeap free) := Heap.disjoint_union_left.mpr ⟨hkeptFree, hrestFree.symm⟩
  have hblockCell := links_block (headOff 0 after) entry
  have hslotCell := links_slot (headOff 0 after) entry
  have hrootCell : freeHeap free (.ptr freeOff) = some (.off (headOff 0 free)) :=
    listHeap_root ..
  have hleftBlock := hleftEntry.symm.right_none hblockCell
  have hleftSlot := hleftEntry.symm.right_none hslotCell
  have hleftRoot := hleftFree.symm.right_none hrootCell
  have herasedLeft : Heap.Disjoint (kept ∪ chainHeap hash 0 table (before ++ after))
      (links (headOff 0 free) [entry.erased]) := by
    rw [← links_erase entry (headOff 0 after) (headOff 0 free)]
    exact ((hleftEntry.symm.set hleftBlock _).set hleftSlot _).symm
  have herasedFree : Heap.Disjoint (links (headOff 0 free) [entry.erased]) (freeHeap free) := by
    rw [← links_erase entry (headOff 0 after) (headOff 0 free)]
    exact (hentryFree.symm.set (hentryFree.symm.right_none hblockCell) _).set
      (hentryFree.symm.right_none hslotCell) _
  have hpush : freeHeap (entry.erased :: free) =
      (freeHeap free).set (.ptr freeOff) (.off entry.off) ∪
        links (headOff 0 free) [entry.erased] := by
    exact (@listHeap_push freeOff free entry.erased
      (not_mem_of_slot (hentryFree.symm.right_none hslotCell))
      (not_mem_of_block (hentryFree.symm.right_none hblockCell))).symm
  constructor
  · have hneRoot : Cell.ptr freeOff ≠ linkCell (chainOff hash) before := by
      unfold linkCell
      split <;> simp [freeOff, chainOff, hashOff, ptrSz]
    have hneBlock : Cell.block entry.datoff ≠ linkCell (chainOff hash) before := by
      unfold linkCell
      split <;> simp
    have hstart : (kept ∪ chainHeap hash 0 table (before ++ entry :: after) ∪
        freeHeap free).set (linkCell (chainOff hash) before)
          (linkVal before (headOff 0 after)) = (kept ∪ chainHeap hash 0 table (before ++ after)) ∪
          (links (headOff 0 after) [entry] ∪ freeHeap free) := by
      rw [← Heap.set_union, Heap.set_union_right _ hkeptLink, chainHeap_cut hchained]
      simp only [Heap.union_assoc]
    rw [Heap.set_comm _ hneRoot, Heap.set_comm _ (Ne.symm (linkCell_ne_entry hchained)),
      Heap.set_comm _ hneBlock, hstart, Heap.set_union_right _ hleftBlock,
      Heap.set_union_right _ hleftSlot, Heap.set_union_right _ hleftRoot,
      ← Heap.set_union, ← Heap.set_union, links_erase, Heap.set_union_right _ rfl, hpush]
    congr 1
    exact Heap.union_comm (herasedFree.symm.set rfl _).symm
  · rw [hpush, Heap.disjoint_union_right]
    exact ⟨(hleftFree.symm.set hleftRoot _).symm, herasedLeft⟩

theorem blank_heap : (kept ∪ chainHeap hash 0 table (before ++ entry :: after) ∪ freeHeap free).set
        (.block entry.datoff) (.block entry.erased.data entry.erased.tag) =
      kept ∪ chainHeap hash 0 table (before ++ entry.blanked :: after) ∪ freeHeap free ∧
    Heap.Disjoint (kept ∪ chainHeap hash 0 table (before ++ entry.blanked :: after))
      (freeHeap free) := by
  have hblock := @chainHeap_block hash 0 table before after entry hchained
  have hfill := @chainHeap_fill hash 0 table before after entry none
    (List.replicate entry.data.length space) hchained (List.length_replicate ..)
  obtain ⟨hkeptFree, hchainFree⟩ := Heap.disjoint_union_left.mp hfree
  rw [Entry.blanked, ← hfill]
  constructor
  · rw [← Heap.set_union, Heap.set_union_right _ (hkept.symm.right_none hblock)]
    rfl
  · exact Heap.disjoint_union_left.mpr ⟨hkeptFree,
      hchainFree.set (hchainFree.right_none hblock) _⟩

end

theorem front_sub {head : Nat} {own : DbHeap}
    (hown : Heap.Sub (chainHeap hash 0 table (before ++ entry :: after)) own) (data : Val)
    (slot : Val) :
    Heap.Sub (listHeap (chainOff hash) entry.off before)
      (((own.set (.block entry.datoff) data).set (.slot entry.off) slot).set (.ptr freeOff)
        (.off head)) := by
  obtain ⟨hoff, _, hdatoff, _⟩ := hchained.apart
  have hpart : Heap.Sub (listHeap (chainOff hash) entry.off before) own := by
    refine Heap.Sub.trans ?_ hown
    refine Heap.Sub.trans ?_ (list_sub_chainHeap _ _ _ _)
    rw [listHeap_append]
    exact Heap.sub_union_left _ _
  refine ((hpart.set ?_ _).set ?_ _).set ?_ _
  · simp [listHeap, blocks_eq_none.mpr hdatoff]
  · simp [listHeap, slots_eq_none.mpr hoff]
  · simp [listHeap, freeOff, chainOff, hashOff, ptrSz]

end

/-- `_db_dodelete` moves the entry from its chain to the free list. -/
theorem wp_dbDoDelete (hreply : here.reply = none) (hreading : here.reading = none)
    (hheld : Lock.free ∉ here.held)
    (hown : here.own = kept ∪ chainHeap hash 0 table (before ++ entry :: after))
    (hkept : Heap.Disjoint kept (chainHeap hash 0 table (before ++ entry :: after)))
    (hchained : Chained (before ++ entry :: after)) (hstrict : mode.strict → entry.key = [])
    (db : DB) (hpost : ∀ db' : DB, db'.chainoff = db.chainoff →
      db'.datbuf = writeAt db.datbuf 0 (List.replicate entry.data.length space ++ [0]) →
      post (.ok db') { here with
      own := kept ∪ chainHeap hash 0 table (before ++ after)
      taken := .free :: here.taken })
    (hfault : ∀ free, IsFree free → Heap.Disjoint (kept ∪ chainHeap hash 0 table
      (before ++ entry.blanked :: after)) (freeHeap free) →
      post (.error .writeIdxLength) ((here.take .free (freeHeap free)).owning
        (kept ∪ chainHeap hash 0 table (before ++ entry.blanked :: after) ∪
          freeHeap free))) :
    Wp (mode.theory actor) doom post
      (dbDoDelete (db.found (chainOff hash) before entry (headOff 0 after))) here := by
  have hvalid := hchained.valid entry (by simp)
  unfold dbDoDelete
  simp only [Prog.bind_eq]
  refine wp_writewLock lockName_free hreply hreading hheld ?_
  rintro part hdisj ⟨free, hfree, rfl⟩ _
  have hstart : (here.take .free (freeHeap free)).own =
      kept ∪ chainHeap hash 0 table (before ++ entry :: after) ∪ freeHeap free := by
    rw [← hown]
    rfl
  rw [hown] at hdisj
  have hchainSub : Heap.Sub (chainHeap hash 0 table (before ++ entry :: after))
      (here.take .free (freeHeap free)).own := by
    rw [hstart]
    exact (Heap.sub_union_right hkept).trans (Heap.sub_union_left _ _)
  have hfreeSub : Heap.Sub (freeHeap free) (here.take .free (freeHeap free)).own := by
    rw [hstart]
    exact Heap.sub_union_right hdisj
  have hslotCell := hchainSub _ _ (list_sub_chainHeap _ _ _ _ _ _
    (@listHeap_slot entry 0 (chainOff hash) before after hchained))
  have hblockCell := hchainSub _ _ (chainHeap_block hchained)
  have hrootCell := hfreeSub _ _ (listHeap_root freeOff 0 free)
  have hquiet : ∀ own, ((here.take .free (freeHeap free)).owning own).reply = none :=
    fun _ => hreply
  -- The data is overwritten with blanks.
  have hblank : (mode.theory actor).Gives
      (Sys.write .dat entry.datoff (entry.erased.data ++ [newline]))
      (here.take .free (freeHeap free)) ((entry.erased.data.length + 1 : Nat) : Int)
      ((here.take .free (freeHeap free)).owning
        ((here.take .free (freeHeap free)).own.set (.block entry.datoff)
          (.block entry.erased.data entry.erased.tag))) := by
    have hlen : entry.erased.data.length = entry.data.length := by
      simp [Entry.erased, Entry.blanked, Entry.filled]
    refine gives_write_block (hquiet _) none hblockCell ?_ hlen ?_ ?_
    · simp [Entry.erased, Entry.blanked, Entry.filled, space]
    · have hmax : entry.data.length + 1 ≤ datLenMax := hvalid.slot.datlen_le
      unfold datLenMax at hmax
      unfold rwMax
      omega
    · intro hmode
      refine ⟨by simp, entry.off, _, rfl, hslotCell, ?_⟩
      intro hkey
      exact absurd (hstrict hmode) hkey
  have hdata : cstr (writeAt db.datbuf 0 (List.replicate entry.data.length space ++ [0])) =
      entry.erased.data := cstr_writeAt _ (by simp [space])
  change Wp _ _ _ ((dbWriteDat _ (cstr (writeAt db.datbuf 0 (List.replicate entry.data.length
    space ++ [0]))) _ _).bind _) _
  rw [hdata]
  refine Wp.seq (wp_dbWriteDat hblank _ ?_)
  simp only [Wp.follow_ok]
  generalize hown₁ : (here.take .free (freeHeap free)).own.set (.block entry.datoff)
    (.block entry.erased.data entry.erased.tag) = own₁
  have hroot₁ : own₁ (.ptr freeOff) = some (.off (headOff 0 free)) := by
    rw [← hown₁, Heap.set_of_ne _ (by simp)]
    exact hrootCell
  refine Wp.seq (wp_dbReadPtr hfree.headOff_le
    (reads_ptr (hquiet own₁) (Local.view_owning _ hroot₁)) _ ?_)
  simp only [Wp.follow_ok]
  -- The index record is rewritten with an empty key.
  by_cases hshort : (entry.erased.slot (headOff 0 free)).text.length < idxLenMin
  · refine Wp.seq ?_
    rw [dbWriteIdx_bad _ _ _ _ hfree.headOff_le]
    · obtain ⟨hheap, hblanked⟩ := blank_heap hchained hkept hdisj
      rw [← hown₁, hstart, hheap]
      exact .fail (hfault free hfree hblanked)
    · exact .inl hshort
  have herased := hvalid.erased_slot hfree.headOff_le hshort
  have hslot₁ : own₁ (.slot entry.off) = some (.slot (entry.slot (headOff 0 after))) := by
    rw [← hown₁, Heap.set_of_ne _ (by simp)]
    exact hslotCell
  refine Wp.seq (wp_dbWriteIdx herased rfl rfl rfl
    (gives_write_slot (hquiet own₁) hslot₁ herased rfl ?_) ?_)
  · intro hmode
    have hkey := hstrict hmode
    simp [Entry.erased, Entry.blanked, Entry.filled, Entry.slot, hkey]
  simp only [Wp.follow_ok, Local.owning_own, Local.owning_owning]
  -- The free list pointer, and then the pointer to the deleted record.
  generalize hown₂ : own₁.set (.slot entry.off) (.slot (entry.erased.slot (headOff 0 free))) = own₂
  have hroot₂ : own₂ (.ptr freeOff) = some (.off (headOff 0 free)) := by
    rw [← hown₂, Heap.set_of_ne _ (by simp)]
    exact hroot₁
  refine Wp.seq (wp_dbWritePtr hvalid.off_le
    (gives_write_ptr (hquiet own₂) hroot₂ hvalid.off_le) _ ?_)
  simp only [Wp.follow_ok, Local.owning_own, Local.owning_owning]
  generalize hown₃ : own₂.set (.ptr freeOff) (.off entry.off) = own₃
  have hfront : Heap.Sub (listHeap (chainOff hash) entry.off before) own₃ := by
    rw [← hown₃, ← hown₂, ← hown₁]
    exact front_sub hchained hchainSub _ _
  have hptr : headOff 0 after ≤ ptrMax := hchained.append_right.tail.headOff_le
  refine Wp.seq (wp_dbWritePtr_relink (hquiet own₃) hchained.append_left hptr hfront _ ?_)
  simp only [Wp.follow_ok, Local.owning_own, Local.owning_owning]
  have hfinal := delete_heap hchained hkept hdisj
  refine wp_unLock lockName_free hreply hreading rfl
    (kept ∪ chainHeap hash 0 table (before ++ after))
    (freeHeap (entry.erased :: free)) ?_ hfinal.2 ⟨_, ?_, rfl⟩ (.ret (hpost _ rfl rfl))
  · rw [← hfinal.1, ← hstart]
    change own₃.set _ _ = _
    rw [← hown₃, ← hown₂, ← hown₁]
  · exact hfree.push hchained herased (Heap.disjoint_union_left.mp hdisj).2

end ApueFormal.Database
