import ApueFormal.Database.Delete

/-!
# Reusing a deleted record

`_db_findfree` looks for a free record of the right sizes and takes it out of
the free list.  Only records with an empty key are ever on that list.
-/

namespace ApueFormal.Database

open Libc Program

variable {mode : Mode} {actor : Actor} {here : DbLocal} {doom : Fault → Prop} {entry : Entry}

section

variable {before after : List Entry} (hfree : IsFree (before ++ entry :: after))
include hfree

theorem IsFree.remove :
    IsFree (before ++ after) where
  toChained := hfree.toChained.remove
  key other hmem := by
    refine hfree.key other ?_
    rw [List.mem_append] at hmem
    rw [List.mem_append, List.mem_cons]
    exact hmem.imp id .inr

theorem freeHeap_link :
    freeHeap (before ++ entry :: after) (linkCell freeOff before) =
      some (linkVal before entry.off) := by
  rw [freeHeap, listHeap_append]
  exact Heap.sub_union_left _ _ _ _ (listHeap_link hfree.toChained.append_left)

theorem cut_beside {kept : DbHeap}
    (hdisj : Heap.Disjoint kept (freeHeap (before ++ entry :: after))) :
    (kept ∪ freeHeap (before ++ entry :: after)).set (linkCell freeOff before)
        (linkVal before (headOff 0 after)) =
      kept ∪ links (headOff 0 after) [entry] ∪ freeHeap (before ++ after) ∧
    Heap.Disjoint kept (links (headOff 0 after) [entry]) ∧
    Heap.Disjoint (kept ∪ links (headOff 0 after) [entry]) (freeHeap (before ++ after)) := by
  have hchained := hfree.toChained
  have hnone := hdisj.symm.right_none (freeHeap_link hfree)
  have hcut : Heap.Disjoint kept (freeHeap (before ++ after) ∪
      links (headOff 0 after) [entry]) := by
    rw [freeHeap, ← listHeap_cut hchained]
    exact (hdisj.symm.set hnone _).symm
  obtain ⟨hrest, hentry⟩ := Heap.disjoint_union_right.mp hcut
  have hparts : Heap.Disjoint (freeHeap (before ++ after)) (links (headOff 0 after) [entry]) := by
    obtain ⟨hone, htwo, hthree, hfour⟩ := hchained.apart
    refine listHeap_disjoint ?_ ?_
    · simpa using ⟨by simpa using hone, by simpa using htwo⟩
    · simpa using ⟨by simpa using hthree, by simpa using hfour⟩
  refine ⟨?_, hentry, Heap.disjoint_union_left.mpr ⟨hrest, hparts.symm⟩⟩
  rw [Heap.set_union_right _ hnone, freeHeap, listHeap_cut hchained, ← freeHeap,
    Heap.union_comm hparts, Heap.union_assoc]

end

/-- `_db_findfree` hands over the cells of the record that it has found. -/
theorem wp_dbFindFree {post : Except Fault (Int × DB) → DbLocal → Prop} (hreply : here.reply = none)
    (hreading : here.reading = none) (hheld : Lock.free ∉ here.held) {keylen datlen : Int} (db : DB)
    (hfound : ∀ (entry : Entry) (ptr : Nat) (db' : DB), entry.Valid →
      entry.key = [] → entry.Fits keylen datlen →
      Heap.Disjoint here.own (links ptr [entry]) → db'.datoff = entry.datoff →
      db'.idxoff = entry.off → db'.chainoff = db.chainoff →
      post (.ok (0, db')) { here with
        own := here.own ∪ links ptr [entry]
        taken := .free :: here.taken })
    (hmissed : ∀ db' : DB, db'.chainoff = db.chainoff →
      post (.ok (-1, db')) { here with taken := .free :: here.taken }) :
    Wp (mode.theory actor) doom post (dbFindFree db keylen datlen) here := by
  unfold dbFindFree
  simp only [Prog.bind_eq]
  refine wp_writewLock lockName_free hreply hreading hheld ?_
  rintro part hdisj ⟨free, hfree, rfl⟩ _
  have hquiet : (here.take .free (freeHeap free)).reply = none := hreply
  have hfreeSub : Heap.Sub (freeHeap free) (here.take .free (freeHeap free)).own :=
    Heap.sub_union_right hdisj
  have hview : Heap.Sub (freeHeap free) (here.take .free (freeHeap free)).view :=
    hfreeSub.trans (Heap.sub_union_left _ _)
  refine Wp.seq (wp_dbReadPtr hfree.headOff_le
    (reads_ptr hquiet (hview _ _ (listHeap_root freeOff 0 free))) _ ?_)
  simp only [Wp.follow_ok]
  refine Wp.seq (wp_findFreeLoop (readsList_of_view hquiet hfree.toChained hview)
    ?_ ?_ ?_)
  · intro entry hmem
    rw [hfree.key entry hmem]
    exact List.not_mem_nil
  · intro before entry after hsplit hfits
    subst hsplit
    have hchained := hfree.toChained
    have hvalid := hchained.valid entry (by simp)
    have hne : entry.off ≠ 0 := hchained.off_ne_zero (by simp)
    have hptr : headOff 0 after ≤ ptrMax := hchained.append_right.tail.headOff_le
    have hfront : Heap.Sub (listHeap freeOff entry.off before)
        (freeHeap (before ++ entry :: after)) := by
      rw [freeHeap, listHeap_append]
      exact Heap.sub_union_left _ _
    obtain ⟨hheap, hentry, hrest⟩ := cut_beside hfree hdisj
    simp only [Wp.follow_ok]
    rw [if_neg (by omega)]
    refine Wp.seq (wp_dbWritePtr_relink hquiet hchained.append_left hptr
      (hfront.trans hfreeSub) _ ?_)
    simp only [Wp.follow_ok]
    exact wp_unLock lockName_free hreply hreading rfl
      (here.own ∪ links (headOff 0 after) [entry]) (freeHeap (before ++ after)) hheap hrest
      ⟨_, hfree.remove, rfl⟩
      (.ret (hfound entry _ _ hvalid (hfree.key entry (by simp)) hfits hentry rfl rfl rfl))
  · intro _
    simp only [Wp.follow_ok]
    rw [if_pos trivial]
    exact wp_unLock lockName_free hreply hreading rfl here.own (freeHeap free) rfl
      hdisj ⟨_, hfree, rfl⟩ (.ret (hmissed _ (DB.walked_chainoff ..)))

end ApueFormal.Database
