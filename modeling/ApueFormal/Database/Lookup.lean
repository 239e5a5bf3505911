import ApueFormal.Database.Access
import ApueFormal.Database.Find

/-!
# Looking for a record

`_db_find_and_lock` takes the lock of a hash chain and walks along the chain.
`db_fetch` then reads the data of the record.
-/

namespace ApueFormal.Database

open Libc Program

variable {mode : Mode} {actor : Actor} {here : DbLocal} {doom : Fault → Prop} {entries : List Entry}

theorem readsList_of_view (hreply : here.reply = none) {root : Nat} (hchained : Chained entries)
    (hview : Heap.Sub (listHeap root 0 entries) here.view) :
    ReadsList (mode.theory actor) here entries where
  live := hreply
  slot before entry after hsplit := by
    subst hsplit
    have hvalid := hchained.valid entry (by simp)
    have hptr : headOff 0 after ≤ ptrMax :=
      hchained.append_right.tail.headOff_le
    exact reads_slot hreply (hvalid.slot_ptr hptr) (hview _ _ (listHeap_slot hchained))
  off _ hmem := hchained.off_ne_zero hmem

theorem wp_findChain {post : Except Fault (Int × DB) → DbLocal → Prop} (hreply : here.reply = none)
    {key : CString} (hchain : IsChain mode.plain (dbHash key.bytes) entries)
    (hview : Heap.Sub (listHeap (chainOff (dbHash key.bytes)) 0 entries) here.view) (db : DB)
    (hfound : ∀ before entry after, entries = before ++ entry :: after →
      entry.key = key.bytes →
      post (.ok (0, (db.opened (dbHash key.bytes)).found
        (chainOff (dbHash key.bytes)) before entry (headOff 0 after))) here)
    (hmissed : (∀ entry ∈ entries, entry.key ≠ key.bytes) →
      post (.ok (-1, (db.opened (dbHash key.bytes)).passed 0 entries)) here)
    (hbad : ¬ mode.plain → post (.error .readIdxManySeps) here) :
    Wp (mode.theory actor) doom post
      (findChain { db with
        chainoff := (chainOff (dbHash key.bytes) : Nat)
        ptroff := (chainOff (dbHash key.bytes) : Nat) } key) here := by
  exact wp_findChain_reads hchain (readsList_of_view hreply hchain.toChained hview)
    (reads_ptr hreply (hview _ _ (listHeap_root ..))) db hfound hmissed hbad

theorem chainHeap_block {hash last : Nat} {table : List (Bytes × Bytes)} {before after : List Entry}
    {entry : Entry} (hchained : Chained (before ++ entry :: after)) :
    chainHeap hash last table (before ++ entry :: after) (.block entry.datoff) =
      some (.block entry.data entry.tag) := by
  unfold chainHeap
  rw [Heap.set_of_ne _ (by simp)]
  exact listHeap_block hchained

def finished (own : DbHeap) (taken : List Lock) (reply : Reply) : DbLocal :=
  { idle own with
    taken := taken
    reply := some reply }

theorem wp_dbFetch {pid : Nat} {key : CString} {own : DbHeap}
    {post : Except Fault (Option Bytes × DB) → DbLocal → Prop} (db : DB)
    (hfound : ∀ before entry after,
      IsChain mode.plain (dbHash key.bytes) (before ++ entry :: after) →
      mode.Finds key.bytes (before ++ entry :: after) → entry.key = key.bytes →
      post (.ok (some entry.data, ((db.opened (dbHash key.bytes)).found
          (chainOff (dbHash key.bytes)) before entry (headOff 0 after)).buffered
          (entry.datoff + (entry.data.length + 1)) entry.data))
        (finished own [.chain (chainOf key.bytes)] (.data (some entry.data))))
    (hmissed : ∀ entries, IsChain mode.plain (dbHash key.bytes) entries →
      mode.Finds key.bytes entries → (∀ entry ∈ entries, entry.key ≠ key.bytes) →
      post (.ok (none, (db.opened (dbHash key.bytes)).passed 0 entries))
        (finished own [.chain (chainOf key.bytes)] (.data none)))
    (hbad : ¬ mode.plain → ∀ after, post (.error .readIdxManySeps) after) :
    Wp (mode.theory (pid, .fetch key)) doom post (dbFetch db key) (idle own) := by
  unfold dbFetch dbFindAndLock
  simp only [Prog.bind_eq]
  refine Wp.seq ?_
  rw [if_neg (by simp)]
  refine wp_readwLock (lockName_chain key.bytes) rfl rfl List.not_mem_nil ?_
  rintro part hdisj ⟨entries, hchain, rfl⟩ hassume
  have hfinds : mode.Finds key.bytes entries := (hassume List.not_mem_nil).known
  have hsub : Heap.Sub (chainHeap (dbHash key.bytes) 0 (tableOf entries) entries)
      ((idle own).look (.chain (chainOf key.bytes))
        (chainHeap (dbHash key.bytes) 0 (tableOf entries) entries)).view :=
    Heap.sub_union_right hdisj
  have hquiet : ((idle own).look (.chain (chainOf key.bytes))
      (chainHeap (dbHash key.bytes) 0 (tableOf entries) entries)).reply = none := rfl
  -- Both ways end by releasing the lock with a reply that the table confirms.
  have hdone : ∀ (found : Option Bytes) (db' : DB),
      db'.chainoff = (chainOff (dbHash key.bytes) : Nat) →
      (tableOf entries).lookup key.bytes = found → post (.ok (found, db'))
        (finished own [.chain (chainOf key.bytes)] (.data found)) →
      Wp (mode.theory (pid, .fetch key)) doom post
        ((unLock .idx db'.chainoff.toNat 1).bind fun _ => .ret (found, db'))
        ((idle own).look (.chain (chainOf key.bytes))
          (chainHeap (dbHash key.bytes) 0 (tableOf entries) entries)) := by
    intro found db' hchainoff hlookup hpost
    rw [hchainoff, Int.toNat_natCast]
    refine wp_unLock_read (lockName_chain key.bytes) rfl rfl (.data found) ?_ (.ret hpost)
    intro frame world _ hpeek hholds
    refine hholds.finish_same ?_ rfl (by simp)
    have htable := hpeek _ _ (chainHeap_table (dbHash key.bytes) 0 (tableOf entries) entries)
    have hmap := hholds.tables _ _ (Heap.sub_union_right ‹_› _ _ htable) key.bytes rfl
    change Reply.data found = .data (mapOf world.trace key.bytes)
    rw [← hmap, hlookup]
  refine wp_findChain hquiet hchain
    (fun cell value hcell => hsub cell value (list_sub_chainHeap _ _ _ _ cell value hcell))
    db ?_ ?_ ?_
  · intro before entry after hsplit hkey
    subst hsplit
    simp only [Wp.follow_ok]
    rw [if_neg (by simp)]
    refine Wp.seq (wp_dbReadDat rfl rfl
      (hchain.valid entry (by simp)).data
      (reads_block hquiet (hsub _ _ (chainHeap_block hchain.toChained))) ?_)
    refine hdone (some entry.data) _ rfl ?_ (hfound before entry after hchain hfinds hkey)
    rw [← hkey]
    exact lookup_tableOf hchain.keys
  · intro hnone
    simp only [Wp.follow_ok]
    rw [if_pos (by simp)]
    refine hdone none _ ?_ (lookup_tableOf_none hnone) (hmissed entries hchain hfinds hnone)
    exact DB.passed_chainoff ..
  · intro hnot
    exact hbad hnot _

end ApueFormal.Database
