import ApueFormal.Database.Contents
import ApueFormal.Database.Scan
import Mathlib.Data.List.OfFn
import Mathlib.Data.List.Perm.Basic

/-!
# The shape of the two files

The index file is a row of records.  The pointers at its start and in the
records link them into the hash chains and the free list, and the data of the
records make up the data file.
-/

namespace ApueFormal.Database

open Libc Program

/-- From a pointer, the index records lead to the pointer `0`. -/
inductive Follows (records : List (Nat × Slot)) : Nat → List Nat → Prop where
  | nil : Follows records 0 []
  | cons {off : Nat} {slot : Slot} {rest : List Nat} (hoff : off ≠ 0)
      (hmem : (off, slot) ∈ records) (hrest : Follows records slot.ptr rest) :
      Follows records off (off :: rest)

/-- The index records of a database in file order, and the offsets of those on
the free list and on the hash chains. -/
structure Image where
  records : List (Nat × Slot)
  free : List Nat
  chain : Fin nhashDef → List Nat

structure Image.Intact (image : Image) (files : Files) : Prop where
  /-- The records follow each other from the end of the pointers to the end of
  the file. -/
  laid : Laid files.idx firstRec image.records
  newline : files.idx[firstRec - 1]? = some newline
  noSep : ∀ off slot, (off, slot) ∈ image.records → sep ∉ slot.key
  freeList : ∃ ptr, readAt files.idx freeOff ptrSz = ptrText ptr ∧
    Follows image.records ptr image.free
  chainList : ∀ hash : Fin nhashDef, ∃ ptr, readAt files.idx (chainOff hash) ptrSz = ptrText ptr ∧
      Follows image.records ptr (image.chain hash)
  /-- Every record is on exactly one of the lists, once. -/
  once : (image.free ++ (List.ofFn image.chain).flatten).Perm (image.records.map Prod.fst)
  hashed : ∀ hash : Fin nhashDef, ∀ off slot, off ∈ image.chain hash →
    (off, slot) ∈ image.records → dbHash slot.key = hash
  distinct : ∀ hash hash' off off' slot slot', off ∈ image.chain hash →
    off' ∈ image.chain hash' → (off, slot) ∈ image.records →
    (off', slot') ∈ image.records → slot.key = slot'.key → off = off'
  deleted : ∀ off slot, off ∈ image.free → (off, slot) ∈ image.records → blank slot.key
  /-- The data of different records do not overlap. -/
  apart : ∀ off off' slot slot', (off, slot) ∈ image.records →
    (off', slot') ∈ image.records → off ≠ off' →
    slot.datoff + slot.datlen ≤ slot'.datoff ∨ slot'.datoff + slot'.datlen ≤ slot.datoff
  /-- The data file holds the data of the records and nothing else. -/
  cover : ∀ i, i < files.dat.length ↔ ∃ off slot, (off, slot) ∈ image.records ∧
    slot.datoff ≤ i ∧ i < slot.datoff + slot.datlen
  ends : ∀ off slot, (off, slot) ∈ image.records →
    files.dat[slot.datoff + slot.datlen - 1]? = some Database.newline

variable {slot : Slot} {off : Nat}

def Stock.image {plain : Prop} {pool : Lock → DbHeap} (stock : Stock plain pool)
    (records : List (Nat × Slot)) : Image where
  records := records
  free := stock.free.map Entry.off
  chain hash := (stock.chain hash).map Entry.off

section Shape

variable {mode : Mode} {world : World} {pool : Lock → DbHeap} {total : DbHeap}
variable (htogether : AtRest mode world Heap.empty pool total)
variable (stock : Stock mode.plain pool) {records : List (Nat × Slot)}
variable (hmem : ∀ off slot, (off, slot) ∈ records ↔
  total (.slot off) = some (.slot slot))

omit htogether in
include hmem in
theorem follows_entries {entries : List Entry} (hchained : Chained entries)
    (hslot : ∀ before entry after, entries = before ++ entry :: after →
      total (.slot entry.off) = some (.slot (entry.slot (headOff 0 after)))) :
    Follows records (headOff 0 entries) (entries.map Entry.off) := by
  suffices hrest : ∀ rest before, entries = before ++ rest →
      Follows records (headOff 0 rest) (rest.map Entry.off) by
    exact hrest entries [] rfl
  intro rest
  induction rest with
  | nil =>
    intro _ _
    exact .nil
  | cons entry rest ih =>
    intro before hsplit
    refine .cons (hchained.off_ne_zero (by rw [hsplit]; simp))
      ((hmem _ _).mpr (hslot before entry rest hsplit)) ?_
    exact ih (before ++ [entry]) (by rw [hsplit]; simp)

omit hmem in
include htogether in
theorem nodup_offs : (stock.free.map Entry.off ++
    (List.ofFn fun hash => (stock.chain hash).map Entry.off).flatten).Nodup := by
  have hfree : ∀ off ∈ stock.free.map Entry.off, pool .free (.slot off) ≠ none := by
    intro off hoff hnone
    rw [stock.poolFree] at hnone
    exact not_mem_of_slot hnone hoff
  have hchain : ∀ hash, ∀ off ∈ (stock.chain hash).map Entry.off,
      pool (.chain hash) (.slot off) ≠ none := by
    intro hash off hoff hnone
    rw [stock.poolChain, chainHeap_slot] at hnone
    exact not_mem_of_slot hnone hoff
  rw [List.nodup_append', List.nodup_flatten, List.pairwise_ofFn]
  refine ⟨stock.isFree.offs, ⟨?_, ?_⟩, ?_⟩
  · intro offs hoffs
    obtain ⟨hash, rfl⟩ := List.mem_ofFn.mp hoffs
    exact (stock.isChain hash).offs
  · intro hash hash' hlt off hoff hoff'
    have hne : (Sum.inr (.chain hash) : Unit ⊕ Lock) ≠ .inr (.chain hash') := by
      simpa using Fin.ne_of_lt hlt
    exact (htogether.splits.disjoint _ _ hne (.slot off)).elim (hchain hash off hoff)
      (hchain hash' off hoff')
  · intro off hoff hoff'
    obtain ⟨offs, hoffs, hmem⟩ := List.mem_flatten.mp hoff'
    obtain ⟨hash, rfl⟩ := List.mem_ofFn.mp hoffs
    have hne : (Sum.inr .free : Unit ⊕ Lock) ≠ .inr (.chain hash) := by simp
    exact (htogether.splits.disjoint _ _ hne (.slot off)).elim (hfree off hoff)
      (hchain hash off hmem)

include htogether hmem in
theorem entry_of_record (hrecord : (off, slot) ∈ records) :
    (∃ hash, ∃ entry ∈ stock.chain hash, entry.off = off ∧ slot.key = entry.key ∧
      slot.datoff = entry.datoff) ∨
    ∃ entry ∈ stock.free, entry.off = off ∧ slot.key = entry.key ∧ slot.datoff = entry.datoff := by
  rcases slot_cases htogether stock ((hmem _ _).mp hrecord) with
    hown | ⟨hash, before, entry, after, hsplit, hoff, rfl⟩ |
    ⟨before, entry, after, hsplit, hoff, rfl⟩
  · cases hown
  · exact .inl ⟨hash, entry, by rw [hsplit]; simp, hoff, rfl, rfl⟩
  · exact .inr ⟨entry, by rw [hsplit]; simp, hoff, rfl, rfl⟩

include htogether hmem

theorem perm_offs (hlaid : Laid world.files.idx firstRec records) :
    ((stock.image records).free ++ (List.ofFn (stock.image records).chain).flatten).Perm
      (records.map Prod.fst) := by
  refine (List.perm_ext_iff_of_nodup (nodup_offs htogether stock)
    (hlaid.sorted.2.imp Nat.ne_of_lt)).mpr fun off => ?_
  rw [List.mem_append, List.mem_flatten]
  constructor
  · rintro (hfree | ⟨offs, hoffs, hoff⟩)
    · obtain ⟨entry, hentry, rfl⟩ := List.mem_map.mp hfree
      obtain ⟨before, after, hsplit⟩ := List.append_of_mem hentry
      exact List.mem_map.mpr ⟨_, (hmem _ _).mpr (free_entry htogether stock hsplit).1, rfl⟩
    · obtain ⟨hash, rfl⟩ := List.mem_ofFn.mp hoffs
      obtain ⟨entry, hentry, rfl⟩ := List.mem_map.mp hoff
      obtain ⟨before, after, hsplit⟩ := List.append_of_mem hentry
      exact List.mem_map.mpr ⟨_, (hmem _ _).mpr (chain_entry htogether stock hsplit).1, rfl⟩
  · intro hoff
    obtain ⟨⟨_, slot⟩, hrecord, rfl⟩ := List.mem_map.mp hoff
    rcases entry_of_record htogether stock hmem hrecord with
      ⟨hash, entry, hentry, hoff, _⟩ | ⟨entry, hentry, hoff, _⟩
    · exact .inr ⟨_, List.mem_ofFn.mpr ⟨hash, rfl⟩, List.mem_map.mpr ⟨entry, hentry, hoff⟩⟩
    · exact .inl (List.mem_map.mpr ⟨entry, hentry, hoff⟩)

theorem record_of_chain {hash : Fin nhashDef} (hoff : off ∈ (stock.chain hash).map Entry.off)
    (hrecord : (off, slot) ∈ records) :
    ∃ entry ∈ stock.chain hash, entry.off = off ∧ slot.key = entry.key := by
  obtain ⟨entry, hentry, rfl⟩ := List.mem_map.mp hoff
  obtain ⟨before, after, hsplit⟩ := List.append_of_mem hentry
  have hslot := (chain_entry htogether stock hsplit).1
  rw [(hmem _ _).mp hrecord] at hslot
  cases Option.some.inj hslot
  exact ⟨entry, hentry, rfl, rfl⟩

theorem record_of_free (hoff : off ∈ stock.free.map Entry.off) (hrecord : (off, slot) ∈ records) :
    slot.key = [] := by
  obtain ⟨entry, hentry, rfl⟩ := List.mem_map.mp hoff
  obtain ⟨before, after, hsplit⟩ := List.append_of_mem hentry
  have hslot := (free_entry htogether stock hsplit).1
  rw [(hmem _ _).mp hrecord] at hslot
  cases Option.some.inj hslot
  exact stock.isFree.key entry hentry

theorem intact_of_good (hlaid : Laid world.files.idx firstRec records)
    (hgood : Good world.trace total) :
    (stock.image records).Intact world.files where
  laid := hlaid
  newline := htogether.rep.rep.newline
  noSep off slot hrecord := hgood.plain off slot ((hmem _ _).mp hrecord)
  freeList := by
    refine ⟨headOff 0 stock.free, ?_, ?_⟩
    · exact htogether.rep.rep.read_ptr (free_sub htogether stock _ _ (listHeap_root ..))
    · refine follows_entries hmem stock.isFree.toChained ?_
      intro before entry after hsplit
      exact (free_entry htogether stock hsplit).1
  chainList hash := by
    refine ⟨headOff 0 (stock.chain hash), ?_, ?_⟩
    · exact htogether.rep.rep.read_ptr (chain_sub htogether stock hash _ _
        (list_sub_chainHeap _ _ _ _ _ _ (listHeap_root ..)))
    · refine follows_entries hmem (stock.isChain hash).toChained ?_
      intro before entry after hsplit
      exact (chain_entry htogether stock hsplit).1
  once := perm_offs htogether stock hmem hlaid
  hashed hash off slot hoff hrecord := by
    obtain ⟨entry, hentry, _, hkey⟩ := record_of_chain htogether stock hmem hoff hrecord
    rw [hkey]
    exact (stock.isChain hash).hash entry hentry
  distinct hash hash' off off' slot slot' hoff hoff' hrecord hrecord' hkey := by
    obtain ⟨entry, hentry, rfl, hentryKey⟩ :=
      record_of_chain htogether stock hmem hoff hrecord
    obtain ⟨entry', hentry', rfl, hentryKey'⟩ :=
      record_of_chain htogether stock hmem hoff' hrecord'
    have hsame : entry.key = entry'.key := by
      rw [← hentryKey, hkey, hentryKey']
    have hhash : hash = hash' := by
      apply Fin.ext
      rw [← (stock.isChain hash).hash entry hentry, hsame,
        (stock.isChain hash').hash entry' hentry']
    subst hhash
    rw [List.inj_on_of_nodup_map (stock.isChain hash).keys hentry hentry' hsame]
  deleted off slot hoff hrecord := by
    rw [record_of_free htogether stock hmem hoff hrecord]
    rfl
  apart off off' slot slot' hrecord hrecord' hne := by
    obtain ⟨data, tag, hblock, howner, hlen, _⟩ :=
      hgood.block off slot ((hmem _ _).mp hrecord)
    obtain ⟨data', tag', hblock', howner', hlen', _⟩ :=
      hgood.block off' slot' ((hmem _ _).mp hrecord')
    have hdatoff : slot.datoff ≠ slot'.datoff := by
      intro hsame
      rw [hsame, hblock'] at hblock
      cases Option.some.inj hblock
      exact hne (Option.some.inj (howner.symm.trans howner'))
    by_contra hoverlap
    refine htogether.rep.rep.apart _ _ _ _ (by simpa using hdatoff) hblock hblock' .dat
      (max slot.datoff slot'.datoff) ⟨?_, ?_⟩ ⟨?_, ?_⟩ <;> omega
  cover i := by
    constructor
    · intro hlt
      obtain ⟨datoff, data, tag, hblock, hlow, hhigh⟩ := htogether.rep.rep.coverDat i hlt
      rcases block_cases htogether stock hblock with
        hown | ⟨hash, entry, hentry, rfl, rfl⟩ | ⟨entry, hentry, rfl, rfl⟩
      · cases hown
      · obtain ⟨before, after, hsplit⟩ := List.append_of_mem hentry
        exact ⟨_, _, (hmem _ _).mpr (chain_entry htogether stock hsplit).1, hlow, hhigh⟩
      · obtain ⟨before, after, hsplit⟩ := List.append_of_mem hentry
        exact ⟨_, _, (hmem _ _).mpr (free_entry htogether stock hsplit).1, hlow, hhigh⟩
    · rintro ⟨off, slot, hrecord, hlow, hhigh⟩
      obtain ⟨data, tag, hblock, _, hlen, _⟩ :=
        hgood.block off slot ((hmem _ _).mp hrecord)
      obtain ⟨_, _, hfits⟩ := htogether.rep.rep.agree _ _ hblock
      omega
  ends off slot hrecord := by
    obtain ⟨data, tag, hblock, _, hlen, _⟩ :=
      hgood.block off slot ((hmem _ _).mp hrecord)
    have hread := htogether.rep.rep.read_block hblock
    have hlast := readAt_getElem? world.files.dat slot.datoff (data.length + 1) data.length
    rw [hread, if_pos (Nat.lt_succ_self _), List.getElem?_concat_length] at hlast
    rw [hlen, Nat.add_succ_sub_one]
    exact hlast.symm

end Shape

/-- In a session that neither deletes nor moves a record with a nonempty key, the
files stay intact and the loops along the lists stop. -/
theorem session_intact {history : List (Call × Reply)} {db : DB} {files : Files}
    (hsession : Session Gentle history db files) :
    (∃ image : Image, image.Intact files) ∧
    (∀ db key writelock, ∃ outcome final,
      Runs os (dbFindAndLock db key writelock) files outcome final) ∧
    ∀ db keylen datlen, ∃ outcome final,
      Runs os (dbFindFree db keylen datlen) files outcome final := by
  have hsettled := hsession.settled_gentle
  refine ⟨?_, hsettled.find_stops (fun _ _ => trivial),
    hsettled.findFree_stops (fun _ _ => trivial)⟩
  obtain ⟨trace, pool, total, _, htogether⟩ := hsettled
  have hgood : Good trace total := htogether.rep.good trivial
  obtain ⟨stock⟩ := exists_stock htogether
  obtain ⟨records, hlaid, hmem⟩ := htogether.rep.rep.laid hgood.room
  exact ⟨_, intact_of_good htogether stock hmem hlaid hgood⟩

theorem session_intact_insert : ∃ history db files, Session Gentle history db files ∧
    history.length = 1 ∧ ∃ image : Image, image.Intact files := by
  obtain ⟨history, db, files, hsession, hlength⟩ := @exists_session Gentle 100
    [.store sampleKey sampleData dbInsert] (fun history _ _ => history.length == 1)
    (by
      intro call hcall map
      rw [List.mem_singleton.mp hcall]
      exact gentle_sample (steady_own _ _ _ _) rfl fun _ hinsert => absurd rfl hinsert)
    (by decide +kernel)
  exact ⟨history, db, files, hsession, by simpa using hlength,
    (session_intact hsession).1⟩

/-- After one record has been stored and deleted, the index file is no longer a
row of records. -/
theorem delete_breaks_intact : ∃ history db files, Session PlainKeys history db files ∧
    ¬ ∃ image : Image, image.Intact files := by
  obtain ⟨history, db, files, hsession, hfails⟩ := @exists_session PlainKeys 100
    [.store sampleKey sampleData dbInsert, .delete sampleKey]
    (fun _ db files => endsWith 100 (Prog.iterate nextStep (dbRewind db)) files
      (isFault fun _ _ => true))
    (by
      intro call hcall map
      simp only [List.mem_cons, List.not_mem_nil, or_false] at hcall
      rcases hcall with rfl | rfl
      · exact ⟨sampleKey, rfl, by decide, steady_own _ _ _ _⟩
      · exact ⟨sampleKey, rfl, by decide, trivial⟩)
    (by decide +kernel)
  refine ⟨history, db, files, hsession, ?_⟩
  rintro ⟨image, hintact⟩
  -- The loop of `db_nextrec` does not end in a fault on a row of records.
  have hwp := @wp_nextLoop files (fun _ => False) (fun outcome _ => ∃ value, outcome = .ok value)
    (dbRewind db) image.records hintact.laid
    (fun record hmem => hintact.noSep record.1 record.2 hmem)
    (fun _ _ _ _ _ _ _ _ _ => ⟨_, rfl⟩) (fun _ _ _ => ⟨_, rfl⟩)
  obtain ⟨outcome, final, hruns, value, rfl⟩ := hwp.runs
  obtain ⟨fault, final', hruns', _⟩ := runs_fault hfails
  cases (hruns.unique hruns').1

end ApueFormal.Database
