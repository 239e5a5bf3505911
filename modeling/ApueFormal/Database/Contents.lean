import ApueFormal.Database.Order
import ApueFormal.Database.Session

/-!
# What a database between two calls contains

When nobody holds a lock, every index record is on a hash chain or on the free
list, except for records that a failed call has left behind.  The records on
the chains are those of the map.
-/

namespace ApueFormal.Database

open Libc Program

variable {last : Nat} {entries : List Entry}

theorem mem_of_listHeap_slot {root off : Nat} {slot : Slot}
    (hcell : listHeap root last entries (.slot off) = some (.slot slot)) :
    ∃ before entry after, entries = before ++ entry :: after ∧ entry.off = off ∧
      slot = entry.slot (headOff last after) := by
  simp only [listHeap, Option.map_eq_some_iff, Val.slot.injEq, exists_eq_right] at hcell
  induction entries with
  | nil => cases hcell
  | cons entry rest ih =>
    simp only [slots] at hcell
    split at hcell
    next hoff =>
      cases hcell
      exact ⟨[], entry, rest, rfl, hoff.symm, rfl⟩
    next =>
      obtain ⟨before, entry', after, hsplit, hoff, hslot⟩ := ih hcell
      exact ⟨entry :: before, entry', after, by rw [hsplit]; rfl, hoff, hslot⟩

theorem mem_of_listHeap_block {root datoff : Nat} {data : Bytes} {tag : Tag}
    (hcell : listHeap root last entries (.block datoff) = some (.block data tag)) :
    ∃ entry ∈ entries, entry.datoff = datoff ∧ data = entry.data ∧ tag = entry.tag := by
  simp only [listHeap, Option.map_eq_some_iff, Val.block.injEq] at hcell
  obtain ⟨⟨data', tag'⟩, hblocks, rfl, rfl⟩ := hcell
  induction entries with
  | nil => cases hblocks
  | cons entry rest ih =>
    simp only [blocks] at hblocks
    split at hblocks
    next hoff =>
      cases hblocks
      exact ⟨entry, List.mem_cons_self, hoff.symm, rfl, rfl⟩
    next =>
      obtain ⟨entry', hmem, hrest⟩ := ih hblocks
      exact ⟨entry', List.mem_cons_of_mem _ hmem, hrest⟩

theorem chainHeap_slot {hash : Nat} {table : List (Bytes × Bytes)} {off : Nat} :
    chainHeap hash last table entries (.slot off) =
      listHeap (chainOff hash) last entries (.slot off) :=
  Heap.set_of_ne _ (by simp) _

/-- The entries of the hash chains and of the free list. -/
structure Stock (plain : Prop) (pool : Lock → DbHeap) where
  chain : Fin nhashDef → List Entry
  free : List Entry
  isChain : ∀ hash : Fin nhashDef, IsChain plain hash (chain hash)
  isFree : IsFree free
  poolChain : ∀ hash, pool (.chain hash) = chainHeap hash 0 (tableOf (chain hash)) (chain hash)
  poolFree : pool .free = freeHeap free

section Idle

variable {mode : Mode} {own : DbHeap} {world : World} {pool : Lock → DbHeap} {total : DbHeap}
variable (htogether : AtRest mode world own pool total)
include htogether

theorem exists_stock : Nonempty (Stock mode.plain pool) := by
  have hinv : ∀ lock, lockInv mode lock (pool lock) :=
    fun lock => htogether.inv lock fun _ => List.not_mem_nil
  choose chain hchain hpool using fun hash => hinv (.chain hash)
  obtain ⟨free, hfree, hpoolFree⟩ := hinv .free
  exact ⟨chain, free, hchain, hfree, hpool, hpoolFree⟩

variable (stock : Stock mode.plain pool)

theorem chain_sub (hash : Fin nhashDef) :
    Heap.Sub (chainHeap hash 0 (tableOf (stock.chain hash)) (stock.chain hash)) total := by
  rw [← stock.poolChain]
  exact htogether.splits.sub (.inr (.chain hash))

theorem free_sub : Heap.Sub (freeHeap stock.free) total := by
  rw [← stock.poolFree]
  exact htogether.splits.sub (.inr .free)

theorem mapOf_eq_lookup (key : Bytes) :
    mapOf world.trace key = (tableOf (stock.chain (chainOf key))).lookup key :=
  (htogether.rep.tables _ _ (chain_sub htogether stock (chainOf key) _ _
    (chainHeap_table ..)) key rfl).symm

theorem slot_cases {off : Nat} {slot : Slot} (hslot : total (.slot off) = some (.slot slot)) :
    own (.slot off) = some (.slot slot) ∨
    (∃ hash before entry after, stock.chain hash = before ++ entry :: after ∧
      entry.off = off ∧ slot = entry.slot (headOff 0 after)) ∨
    ∃ before entry after, stock.free = before ++ entry :: after ∧
      entry.off = off ∧ slot = entry.slot (headOff 0 after) := by
  obtain ⟨owner, hcell⟩ := (htogether.splits.mem _ _).mp hslot
  rcases owner with ⟨⟩ | lock
  · exact .inl hcell
  rw [Sum.elim_inr] at hcell
  cases lock with
  | chain hash =>
    rw [stock.poolChain, chainHeap_slot] at hcell
    exact .inr (.inl ⟨hash, mem_of_listHeap_slot hcell⟩)
  | free =>
    rw [stock.poolFree] at hcell
    exact .inr (.inr (mem_of_listHeap_slot hcell))
  | idxTail =>
    obtain ⟨len, hlen⟩ := htogether.inv .idxTail fun _ => List.not_mem_nil
    rw [hlen, Heap.single_apply] at hcell
    cases hcell
  | datAll =>
    obtain ⟨len, hlen⟩ := htogether.inv .datAll fun _ => List.not_mem_nil
    rw [hlen, Heap.single_apply] at hcell
    cases hcell

theorem block_cases {datoff : Nat} {data : Bytes} {tag : Tag}
    (hblock : total (.block datoff) = some (.block data tag)) :
    own (.block datoff) = some (.block data tag) ∨
    (∃ hash, ∃ entry ∈ stock.chain hash, entry.datoff = datoff ∧ entry.data = data) ∨
    ∃ entry ∈ stock.free, entry.datoff = datoff ∧ entry.data = data := by
  obtain ⟨owner, hcell⟩ := (htogether.splits.mem _ _).mp hblock
  rcases owner with ⟨⟩ | lock
  · exact .inl hcell
  rw [Sum.elim_inr] at hcell
  cases lock with
  | chain hash =>
    rw [stock.poolChain, chainHeap, Heap.set_of_ne _ (by simp)] at hcell
    obtain ⟨entry, hmem, hoff, hdata, _⟩ := mem_of_listHeap_block hcell
    exact .inr (.inl ⟨hash, entry, hmem, hoff, hdata.symm⟩)
  | free =>
    rw [stock.poolFree] at hcell
    obtain ⟨entry, hmem, hoff, hdata, _⟩ := mem_of_listHeap_block hcell
    exact .inr (.inr ⟨entry, hmem, hoff, hdata.symm⟩)
  | idxTail =>
    obtain ⟨len, hlen⟩ := htogether.inv .idxTail fun _ => List.not_mem_nil
    rw [hlen, Heap.single_apply] at hcell
    cases hcell
  | datAll =>
    obtain ⟨len, hlen⟩ := htogether.inv .datAll fun _ => List.not_mem_nil
    rw [hlen, Heap.single_apply] at hcell
    cases hcell

theorem chain_entry {hash : Fin nhashDef} {before after : List Entry} {entry : Entry}
    (hsplit : stock.chain hash = before ++ entry :: after) :
    total (.slot entry.off) = some (.slot (entry.slot (headOff 0 after))) ∧
      total (.block entry.datoff) = some (.block entry.data entry.tag) := by
  have hchained := (stock.isChain hash).toChained
  have hsub := chain_sub htogether stock hash
  rw [hsplit] at hchained hsub
  exact ⟨hsub _ _ (list_sub_chainHeap _ _ _ _ _ _ (listHeap_slot hchained)),
    hsub _ _ (chainHeap_block hchained)⟩

theorem free_entry {before after : List Entry} {entry : Entry}
    (hsplit : stock.free = before ++ entry :: after) :
    total (.slot entry.off) = some (.slot (entry.slot (headOff 0 after))) ∧
      total (.block entry.datoff) = some (.block entry.data entry.tag) := by
  have hchained := stock.isFree.toChained
  have hsub := free_sub htogether stock
  rw [hsplit] at hchained hsub
  exact ⟨hsub _ _ (listHeap_slot hchained), hsub _ _ (listHeap_block hchained)⟩

end Idle

end ApueFormal.Database
