import ApueFormal.Database.Layout
import Mathlib.Data.List.Nodup

/-!
# Linked lists of index records

The hash chains and the free list are linked lists of slots.  Each slot refers
to one block of the data file.  An entry is such a slot with its block; the
chain pointer of an entry is the offset of the entry after it.
-/

namespace ApueFormal.Database

open Libc Program

structure Entry where
  off : Nat
  key : Bytes
  datoff : Nat
  data : Bytes
  room : Nat
  /-- The key of the store that wrote the data. -/
  writer : Option Bytes

variable {entry : Entry} {ptr : Nat}

namespace Entry

def slot (entry : Entry) (ptr : Nat) : Slot where
  ptr := ptr
  key := entry.key
  datoff := entry.datoff
  datlen := entry.data.length + 1
  room := entry.room

def tag (entry : Entry) : Tag := ⟨entry.writer, some entry.off⟩

theorem slot_valid {ptr' : Nat} (hvalid : (entry.slot ptr).Valid) (hptr : ptr' ≤ ptrMax) :
    (entry.slot ptr').Valid :=
  ⟨hptr, hvalid.key, hvalid.datoff, hvalid.datlen_pos, hvalid.datlen_le,
    hvalid.text_min, hvalid.text_max, hvalid.room⟩

structure Valid (entry : Entry) : Prop where
  off_ge : firstRec ≤ entry.off
  off_le : entry.off ≤ ptrMax
  slot : (entry.slot 0).Valid
  data : (0 : Byte) ∉ entry.data

theorem Valid.slot_ptr (hvalid : entry.Valid) (hptr : ptr ≤ ptrMax) : (entry.slot ptr).Valid :=
  slot_valid hvalid.slot hptr

end Entry

/-- The offset of the first entry, or the pointer that ends the list. -/
def headOff (last : Nat) : List Entry → Nat
  | [] => last
  | entry :: _ => entry.off

/-- The place of the pointer behind a list: its last entry, or its root. -/
def prevOff (root : Nat) (entries : List Entry) : Nat :=
  (entries.getLast?.map Entry.off).getD root

def slots (last : Nat) : List Entry → Nat → Option Slot
  | [], _ => none
  | entry :: rest, off =>
    if off = entry.off then some (entry.slot (headOff last rest))
    else slots last rest off

def blocks : List Entry → Nat → Option (Bytes × Tag)
  | [], _ => none
  | entry :: rest, off =>
    if off = entry.datoff then some (entry.data, entry.tag)
    else blocks rest off

/-- The cells of a list whose root is a pointer field of the header. -/
def listHeap (root last : Nat) (entries : List Entry) : DbHeap
  | .ptr off => if off = root then some (.off (headOff last entries)) else none
  | .slot off => (slots last entries off).map .slot
  | .block off => (blocks entries off).map fun block => .block block.1 block.2
  | _ => none

@[simp] theorem headOff_nil (last : Nat) : headOff last [] = last := rfl

@[simp] theorem headOff_cons (last : Nat) (entry : Entry) (rest : List Entry) :
    headOff last (entry :: rest) = entry.off := rfl

theorem headOff_append (last : Nat) (first second : List Entry) :
    headOff last (first ++ second) = headOff (headOff last second) first := by
  cases first <;> rfl

@[simp] theorem prevOff_nil (root : Nat) : prevOff root [] = root := rfl

@[simp] theorem prevOff_snoc (root : Nat) (entries : List Entry) (entry : Entry) :
    prevOff root (entries ++ [entry]) = entry.off := by
  simp [prevOff]

theorem slots_append (last : Nat) (first second : List Entry) (off : Nat) :
    slots last (first ++ second) off =
      (slots (headOff last second) first off).or (slots last second off) := by
  induction first with
  | nil => simp [slots]
  | cons entry rest ih =>
    simp only [List.cons_append, slots, headOff_append, ih]
    split <;> simp

theorem blocks_append (first second : List Entry) (off : Nat) :
    blocks (first ++ second) off = (blocks first off).or (blocks second off) := by
  induction first with
  | nil => simp [blocks]
  | cons entry rest ih =>
    simp only [List.cons_append, blocks, ih]
    split <;> simp

variable {entries : List Entry} {last off : Nat}

theorem slots_eq_none : slots last entries off = none ↔ off ∉ entries.map Entry.off := by
  induction entries with
  | nil => simp [slots]
  | cons entry rest ih =>
    by_cases hoff : off = entry.off
    · simp [slots, hoff]
    · simp [slots, hoff, ih]

theorem blocks_eq_none : blocks entries off = none ↔ off ∉ entries.map Entry.datoff := by
  induction entries with
  | nil => simp [blocks]
  | cons entry rest ih =>
    by_cases hoff : off = entry.datoff
    · simp [blocks, hoff]
    · simp [blocks, hoff, ih]

/-- The cells of different entries do not overlap. -/
structure Chained (entries : List Entry) : Prop where
  valid : ∀ entry ∈ entries, entry.Valid
  offs : (entries.map Entry.off).Nodup
  datoffs : (entries.map Entry.datoff).Nodup

namespace Chained

variable {pre post : List Entry}

theorem nil : Chained [] := ⟨by simp, by simp, by simp⟩

theorem headOff_le (hchained : Chained entries) : headOff 0 entries ≤ ptrMax := by
  cases entries with
  | nil => exact Nat.zero_le _
  | cons entry rest => exact (hchained.valid entry List.mem_cons_self).off_le

theorem off_ne_zero (hchained : Chained entries) (hmem : entry ∈ entries) : entry.off ≠ 0 := by
  have hge := (hchained.valid entry hmem).off_ge
  unfold firstRec at hge
  omega

theorem append_left (hchained : Chained (pre ++ post)) : Chained pre := by
  obtain ⟨hvalid, hoffs, hdatoffs⟩ := hchained
  rw [List.map_append] at hoffs hdatoffs
  exact ⟨fun other hmem => hvalid other (List.mem_append_left _ hmem),
    (List.nodup_append.mp hoffs).1, (List.nodup_append.mp hdatoffs).1⟩

theorem append_right (hchained : Chained (pre ++ post)) : Chained post := by
  obtain ⟨hvalid, hoffs, hdatoffs⟩ := hchained
  rw [List.map_append] at hoffs hdatoffs
  exact ⟨fun other hmem => hvalid other (List.mem_append_right _ hmem),
    (List.nodup_append.mp hoffs).2.1, (List.nodup_append.mp hdatoffs).2.1⟩

theorem apart (hchained : Chained (pre ++ entry :: post)) :
    entry.off ∉ pre.map Entry.off ∧ entry.off ∉ post.map Entry.off ∧
      entry.datoff ∉ pre.map Entry.datoff ∧ entry.datoff ∉ post.map Entry.datoff := by
  have hoffs := hchained.offs
  have hdatoffs := hchained.datoffs
  simp only [List.map_append, List.map_cons, List.nodup_append, List.nodup_cons,
    List.mem_cons, ne_eq] at hoffs hdatoffs
  refine ⟨fun hmem => hoffs.2.2 _ hmem _ (.inl rfl) rfl, hoffs.2.1.1,
    fun hmem => hdatoffs.2.2 _ hmem _ (.inl rfl) rfl, hdatoffs.2.1.1⟩

theorem tail (hchained : Chained (entry :: post)) : Chained post :=
  @append_right [entry] post hchained

theorem remove (hchained : Chained (pre ++ entry :: post)) : Chained (pre ++ post) := by
  obtain ⟨hvalid, hoffs, hdatoffs⟩ := hchained
  refine ⟨fun other hmem => hvalid other ?_, ?_, ?_⟩
  · rw [List.mem_append] at hmem
    rw [List.mem_append, List.mem_cons]
    exact hmem.imp id .inr
  · rw [List.map_append, List.map_cons] at hoffs
    rw [List.map_append]
    exact hoffs.sublist (List.Sublist.append_left (List.sublist_cons_self ..) _)
  · rw [List.map_append, List.map_cons] at hdatoffs
    rw [List.map_append]
    exact hdatoffs.sublist (List.Sublist.append_left (List.sublist_cons_self ..) _)

theorem cons {entries : List Entry} (hchained : Chained entries) (hvalid : entry.Valid)
    (hoff : entry.off ∉ entries.map Entry.off) (hdatoff : entry.datoff ∉ entries.map Entry.datoff) :
    Chained (entry :: entries) := by
  refine ⟨?_, ?_, ?_⟩
  · intro other hmem
    rcases List.mem_cons.mp hmem with rfl | hmem
    · exact hvalid
    · exact hchained.valid other hmem
  · rw [List.map_cons, List.nodup_cons]
    exact ⟨hoff, hchained.offs⟩
  · rw [List.map_cons, List.nodup_cons]
    exact ⟨hdatoff, hchained.datoffs⟩

end Chained

variable {root : Nat}

section Reading

variable {pre post : List Entry}

theorem listHeap_root (root last : Nat) (entries : List Entry) :
    listHeap root last entries (.ptr root) = some (.off (headOff last entries)) := by
  simp [listHeap]

theorem listHeap_slot (hchained : Chained (pre ++ entry :: post)) :
    listHeap root last (pre ++ entry :: post) (.slot entry.off) =
      some (.slot (entry.slot (headOff last post))) := by
  have hnone : slots (headOff last (entry :: post)) pre entry.off = none :=
    slots_eq_none.mpr hchained.apart.1
  simp only [listHeap, slots_append, hnone]
  simp [slots]

theorem listHeap_block (hchained : Chained (pre ++ entry :: post)) :
    listHeap root last (pre ++ entry :: post) (.block entry.datoff) =
      some (.block entry.data entry.tag) := by
  have hnone : blocks pre entry.datoff = none :=
    blocks_eq_none.mpr hchained.apart.2.2.1
  simp only [listHeap, blocks_append, hnone]
  simp [blocks]

theorem not_mem_of_slot (hnone : listHeap root last entries (.slot off) = none) :
    off ∉ entries.map Entry.off :=
  slots_eq_none.mp (Option.map_eq_none_iff.mp hnone)

theorem not_mem_of_block (hnone : listHeap root last entries (.block off) = none) :
    off ∉ entries.map Entry.datoff :=
  blocks_eq_none.mp (Option.map_eq_none_iff.mp hnone)

end Reading

/-! ## Changing a list -/

def linkCell (root : Nat) (entries : List Entry) : Cell :=
  match entries.getLast? with
  | none => .ptr root
  | some entry => .slot entry.off

def linkVal (entries : List Entry) (new : Nat) : Val :=
  match entries.getLast? with
  | none => .off new
  | some entry => .slot (entry.slot new)

@[simp] theorem linkCell_nil (root : Nat) : linkCell root [] = .ptr root := rfl

@[simp] theorem linkCell_snoc (root : Nat) (entries : List Entry) (entry : Entry) :
    linkCell root (entries ++ [entry]) = .slot entry.off := by
  simp [linkCell]

@[simp] theorem linkVal_nil (new : Nat) : linkVal [] new = .off new := rfl

@[simp] theorem linkVal_snoc (entries : List Entry) (entry : Entry) (new : Nat) :
    linkVal (entries ++ [entry]) new = .slot (entry.slot new) := by
  simp [linkVal]

def links (last : Nat) (entries : List Entry) : DbHeap
  | .slot off => (slots last entries off).map .slot
  | .block off => (blocks entries off).map fun block => .block block.1 block.2
  | _ => none

theorem links_slot (ptr : Nat) (entry : Entry) :
    links ptr [entry] (.slot entry.off) = some (.slot (entry.slot ptr)) := by
  simp [links, slots]

theorem links_block (ptr : Nat) (entry : Entry) :
    links ptr [entry] (.block entry.datoff) = some (.block entry.data entry.tag) := by
  simp [links, blocks]

theorem listHeap_append (root last : Nat) (first second : List Entry) :
    listHeap root last (first ++ second) =
      listHeap root (headOff last second) first ∪ links last second := by
  funext cell
  cases cell with
  | ptr off => by_cases hoff : off = root <;> simp [listHeap, links, headOff_append, hoff]
  | slot off => simp [listHeap, links, slots_append, Option.map_or]
  | block off => simp [listHeap, links, blocks_append, Option.map_or]
  | _ => rfl

theorem links_cons (last : Nat) (entry : Entry) (rest : List Entry) :
    links last (entry :: rest) = links (headOff last rest) [entry] ∪ links last rest := by
  funext cell
  cases cell with
  | slot off => by_cases hoff : off = entry.off <;> simp [links, slots, hoff]
  | block off => by_cases hoff : off = entry.datoff <;> simp [links, blocks, hoff]
  | _ => rfl

theorem listHeap_link (hchained : Chained entries) :
    listHeap root last entries (linkCell root entries) = some (linkVal entries last) := by
  rcases List.eq_nil_or_concat entries with rfl | ⟨entries, entry, rfl⟩
  · exact listHeap_root root last []
  · rw [List.concat_eq_append] at hchained ⊢
    rw [linkCell_snoc, linkVal_snoc]
    exact listHeap_slot hchained

theorem listHeap_relink {root last new : Nat} {entries : List Entry} (hchained : Chained entries) :
    (listHeap root last entries).set (linkCell root entries)
      (linkVal entries new) = listHeap root new entries := by
  rcases List.eq_nil_or_concat entries with rfl | ⟨entries, entry, rfl⟩
  · funext cell
    cases cell with
    | ptr off => by_cases hoff : off = root <;> simp [listHeap, hoff]
    | _ => simp [listHeap, slots, blocks]
  · rw [List.concat_eq_append] at hchained ⊢
    have hnone : slots entry.off entries entry.off = none :=
      slots_eq_none.mpr hchained.apart.1
    rw [linkCell_snoc, linkVal_snoc]
    funext cell
    cases cell with
    | slot off =>
      by_cases hoff : off = entry.off
      · subst hoff
        simp [listHeap, slots_append, hnone, slots]
      · simp [listHeap, slots_append, slots, hoff]
    | ptr off => simp [listHeap, headOff_append]
    | _ => simp [listHeap]

section

variable (hoff : entry.off ∉ entries.map Entry.off)
  (hdatoff : entry.datoff ∉ entries.map Entry.datoff)
include hoff hdatoff

theorem links_disjoint {ptr' : Nat} : Heap.Disjoint (links ptr [entry]) (links ptr' entries) := by
  intro cell
  cases cell with
  | slot off =>
    by_cases hsame : off = entry.off
    · subst hsame
      right
      simp [links, slots_eq_none.mpr hoff]
    · left
      simp [links, slots, hsame]
  | block off =>
    by_cases hsame : off = entry.datoff
    · subst hsame
      right
      simp [links, blocks_eq_none.mpr hdatoff]
    · left
      simp [links, blocks, hsame]
  | _ => exact .inl rfl

theorem listHeap_disjoint : Heap.Disjoint (listHeap root last entries) (links ptr [entry]) := by
  rw [← List.nil_append entries, listHeap_append, Heap.disjoint_union_left]
  refine ⟨?_, (links_disjoint hoff hdatoff).symm⟩
  intro cell
  cases cell with
  | ptr off => exact .inr rfl
  | _ => exact .inl rfl

end

theorem listHeap_cut {before after : List Entry} (hchained : Chained (before ++ entry :: after)) :
    (listHeap root last (before ++ entry :: after)).set (linkCell root before)
        (linkVal before (headOff last after)) =
      listHeap root last (before ++ after) ∪ links (headOff last after) [entry] := by
  obtain ⟨_, hoff, _, hdatoff⟩ := hchained.apart
  rw [listHeap_append, ← Heap.set_union, listHeap_relink hchained.append_left,
    links_cons, Heap.union_comm (links_disjoint hoff hdatoff),
    ← Heap.union_assoc, ← listHeap_append]

theorem listHeap_push {root : Nat} {entries : List Entry} {entry : Entry}
    (hoff : entry.off ∉ entries.map Entry.off) (hdatoff : entry.datoff ∉ entries.map Entry.datoff) :
    (listHeap root 0 entries).set (.ptr root) (.off entry.off) ∪ links (headOff 0 entries) [entry] =
      listHeap root 0 (entry :: entries) := by
  have hlist := listHeap_append root 0 [] entries
  have hnew := listHeap_append root 0 [] (entry :: entries)
  rw [List.nil_append] at hlist hnew
  have hroot : (listHeap root (headOff 0 entries) []).set (.ptr root)
      (.off entry.off) = listHeap root entry.off [] :=
    @listHeap_relink root _ entry.off [] Chained.nil
  rw [hlist, hnew, ← Heap.set_union, hroot, links_cons 0 entry entries,
    Heap.union_assoc, Heap.union_comm (links_disjoint hoff hdatoff).symm]
  rfl

section Single

variable {new : Entry} {ptr' : Nat}

theorem links_set_block (hoff : new.off = entry.off) (hkey : new.key = entry.key)
    (hdatoff : new.datoff = entry.datoff) (hroom : new.room = entry.room)
    (hlen : new.data.length = entry.data.length) :
    (links ptr [entry]).set (.block entry.datoff) (.block new.data new.tag) = links ptr [new] := by
  funext cell
  cases cell with
  | slot off => simp [links, slots, Entry.slot, hoff, hkey, hdatoff, hroom, hlen]
  | block off =>
    by_cases hsame : off = entry.datoff <;>
      simp [links, blocks, hdatoff, hsame]
  | _ => rfl

theorem links_set_slot (hoff : new.off = entry.off) (hdatoff : new.datoff = entry.datoff)
    (hdata : new.data = entry.data) (hwriter : new.writer = entry.writer) :
    (links ptr [entry]).set (.slot entry.off) (.slot (new.slot ptr')) = links ptr' [new] := by
  funext cell
  cases cell with
  | slot off =>
    by_cases hsame : off = entry.off <;> simp [links, slots, hoff, hsame]
  | block off => simp [links, blocks, Entry.tag, hoff, hdatoff, hdata, hwriter]
  | _ => rfl

end Single

/-! ## The lists of the database -/

def tableOf (entries : List Entry) : List (Bytes × Bytes) :=
  entries.map fun entry => (entry.key, entry.data)

theorem lookup_pair (key other data : Bytes) (table : List (Bytes × Bytes)) :
    ((other, data) :: table).lookup key = if key = other then some data else table.lookup key := by
  rw [List.lookup_cons]
  by_cases hkey : key = other
  · simp [hkey]
  · have hbeq : (key == other) = false := by simpa using hkey
    simp [hkey, hbeq]

theorem lookup_tableOf {before after : List Entry} {entry : Entry}
    (hkeys : ((before ++ entry :: after).map Entry.key).Nodup) :
    (tableOf (before ++ entry :: after)).lookup entry.key = some entry.data := by
  induction before with
  | nil => simp [tableOf]
  | cons first before ih =>
    rw [List.cons_append, List.map_cons, List.nodup_cons] at hkeys
    have hne : entry.key ≠ first.key := by
      intro heq
      refine hkeys.1 (List.mem_map.mpr ⟨entry, ?_, heq⟩)
      simp
    have hrest := ih hkeys.2
    simp only [tableOf, List.cons_append, List.map_cons, lookup_pair] at hrest ⊢
    rw [if_neg hne]
    exact hrest

theorem lookup_tableOf_ne {before after : List Entry} {entry : Entry} {key : Bytes}
    (hne : key ≠ entry.key) :
    (tableOf (before ++ entry :: after)).lookup key = (tableOf (before ++ after)).lookup key := by
  induction before with
  | nil => simp [tableOf, lookup_pair, hne]
  | cons first before ih =>
    simp only [tableOf, List.cons_append, List.map_cons, lookup_pair] at ih ⊢
    rw [ih]

variable {before after : List Entry} {hash : Nat} {table : List (Bytes × Bytes)}

theorem lookup_tableOf_none {key : Bytes} (hnone : ∀ entry ∈ entries, entry.key ≠ key) :
    (tableOf entries).lookup key = none := by
  induction entries with
  | nil => rfl
  | cons first entries ih =>
    have hfirst := hnone first List.mem_cons_self
    have hrest := ih fun entry hmem => hnone entry (List.mem_cons_of_mem _ hmem)
    simp only [tableOf, List.map_cons, lookup_pair] at hrest ⊢
    rw [if_neg (Ne.symm hfirst)]
    exact hrest

/-- A hash chain: its list and its content as the users see it. -/
def chainHeap (hash last : Nat) (table : List (Bytes × Bytes)) (entries : List Entry) : DbHeap :=
  (listHeap (chainOff hash) last entries).set (.table hash) (.table table)

theorem chainHeap_disjoint (hoff : entry.off ∉ entries.map Entry.off)
    (hdatoff : entry.datoff ∉ entries.map Entry.datoff) :
    Heap.Disjoint (chainHeap hash last table entries) (links ptr [entry]) :=
  (listHeap_disjoint hoff hdatoff).set rfl _

theorem chainHeap_cut (hchained : Chained (before ++ entry :: after)) :
    (chainHeap hash last table (before ++ entry :: after)).set
        (linkCell (chainOff hash) before) (linkVal before (headOff last after)) =
      chainHeap hash last table (before ++ after) ∪ links (headOff last after) [entry] := by
  have hne : Cell.table hash ≠ linkCell (chainOff hash) before := by
    unfold linkCell
    split <;> simp
  rw [chainHeap, Heap.set_comm _ hne, listHeap_cut hchained, ← Heap.set_union]
  rfl

theorem chainHeap_push (hoff : entry.off ∉ entries.map Entry.off)
    (hdatoff : entry.datoff ∉ entries.map Entry.datoff) :
    (chainHeap hash 0 table entries).set (.ptr (chainOff hash)) (.off entry.off) ∪
        links (headOff 0 entries) [entry] = chainHeap hash 0 table (entry :: entries) := by
  rw [chainHeap, Heap.set_comm _ (by simp), Heap.set_union,
    listHeap_push hoff hdatoff]
  rfl

theorem chainHeap_table (hash last : Nat) (table : List (Bytes × Bytes)) (entries : List Entry) :
    chainHeap hash last table entries (.table hash) = some (.table table) :=
  Heap.set_self ..

theorem list_sub_chainHeap (hash last : Nat) (table : List (Bytes × Bytes)) (entries : List Entry) :
    Heap.Sub (listHeap (chainOff hash) last entries) (chainHeap hash last table entries) := by
  intro cell value hcell
  unfold chainHeap
  rw [Heap.set_of_ne]
  · exact hcell
  · rintro rfl
    cases hcell

def freeHeap (entries : List Entry) : DbHeap := listHeap freeOff 0 entries

/-- The entries of a hash chain.  On a database without separators in keys every
entry can be read back. -/
structure IsChain (plain : Prop) (hash : Nat) (entries : List Entry) : Prop
    extends Chained entries where
  hash : ∀ entry ∈ entries, dbHash entry.key = hash
  keys : (entries.map Entry.key).Nodup
  noSep : plain → ∀ entry ∈ entries, sep ∉ entry.key

variable {plain : Prop}

theorem IsChain.remove (hchain : IsChain plain hash (before ++ entry :: after)) :
    IsChain plain hash (before ++ after) where
  toChained := hchain.toChained.remove
  hash := by
    have hhash := hchain.hash
    rw [List.forall_mem_append, List.forall_mem_cons] at hhash
    rw [List.forall_mem_append]
    exact ⟨hhash.1, hhash.2.2⟩
  keys := by
    have hkeys := hchain.keys
    rw [List.map_append, List.map_cons] at hkeys
    rw [List.map_append]
    exact hkeys.sublist (List.Sublist.append_left (List.sublist_cons_self ..) _)
  noSep hplain := by
    have hnoSep := hchain.noSep hplain
    rw [List.forall_mem_append, List.forall_mem_cons] at hnoSep
    rw [List.forall_mem_append]
    exact ⟨hnoSep.1, hnoSep.2.2⟩

theorem IsChain.key_ne (hchain : IsChain plain hash (before ++ entry :: after)) :
    ∀ other ∈ before ++ after, other.key ≠ entry.key := by
  have hkeys := hchain.keys
  rw [List.map_append, List.map_cons, List.nodup_middle, List.nodup_cons,
    ← List.map_append] at hkeys
  intro other hmem heq
  exact hkeys.1 (List.mem_map.mpr ⟨other, hmem, heq⟩)

/-- The entries of the free list: `_db_dodelete` leaves an empty key. -/
structure IsFree (entries : List Entry) : Prop extends Chained entries where
  key : ∀ entry ∈ entries, entry.key = []

def Entry.filled (entry : Entry) (writer : Option Bytes) (data : Bytes) : Entry :=
  { entry with
    data := data
    writer := writer }

variable {data : Bytes}

theorem Entry.slot_filled (writer : Option Bytes) (hlen : data.length = entry.data.length)
    (ptr : Nat) : (entry.filled writer data).slot ptr = entry.slot ptr := by
  simp [Entry.filled, Entry.slot, hlen]

theorem Entry.Valid.filled (hvalid : entry.Valid) (writer : Option Bytes)
    (hlen : data.length = entry.data.length) (hnul : (0 : Byte) ∉ data) :
    (entry.filled writer data).Valid :=
  ⟨hvalid.off_ge, hvalid.off_le, slot_filled writer hlen 0 ▸ hvalid.slot, hnul⟩

theorem chainHeap_fill {hash last : Nat} {table : List (Bytes × Bytes)} {before after : List Entry}
    {entry : Entry} {writer : Option Bytes} {data : Bytes}
    (hchained : Chained (before ++ entry :: after)) (hlen : data.length = entry.data.length) :
    (chainHeap hash last table (before ++ entry :: after)).set (.block entry.datoff)
        (.block data ⟨writer, some entry.off⟩) =
      chainHeap hash last table (before ++ entry.filled writer data :: after) := by
  have hbefore : blocks before entry.datoff = none :=
    blocks_eq_none.mpr hchained.apart.2.2.1
  unfold chainHeap
  rw [Heap.set_comm _ (by simp)]
  congr 1
  funext cell
  cases cell with
  | ptr off => simp [listHeap, headOff_append, Entry.filled]
  | slot off =>
    simp only [ne_eq, reduceCtorEq, not_false_eq_true, Heap.set_of_ne, listHeap,
      slots_append, slots, Entry.slot_filled writer hlen]
    rfl
  | block off =>
    by_cases hoff : off = entry.datoff
    · subst hoff
      simp [listHeap, blocks_append, hbefore, blocks, Entry.filled, Entry.tag]
    · simp [listHeap, blocks_append, blocks, hoff, Entry.filled]
  | _ => simp [listHeap]

theorem IsChain.fill (hchain : IsChain plain hash (before ++ entry :: after))
    (writer : Option Bytes) (hlen : data.length = entry.data.length) (hnul : (0 : Byte) ∉ data) :
    IsChain plain hash (before ++ entry.filled writer data :: after) where
  valid := by
    have hvalid := hchain.valid
    rw [List.forall_mem_append, List.forall_mem_cons] at hvalid ⊢
    obtain ⟨hbefore, hentry, hafter⟩ := hvalid
    exact ⟨hbefore, hentry.filled writer hlen hnul, hafter⟩
  offs := by simpa [Entry.filled] using hchain.offs
  datoffs := by simpa [Entry.filled] using hchain.datoffs
  hash := by
    have hhash := hchain.hash
    rw [List.forall_mem_append, List.forall_mem_cons] at hhash ⊢
    exact hhash
  keys := by simpa [Entry.filled] using hchain.keys
  noSep hplain := by
    have hnoSep := hchain.noSep hplain
    rw [List.forall_mem_append, List.forall_mem_cons] at hnoSep ⊢
    exact hnoSep

end ApueFormal.Database
