import ApueFormal.Database.Lists
import ApueFormal.Database.Spec

/-!
# The database files and the history of their users

`Holds` relates the files and the history to the heap of cells.  In the strict
mode it also says that the index file can be scanned record by record while
other processes work on it.
-/

namespace ApueFormal.Database

open Libc Program

/-- The files, and the calls and writes that led to them. -/
structure World where
  files : Files
  trace : Trace

abbrev Actor := Nat × Call

namespace World

def note (actor : Actor) (trace : Trace) : Sys → Trace
  | .write fd pos bytes =>
    trace ++ [.remark actor.1 actor.2 (.write fd pos bytes)]
  | _ => trace

def exec (actor : Actor) : Machine sysSig World := fun op world =>
  ((os op world.files).1, ⟨(os op world.files).2, note actor world.trace op⟩)

def finish (actor : Actor) (reply : Reply) (world : World) : World :=
  { world with trace := world.trace ++ [.reply actor.1 actor.2 reply] }

end World

theorem completed_exec (actor : Actor) (op : Sys) (world : World) :
    completed (World.exec actor op world).2.trace = completed world.trace := by
  cases op with
  | write fd pos bytes =>
    change completed (world.trace ++ [.remark _ _ _]) = _
    rw [completed_append, completed_remark, List.append_nil]
  | _ => rfl

/-! ## What a scan relies on -/

/-- A `db_store` of this key and data wrote the data at this offset. -/
def Written (trace : Trace) (datoff : Nat) (key data : Bytes) : Prop :=
  ∃ pid, ∃ ckey cdata : Arg, ∃ flag, Event.remark pid (.store ckey cdata flag)
      (.write .dat datoff (data ++ [newline])) ∈ trace ∧ ckey.bytes = key ∧ cdata.bytes = data

/-- A `db_store` of this key wrote the index record at this offset, with the
place of its data. -/
def Indexed (trace : Trace) (off : Nat) (key : Bytes) (datoff : Nat) : Prop :=
  ∃ pid, ∃ ckey cdata : Arg, ∃ flag, ∃ slot : Slot,
    Event.remark pid (.store ckey cdata flag) (.write .idx off slot.bytes) ∈ trace ∧
    ckey.bytes = key ∧ slot.key = key ∧ slot.datoff = datoff

/-- Every record that a scan has returned was written by a `db_store`. -/
def Scans (trace : Trace) : Prop :=
  ∀ before after pid key data, ∀ idxoff datoff : Int,
    trace = before ++ .reply pid .nextrec (.record key data idxoff datoff) :: after →
    ∃ off place : Nat, idxoff = off ∧ datoff = place ∧
      Written before place key data ∧ Indexed before off key place

/-- An index record starts or the index file ends at this offset. -/
def Boundary (total : DbHeap) (pos : Nat) : Prop :=
  pos = firstRec ∨ ∃ off slot, total (.slot off) = some (.slot slot) ∧
    off + (ptrSz + idxLenSz) + slot.room = pos

/-- The block of an index record is in the data file. -/
def HasBlock (total : DbHeap) (off : Nat) (slot : Slot) : Prop :=
  ∃ data tag, total (.block slot.datoff) = some (.block data tag) ∧
    tag.slot = some off ∧ slot.datlen = data.length + 1 ∧
    (slot.key ≠ [] → tag.writer = some slot.key)

/-- A scan stands between two records, the record that it is reading keeps its key
and its data offset, and the data that it has read was written for that key. -/
def Standing (trace : Trace) (total : DbHeap) (pos : Nat) (current : Option (Nat × Slot))
    (data : Option Bytes) : Prop :=
  Boundary total pos ∧ ∀ off slot, current = some (off, slot) →
    (∃ ptr, total (.slot off) = some (.slot { slot with ptr := ptr })) ∧
      ∀ bytes, data = some bytes → Written trace slot.datoff slot.key bytes

/-- Every index record fills its room and names its data, and every scan stands
between two records. -/
structure Good (trace : Trace) (total : DbHeap) : Prop where
  room : ∀ off slot, total (.slot off) = some (.slot slot) → slot.room = slot.text.length
  plain : ∀ off slot, total (.slot off) = some (.slot slot) → sep ∉ slot.key
  indexed : ∀ off slot, total (.slot off) = some (.slot slot) →
    Indexed trace off slot.key slot.datoff
  block : ∀ off slot, total (.slot off) = some (.slot slot) → HasBlock total off slot
  written : ∀ datoff data tag key, total (.block datoff) = some (.block data tag) →
    tag.writer = some key → Written trace datoff key data
  cursor : ∀ pid pos current data, total (.cursor pid) = some (.mark pos current data) →
    Standing trace total pos current data
  scans : Scans trace

variable {trace : Trace} {datoff : Nat} {data : Bytes}

theorem Written.append {key : Bytes} (hwritten : Written trace datoff key data) (more : Trace) :
    Written (trace ++ more) datoff key data := by
  obtain ⟨pid, ckey, cdata, flag, hmem, hkey, hdata⟩ := hwritten
  exact ⟨pid, ckey, cdata, flag, List.mem_append_left _ hmem, hkey, hdata⟩

variable {off : Nat}

theorem Indexed.append {key : Bytes} (hindexed : Indexed trace off key datoff) (more : Trace) :
    Indexed (trace ++ more) off key datoff := by
  obtain ⟨pid, ckey, cdata, flag, slot, hmem, hrest⟩ := hindexed
  exact ⟨pid, ckey, cdata, flag, slot, List.mem_append_left _ hmem, hrest⟩

theorem Standing.append {total : DbHeap} {pos : Nat} {current : Option (Nat × Slot)}
    {data : Option Bytes} (hstanding : Standing trace total pos current data) (more : Trace) :
    Standing (trace ++ more) total pos current data := by
  refine ⟨hstanding.1, fun off slot heq => ?_⟩
  obtain ⟨hslot, hwritten⟩ := hstanding.2 off slot heq
  exact ⟨hslot, fun bytes hdata => (hwritten bytes hdata).append more⟩

variable {total' : DbHeap}

theorem Standing.update {total : DbHeap} {pos : Nat} {current : Option (Nat × Slot)}
    {data : Option Bytes} (hstanding : Standing trace total pos current data)
    (hkeep : ∀ off slot, total (.slot off) = some (.slot slot) →
      ∃ ptr, total' (.slot off) = some (.slot { slot with ptr := ptr })) :
    Standing trace total' pos current data := by
  obtain ⟨hboundary, hcurrent⟩ := hstanding
  refine ⟨hboundary.imp id ?_, ?_⟩
  · rintro ⟨off, slot, hcell, hpos⟩
    obtain ⟨ptr, hptr⟩ := hkeep off slot hcell
    exact ⟨off, _, hptr, hpos⟩
  · intro off slot heq
    obtain ⟨⟨ptr, hptr⟩, hwritten⟩ := hcurrent off slot heq
    exact ⟨hkeep off { slot with ptr := ptr } hptr, hwritten⟩

theorem Scans.snoc (hscans : Scans trace) (event : DbEvent)
    (hlast : ∀ pid key data, ∀ idxoff datoff : Int,
      event = .reply pid .nextrec (.record key data idxoff datoff) →
      ∃ off place : Nat, idxoff = off ∧ datoff = place ∧
        Written trace place key data ∧ Indexed trace off key place) :
    Scans (trace ++ [event]) := by
  intro before after pid key data idxoff datoff heq
  rcases List.eq_nil_or_concat after with rfl | ⟨after, last, rfl⟩
  · obtain ⟨rfl, hevent⟩ := List.append_inj' heq rfl
    exact hlast pid key data idxoff datoff (List.cons.inj hevent).1
  · rw [List.concat_eq_append, ← List.cons_append, ← List.append_assoc] at heq
    exact hscans before after pid key data idxoff datoff (List.append_inj' heq rfl).1

namespace Good

variable {total : DbHeap}
variable (hgood : Good trace total)
include hgood

theorem append (more : Trace) (hscans : Scans (trace ++ more)) : Good (trace ++ more) total where
  room := hgood.room
  plain := hgood.plain
  indexed off slot hslot := (hgood.indexed off slot hslot).append more
  block := hgood.block
  written datoff data tag key hblock hwriter :=
    (hgood.written datoff data tag key hblock hwriter).append more
  cursor pid pos current data hcell := (hgood.cursor pid pos current data hcell).append more
  scans := hscans

/-- Index records keep all but their chain pointers, and new ones are good. -/
theorem update (hslot : ∀ off slot, total' (.slot off) = some (.slot slot) →
      (∃ ptr, total (.slot off) = some (.slot { slot with ptr := ptr })) ∨
      slot.room = slot.text.length ∧ sep ∉ slot.key ∧
        Indexed trace off slot.key slot.datoff)
    (hkeep : ∀ off slot, total (.slot off) = some (.slot slot) →
      ∃ ptr, total' (.slot off) = some (.slot { slot with ptr := ptr }))
    (hblock : ∀ off slot, total' (.slot off) = some (.slot slot) → HasBlock total' off slot)
    (hwritten : ∀ datoff data tag key,
      total' (.block datoff) = some (.block data tag) →
      tag.writer = some key → Written trace datoff key data)
    (hcursor : ∀ pid, total' (.cursor pid) = total (.cursor pid)) :
    Good trace total' where
  room off slot hcell := by
    rcases hslot off slot hcell with ⟨ptr, hold⟩ | ⟨hroom, _⟩
    · exact hgood.room off { slot with ptr := ptr } hold
    · exact hroom
  plain off slot hcell := by
    rcases hslot off slot hcell with ⟨ptr, hold⟩ | ⟨_, hplain, _⟩
    · exact hgood.plain off { slot with ptr := ptr } hold
    · exact hplain
  indexed off slot hcell := by
    rcases hslot off slot hcell with ⟨ptr, hold⟩ | ⟨_, _, hindexed⟩
    · exact hgood.indexed off { slot with ptr := ptr } hold
    · exact hindexed
  block := hblock
  written := hwritten
  cursor pid pos current data hcell :=
    (hgood.cursor pid pos current data ((hcursor pid).symm.trans hcell)).update hkeep
  scans := hgood.scans

theorem changeBlocks (hslot : ∀ off, total' (.slot off) = total (.slot off))
    (hcursor : ∀ pid, total' (.cursor pid) = total (.cursor pid))
    (hblock : ∀ off slot, total (.slot off) = some (.slot slot) → HasBlock total' off slot)
    (hwritten : ∀ datoff data tag key,
      total' (.block datoff) = some (.block data tag) →
      tag.writer = some key → Written trace datoff key data) : Good trace total' :=
  hgood.update (fun off slot hcell => .inl ⟨slot.ptr, (hslot off).symm.trans hcell⟩)
    (fun off slot hcell => ⟨slot.ptr, (hslot off).trans hcell⟩)
    (fun off slot hcell => hblock off slot ((hslot off).symm.trans hcell)) hwritten hcursor

theorem congr (hslot : ∀ off, total' (.slot off) = total (.slot off))
    (hblock : ∀ off, total' (.block off) = total (.block off))
    (hcursor : ∀ pid, total' (.cursor pid) = total (.cursor pid)) : Good trace total' := by
  refine hgood.changeBlocks hslot hcursor (fun off slot hcell => ?_)
    fun datoff data tag key hcell =>
      hgood.written datoff data tag key ((hblock datoff).symm.trans hcell)
  obtain ⟨data, tag, hdata, hrest⟩ := hgood.block off slot hcell
  exact ⟨data, tag, (hblock _).trans hdata, hrest⟩

theorem set_slotPtr {slot : Slot} (ptr : Nat) (hcell : total (.slot off) = some (.slot slot)) :
    Good trace (total.set (.slot off) (.slot { slot with ptr := ptr })) := by
  have hblocks : ∀ datoff, total.set (.slot off) (.slot { slot with ptr := ptr }) (.block datoff) =
        total (.block datoff) := by
    intro datoff
    rw [Heap.set_of_ne _ (by simp)]
  have hback : ∀ other slot', total.set (.slot off) (.slot { slot with ptr := ptr }) (.slot other) =
        some (.slot slot') →
      ∃ old, total (.slot other) = some (.slot { slot' with ptr := old }) := by
    intro other slot' hslot
    rcases Heap.set_eq_some hslot with ⟨hother, hnew⟩ | ⟨_, hold⟩
    · cases hother
      cases hnew
      exact ⟨slot.ptr, hcell⟩
    · exact ⟨slot'.ptr, hold⟩
  refine hgood.update (fun other slot' hslot => .inl (hback other slot' hslot)) ?_ ?_ ?_ ?_
  · intro other slot' hslot
    by_cases hother : other = off
    · subst hother
      rw [hcell] at hslot
      cases Option.some.inj hslot
      exact ⟨ptr, Heap.set_self ..⟩
    · refine ⟨slot'.ptr, ?_⟩
      rw [Heap.set_of_ne _ (by simpa using hother)]
      exact hslot
  · intro other slot' hslot
    obtain ⟨old, hold⟩ := hback other slot' hslot
    obtain ⟨data, tag, hdata, hrest⟩ := hgood.block other _ hold
    exact ⟨data, tag, (hblocks _).trans hdata, hrest⟩
  · intro datoff data tag key hblock
    exact hgood.written datoff data tag key ((hblocks datoff).symm.trans hblock)
  · intro pid
    rw [Heap.set_of_ne _ (by simp)]

theorem set_block {old new : Bytes} {tag tag' : Tag}
    (hcell : total (.block datoff) = some (.block old tag)) (hlen : new.length = old.length)
    (hslot : tag'.slot = tag.slot)
    (hwritten : ∀ key, tag'.writer = some key → Written trace datoff key new)
    (hwriter : ∀ off slot, tag.slot = some off →
      total (.slot off) = some (.slot slot) → slot.key ≠ [] →
      tag'.writer = some slot.key) :
    Good trace (total.set (.block datoff) (.block new tag')) := by
  refine hgood.changeBlocks (fun off => Heap.set_of_ne _ (by simp) _)
    (fun pid => Heap.set_of_ne _ (by simp) _) ?_ ?_
  · intro off slot hold
    obtain ⟨data, tag₀, hdata, howner, hdatlen, hkey⟩ := hgood.block off slot hold
    by_cases hsame : slot.datoff = datoff
    · subst hsame
      rw [hcell] at hdata
      cases Option.some.inj hdata
      refine ⟨new, tag', Heap.set_self .., hslot.trans howner, ?_, ?_⟩
      · rw [hdatlen, hlen]
      · exact hwriter off slot howner hold
    · refine ⟨data, tag₀, ?_, howner, hdatlen, hkey⟩
      rw [Heap.set_of_ne _ (by simpa using hsame)]
      exact hdata
  · intro other data tag₀ key hdata hkey
    rcases Heap.set_eq_some hdata with ⟨hother, hnew⟩ | ⟨_, hold⟩
    · cases hother
      cases hnew
      exact hwritten key hkey
    · exact hgood.written other data tag₀ key hold hkey

theorem add_block {tag : Tag} (hfresh : total (.block datoff) = none)
    (hwritten : ∀ key, tag.writer = some key → Written trace datoff key data) :
    Good trace (total.set (.block datoff) (.block data tag)) := by
  refine hgood.changeBlocks (fun off => Heap.set_of_ne _ (by simp) _)
    (fun pid => Heap.set_of_ne _ (by simp) _) ?_ ?_
  · intro off slot hold
    obtain ⟨data₀, tag₀, hdata, hrest⟩ := hgood.block off slot hold
    refine ⟨data₀, tag₀, ?_, hrest⟩
    rw [Heap.set_of_ne]
    · exact hdata
    · rintro heq
      cases heq
      rw [hfresh] at hdata
      cases hdata
  · intro other data₀ tag₀ key hdata hkey
    rcases Heap.set_eq_some hdata with ⟨hother, hnew⟩ | ⟨_, hold⟩
    · cases hother
      cases hnew
      exact hwritten key hkey
    · exact hgood.written other data₀ tag₀ key hold hkey

theorem add_slot {slot : Slot} {writer : Option Bytes} (hfresh : total (.slot off) = none)
    (hroom : slot.room = slot.text.length) (hplain : sep ∉ slot.key)
    (hindexed : Indexed trace off slot.key slot.datoff)
    (hcell : total (.block slot.datoff) = some (.block data ⟨writer, none⟩))
    (hdatlen : slot.datlen = data.length + 1) (hwriter : slot.key ≠ [] → writer = some slot.key) :
    Good trace ((total.set (.slot off) (.slot slot)).set (.block slot.datoff)
      (.block data ⟨writer, some off⟩)) := by
  have hslots : ∀ other, ((total.set (.slot off) (.slot slot)).set
      (.block slot.datoff) (.block data ⟨writer, some off⟩)) (.slot other) =
      if other = off then some (.slot slot) else total (.slot other) := by
    intro other
    rw [Heap.set_of_ne _ (by simp), Heap.set_apply]
    simp
  have hblocks : ∀ other, other ≠ slot.datoff →
      ((total.set (.slot off) (.slot slot)).set
        (.block slot.datoff) (.block data ⟨writer, some off⟩)) (.block other) =
        total (.block other) := by
    intro other hother
    rw [Heap.set_of_ne _ (by simpa using hother), Heap.set_of_ne _ (by simp)]
  refine hgood.update ?_ ?_ ?_ ?_ ?_
  · intro other slot' hold
    rw [hslots] at hold
    split at hold
    next hother =>
      subst hother
      cases Option.some.inj hold
      exact .inr ⟨hroom, hplain, hindexed⟩
    next => exact .inl ⟨slot'.ptr, hold⟩
  · intro other slot' hold
    refine ⟨slot'.ptr, ?_⟩
    rw [hslots, if_neg]
    · exact hold
    · rintro rfl
      rw [hfresh] at hold
      cases hold
  · intro other slot' hold
    rw [hslots] at hold
    split at hold
    next hother =>
      subst hother
      cases Option.some.inj hold
      exact ⟨data, _, Heap.set_self .., rfl, hdatlen, hwriter⟩
    next hother =>
      obtain ⟨data', tag', hdata, howner, hrest⟩ := hgood.block other slot' hold
      refine ⟨data', tag', ?_, howner, hrest⟩
      rw [hblocks]
      · exact hdata
      · intro hsame
        rw [hsame, hcell] at hdata
        cases Option.some.inj hdata
        cases howner
  · intro other data' tag' key hdata hkey
    by_cases hsame : other = slot.datoff
    · subst hsame
      rw [Heap.set_self] at hdata
      cases Option.some.inj hdata
      exact hgood.written _ _ _ key hcell hkey
    · rw [hblocks other hsame] at hdata
      exact hgood.written other data' tag' key hdata hkey
  · intro pid
    rw [Heap.set_of_ne _ (by simp), Heap.set_of_ne _ (by simp)]

end Good

end ApueFormal.Database
