import ApueFormal.Database.Layout

/-!
# The index file in file order

When every index record fills its room, the index records follow each other
without gaps from the end of the pointers to the end of the file.
-/

namespace ApueFormal.Database

open Libc Program

/-- Index records one after the other, from an offset to the end of the file. -/
inductive Laid (idx : Bytes) : Nat → List (Nat × Slot) → Prop where
  | nil : Laid idx idx.length []
  | cons {pos : Nat} {slot : Slot} {rest : List (Nat × Slot)} (hvalid : slot.Valid)
      (hread : readAt idx pos slot.bytes.length = slot.bytes)
      (hrest : Laid idx (pos + slot.bytes.length) rest) :
      Laid idx pos ((pos, slot) :: rest)

variable {idx : Bytes} {pos : Nat}

theorem Laid.pos_of_nil (hlaid : Laid idx pos []) : pos = idx.length := by
  cases hlaid
  rfl

theorem Laid.of_cons {off : Nat} {slot : Slot} {rest : List (Nat × Slot)}
    (hlaid : Laid idx pos ((off, slot) :: rest)) :
    off = pos ∧ slot.Valid ∧ readAt idx pos slot.bytes.length = slot.bytes ∧
      Laid idx (pos + slot.bytes.length) rest := by
  cases hlaid with
  | cons hvalid hread hrest => exact ⟨rfl, hvalid, hread, hrest⟩

theorem Laid.sorted {records : List (Nat × Slot)} (hlaid : Laid idx pos records) :
    (∀ record ∈ records, pos ≤ record.1) ∧ (records.map Prod.fst).Pairwise (· < ·) := by
  induction hlaid with
  | nil => simp
  | @cons pos slot rest hvalid _ _ ih =>
    obtain ⟨hfrom, hsorted⟩ := ih
    have hlen := Slot.length_bytes hvalid
    unfold ptrSz at hlen
    have hlater : ∀ record ∈ rest, pos < record.1 := by
      intro record hmem
      have hle := hfrom record hmem
      omega
    refine ⟨?_, ?_⟩
    · rw [List.forall_mem_cons]
      exact ⟨Nat.le_refl _, fun record hmem => Nat.le_of_lt (hlater record hmem)⟩
    · rw [List.map_cons, List.pairwise_cons]
      refine ⟨?_, hsorted⟩
      simpa using fun off slot hmem => hlater (off, slot) hmem

def Filled (total : DbHeap) : Prop :=
  ∀ off slot, total (.slot off) = some (.slot slot) → slot.room = slot.text.length

section Order

variable {files : Files} {total : DbHeap}
variable (hrep : Rep files total) (hfilled : Filled total)
include hrep hfilled

theorem Rep.slot_bytes {off : Nat} {slot : Slot} (hslot : total (.slot off) = some (.slot slot)) :
    slot.Valid ∧ readAt files.idx off slot.bytes.length = slot.bytes ∧
      off + slot.bytes.length ≤ files.idx.length ∧ firstRec ≤ off ∧
      off + (ptrSz + idxLenSz) + slot.room = off + slot.bytes.length := by
  obtain ⟨hfirst, hvalid, hread, hfits⟩ := hrep.agree _ _ hslot
  have hlen := Slot.length_bytes hvalid
  have hroom := hfilled off slot hslot
  rw [← hlen] at hread
  exact ⟨hvalid, hread, by omega, hfirst, by omega⟩

theorem Rep.slots_apart {off off' : Nat} {slot slot' : Slot}
    (hslot : total (.slot off) = some (.slot slot))
    (hslot' : total (.slot off') = some (.slot slot')) (hlow : off ≤ off')
    (hhigh : off' < off + slot.bytes.length) : off' = off := by
  by_contra hne
  obtain ⟨_, _, _, _, hend⟩ := hrep.slot_bytes hfilled hslot
  obtain ⟨hvalid', _, _, _, hend'⟩ := hrep.slot_bytes hfilled hslot'
  have hlen' := Slot.length_bytes hvalid'
  refine hrep.apart (.slot off) (.slot off') _ _ (by simpa using Ne.symm hne) hslot hslot'
    .idx off' ⟨hlow, by omega⟩ ⟨Nat.le_refl _, ?_⟩
  unfold ptrSz at hlen'
  omega

theorem Rep.laid_from (pos : Nat) (hfirst : firstRec ≤ pos) (hpos : pos ≤ files.idx.length)
    (hbefore : ∀ off slot, total (.slot off) = some (.slot slot) → off < pos →
      off + slot.bytes.length ≤ pos) :
    ∃ records, Laid files.idx pos records ∧ ∀ off slot,
      (off, slot) ∈ records ↔ total (.slot off) = some (.slot slot) ∧ pos ≤ off := by
  by_cases hend : pos = files.idx.length
  · refine ⟨[], hend ▸ .nil, ?_⟩
    intro off slot
    simp only [List.not_mem_nil, false_iff, not_and, Nat.not_le]
    intro hslot
    obtain ⟨hvalid, _, hfits, _, _⟩ := hrep.slot_bytes hfilled hslot
    have hlen := Slot.length_bytes hvalid
    unfold ptrSz at hlen
    omega
  obtain ⟨off, slot, hslot, hlow, hhigh⟩ := hrep.coverIdx pos hfirst (by omega)
  obtain ⟨hvalid, hread, hfits, _, hroom⟩ := hrep.slot_bytes hfilled hslot
  have hoff : off = pos := by
    by_contra hne
    have hbound := hbefore off slot hslot (by omega)
    omega
  subst hoff
  have hlen : 0 < slot.bytes.length := by
    have hlen := Slot.length_bytes hvalid
    unfold ptrSz at hlen
    omega
  obtain ⟨records, hlaid, hmem⟩ := Rep.laid_from (off + slot.bytes.length)
    (by omega) hfits (by
      intro off' slot' hslot' hlt
      by_cases hcase : off' < off
      · have hbound := hbefore off' slot' hslot' hcase
        omega
      · have hsame := hrep.slots_apart hfilled hslot hslot' (by omega) hlt
        subst hsame
        rw [hslot] at hslot'
        cases Option.some.inj hslot'
        exact Nat.le_refl _)
  refine ⟨(off, slot) :: records, .cons hvalid hread hlaid, ?_⟩
  intro off' slot'
  rw [List.mem_cons, hmem, Prod.mk.injEq]
  constructor
  · rintro (⟨rfl, rfl⟩ | ⟨hslot', hle⟩)
    · exact ⟨hslot, Nat.le_refl _⟩
    · exact ⟨hslot', by omega⟩
  · rintro ⟨hslot', hle⟩
    by_cases hlt : off' < off + slot.bytes.length
    · have hsame := hrep.slots_apart hfilled hslot hslot' hle hlt
      subst hsame
      rw [hslot] at hslot'
      cases Option.some.inj hslot'
      exact .inl ⟨rfl, rfl⟩
    · exact .inr ⟨hslot', by omega⟩
termination_by files.idx.length - pos

theorem Rep.laid : ∃ records, Laid files.idx firstRec records ∧ ∀ off slot,
      (off, slot) ∈ records ↔ total (.slot off) = some (.slot slot) := by
  obtain ⟨records, hlaid, hmem⟩ := hrep.laid_from hfilled firstRec (Nat.le_refl _)
    hrep.header (by
      intro off slot hslot hlt
      obtain ⟨_, _, _, hfirst, _⟩ := hrep.slot_bytes hfilled hslot
      omega)
  refine ⟨records, hlaid, ?_⟩
  intro off slot
  rw [hmem]
  refine ⟨And.left, fun hslot => ⟨hslot, ?_⟩⟩
  obtain ⟨_, _, _, hfirst, _⟩ := hrep.slot_bytes hfilled hslot
  exact hfirst

end Order

end ApueFormal.Database
