import ApueFormal.Database.Order
import ApueFormal.Database.Protocol

/-!
# The cursors of scans

A cursor is no part of the files.  It says where a scan stands, and it can be
moved, added or dropped as long as it says something true.
-/

namespace ApueFormal.Database

open Libc Program

def SameCells (total total' : DbHeap) : Prop :=
  ∀ cell, (∀ pid, cell ≠ .cursor pid) → total' cell = total cell

def Truthful (strict : Prop) (trace : Trace) (total total' : DbHeap) : Prop :=
  ∀ pid value, total' (.cursor pid) = some value → ∃ pos current data,
    value = .mark pos current data ∧ (strict → Standing trace total pos current data)

variable {total : DbHeap} {total' : DbHeap}

theorem Rep.change_cursors {files : Files} (hrep : Rep files total) (hsame : SameCells total total')
    (hmarks : ∀ pid value, total' (.cursor pid) = some value →
      ∃ pos current data, value = .mark pos current data) : Rep files total' where
  agree cell value hcell := by
    cases cell with
    | cursor pid =>
      obtain ⟨_, _, _, rfl⟩ := hmarks pid value hcell
      trivial
    | _ => exact hrep.agree _ _ ((hsame _ (by simp)).symm.trans hcell)
  apart cell other value value' hne hcell hother fd i htouch htouch' := by
    have hold : ∀ cell value, total' cell = some value → Touches cell value fd i →
        total cell = some value := by
      intro cell value hcell htouch
      cases cell with
      | cursor pid =>
        obtain ⟨_, _, _, rfl⟩ := hmarks pid value hcell
        cases fd <;> exact htouch.elim
      | _ => exact (hsame _ (by simp)).symm.trans hcell
    exact hrep.apart cell other value value' hne (hold _ _ hcell htouch)
      (hold _ _ hother htouch') fd i htouch htouch'
  coverIdx i hlow hhigh := by
    obtain ⟨off, slot, hslot, htouch⟩ := hrep.coverIdx i hlow hhigh
    exact ⟨off, slot, (hsame _ (by simp)).trans hslot, htouch⟩
  coverDat i hlt := by
    obtain ⟨off, data, tag, hblock, htouch⟩ := hrep.coverDat i hlt
    exact ⟨off, data, tag, (hsame _ (by simp)).trans hblock, htouch⟩
  header := hrep.header
  newline := hrep.newline
  idxMax := hrep.idxMax
  datMax := hrep.datMax

theorem Good.change_cursors {trace : Trace} (hgood : Good trace total)
    (hsame : SameCells total total') (htruthful : Truthful True trace total total') :
    Good trace total' := by
  have hslots : ∀ off, total' (.slot off) = total (.slot off) := fun off => hsame _ (by simp)
  have hblocks : ∀ off, total' (.block off) = total (.block off) := fun off => hsame _ (by simp)
  exact
    { room := fun off slot hcell => hgood.room off slot ((hslots off).symm.trans hcell)
      plain := fun off slot hcell => hgood.plain off slot ((hslots off).symm.trans hcell)
      indexed := fun off slot hcell => hgood.indexed off slot ((hslots off).symm.trans hcell)
      block := by
        intro off slot hcell
        obtain ⟨bytes, tag, hdata, hrest⟩ :=
          hgood.block off slot ((hslots off).symm.trans hcell)
        exact ⟨bytes, tag, (hblocks _).trans hdata, hrest⟩
      written := fun datoff bytes tag key hcell =>
        hgood.written datoff bytes tag key ((hblocks datoff).symm.trans hcell)
      cursor := by
        intro pid pos current data hcell
        obtain ⟨_, _, _, hmark, hstanding⟩ := htruthful pid _ hcell
        cases hmark
        exact (hstanding trivial).update fun off slot hslot => ⟨slot.ptr, (hslots off).trans hslot⟩
      scans := hgood.scans }

section

variable {strict : Prop} {world : World} (hholds : Holds strict world total)
include hholds

theorem Holds.change_cursors (hsame : SameCells total total')
    (htruthful : Truthful strict world.trace total total') :
    Holds strict world total' where
  rep := hholds.rep.change_cursors hsame fun pid value hcell => by
    obtain ⟨pos, current, data, hvalue, _⟩ := htruthful pid value hcell
    exact ⟨pos, current, data, hvalue⟩
  tables hash table htable :=
    hholds.tables hash table ((hsame _ (by simp)).symm.trans htable)
  legal := hholds.legal
  good hstrict := (hholds.good hstrict).change_cursors hsame fun pid value hcell => by
    obtain ⟨pos, current, data, hvalue, hstanding⟩ := htruthful pid value hcell
    exact ⟨pos, current, data, hvalue, fun _ => hstanding hstrict⟩

theorem Holds.set_cursor (hstrict : strict) (pid : Nat) {pos : Nat} {current : Option (Nat × Slot)}
    {data : Option Bytes} (hstanding : Standing world.trace total pos current data) :
    Holds strict world (total.set (.cursor pid) (.mark pos current data)) := by
  refine hholds.change_cursors (fun cell hcell => Heap.set_of_ne _ (hcell pid) _) ?_
  intro other value hcell
  rcases Heap.set_eq_some hcell with ⟨_, hnew⟩ | ⟨_, hcell⟩
  · exact ⟨pos, current, data, hnew, fun _ => hstanding⟩
  · have hagree := hholds.rep.agree _ _ hcell
    cases value with
    | mark pos' current' data' =>
      exact ⟨pos', current', data', rfl, fun _ =>
        (hholds.good hstrict).cursor other pos' current' data' hcell⟩
    | _ => exact hagree.elim

end

theorem Rep.at_boundary {files : Files} (hrep : Rep files total) (hfilled : Filled total)
    {pos : Nat} (hboundary : Boundary total pos) :
    pos = files.idx.length ∨ ∃ slot, total (.slot pos) = some (.slot slot) := by
  have hrange : firstRec ≤ pos ∧ pos ≤ files.idx.length := by
    rcases hboundary with rfl | ⟨off, slot, hslot, hpos⟩
    · exact ⟨Nat.le_refl _, hrep.header⟩
    · obtain ⟨_, _, hfits, hfirst, hend⟩ := hrep.slot_bytes hfilled hslot
      omega
  by_cases hlast : pos = files.idx.length
  · exact .inl hlast
  obtain ⟨off, slot, hslot, hlow, hhigh⟩ := hrep.coverIdx pos hrange.1 (by omega)
  right
  by_cases hoff : off = pos
  · exact ⟨slot, hoff ▸ hslot⟩
  -- A record that reaches across the boundary overlaps the record before it.
  exfalso
  rcases hboundary with rfl | ⟨off', slot', hslot', hpos⟩
  · obtain ⟨_, _, _, hfirst, _⟩ := hrep.slot_bytes hfilled hslot
    omega
  · have hne : off ≠ off' := by
      rintro rfl
      rw [hslot] at hslot'
      cases Option.some.inj hslot'
      omega
    refine hrep.apart (.slot off) (.slot off') _ _ (by simpa using hne) hslot hslot' .idx
      (pos - 1) ⟨by omega, by omega⟩ ⟨?_, ?_⟩ <;> unfold ptrSz at * <;> omega

end ApueFormal.Database
