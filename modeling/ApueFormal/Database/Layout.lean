import ApueFormal.Database.Codec
import ApueFormal.Program.Heap

/-!
# The files as a heap of cells

The index file is made of pointer fields and slots, the data file of blocks.
`Rep files total` says that the cells of the heap `total` lie in the files
without overlap, that every record byte of the files belongs to a cell, and
that the files hold the values of the cells.

Some cells are not in the files: the two ends of file, the content of a hash
chain as its users see it, and the place that a scan has reached.
-/

namespace ApueFormal.Database

open Libc Program

inductive Cell where
  /-- A pointer field in front of the index records. -/
  | ptr (off : Nat)
  | slot (off : Nat)
  | block (off : Nat)
  | idxEnd
  | datEnd
  /-- The keys and data on a hash chain. -/
  | table (hash : Nat)
  /-- The place that the scan of a process has reached. -/
  | cursor (pid : Nat)
  deriving DecidableEq

/-- What is known of a block besides its data: the key of the store that wrote
it, and the index record that refers to it. -/
structure Tag where
  writer : Option Bytes
  slot : Option Nat

inductive Val where
  | off (value : Nat)
  | slot (slot : Slot)
  | block (data : Bytes) (tag : Tag)
  | table (entries : List (Bytes × Bytes))
  /-- A file offset, the index record that the scan is reading, and its data when
  the scan has read it. -/
  | mark (pos : Nat) (current : Option (Nat × Slot)) (data : Option Bytes)

abbrev DbHeap := Heap Cell Val

/-- The bytes of the files that belong to a cell. -/
def Touches : Cell → Val → Fd → Nat → Prop
  | .ptr off, .off _, .idx, i => off ≤ i ∧ i < off + ptrSz
  | .slot off, .slot slot, .idx, i =>
    off ≤ i ∧ i < off + (ptrSz + idxLenSz) + slot.room
  | .block off, .block data _, .dat, i => off ≤ i ∧ i < off + (data.length + 1)
  | _, _, _, _ => False

def Agree (files : Files) : Cell → Val → Prop
  | .ptr off, .off value =>
    off + ptrSz < firstRec ∧ value ≤ ptrMax ∧ readAt files.idx off ptrSz = ptrText value
  | .slot off, .slot slot =>
    firstRec ≤ off ∧ slot.Valid ∧
      readAt files.idx off (ptrSz + idxLenSz + slot.text.length) = slot.bytes ∧
      off + (ptrSz + idxLenSz) + slot.room ≤ files.idx.length
  | .block off, .block data _ =>
    (0 : Byte) ∉ data ∧ readAt files.dat off (data.length + 1) = data ++ [newline] ∧
      off + (data.length + 1) ≤ files.dat.length
  | .idxEnd, .off value => files.idx.length = value
  | .datEnd, .off value => files.dat.length = value
  | .table _, .table _ => True
  | .cursor _, .mark _ _ _ => True
  | _, _ => False

structure Rep (files : Files) (total : DbHeap) : Prop where
  agree : ∀ cell value, total cell = some value → Agree files cell value
  apart : ∀ cell other value value', cell ≠ other →
    total cell = some value → total other = some value' →
    ∀ fd i, Touches cell value fd i → ¬ Touches other value' fd i
  coverIdx : ∀ i, firstRec ≤ i → i < files.idx.length →
    ∃ off slot, total (.slot off) = some (.slot slot) ∧ Touches (.slot off) (.slot slot) .idx i
  coverDat : ∀ i, i < files.dat.length →
    ∃ off data tag, total (.block off) = some (.block data tag) ∧
      Touches (.block off) (.block data tag) .dat i
  header : firstRec ≤ files.idx.length
  newline : files.idx[firstRec - 1]? = some newline
  idxMax : files.idx.length ≤ offMax
  datMax : files.dat.length ≤ offMax

@[simp] theorem Files.get_set_same (files : Files) (fd : Fd) (bytes : Bytes) :
    (files.set fd bytes).get fd = bytes := by
  cases fd <;> rfl

theorem Files.get_set_ne (files : Files) {fd other : Fd} (hne : other ≠ fd)
    (bytes : Bytes) : (files.set fd bytes).get other = files.get other := by
  cases fd <;> cases other <;> first | rfl | exact absurd rfl hne

theorem Files.length_le_append (files : Files) (fd : Fd) (bytes : Bytes) (other : Fd) :
    (files.get other).length ≤ ((files.set fd (files.get fd ++ bytes)).get other).length := by
  by_cases hother : other = fd
  · subst hother
    rw [Files.get_set_same, List.length_append]
    omega
  · rw [Files.get_set_ne files hother]

theorem Files.getElem?_append (files : Files) (fd : Fd) (bytes : Bytes) {other : Fd} {i : Nat}
    (hlt : i < (files.get other).length) :
    ((files.set fd (files.get fd ++ bytes)).get other)[i]? = (files.get other)[i]? := by
  by_cases hother : other = fd
  · subst hother
    rw [Files.get_set_same, List.getElem?_append_left hlt]
  · rw [Files.get_set_ne files hother]

theorem Agree.lt_length {files : Files} {cell : Cell} {value : Val}
    (hagree : Agree files cell value) (hheader : firstRec ≤ files.idx.length)
    {fd : Fd} {i : Nat} (htouch : Touches cell value fd i) :
    i < (files.get fd).length := by
  cases cell <;> cases value <;> cases fd <;>
    simp only [Touches, Agree, Files.get] at hagree htouch ⊢ <;> omega

theorem Agree.congr {files files' : Files} {cell : Cell} {value : Val}
    (hsame : ∀ fd i, Touches cell value fd i →
      (files'.get fd)[i]? = (files.get fd)[i]?)
    (hlong : ∀ fd, (files.get fd).length ≤ (files'.get fd).length)
    (hidx : cell = .idxEnd → files'.idx.length = files.idx.length)
    (hdat : cell = .datEnd → files'.dat.length = files.dat.length)
    (hagree : Agree files cell value) : Agree files' cell value := by
  have hlongIdx : files.idx.length ≤ files'.idx.length := hlong .idx
  have hlongDat : files.dat.length ≤ files'.dat.length := hlong .dat
  cases cell with
  | ptr off =>
    cases value with
    | off ptr =>
      obtain ⟨hoff, hptr, hread⟩ := hagree
      refine ⟨hoff, hptr, ?_⟩
      rw [← hread]
      exact readAt_congr fun i hlow hhigh => hsame .idx i ⟨hlow, hhigh⟩
    | _ => exact hagree.elim
  | slot off =>
    cases value with
    | slot slot =>
      obtain ⟨hoff, hvalid, hread, hfits⟩ := hagree
      refine ⟨hoff, hvalid, ?_, Nat.le_trans hfits hlongIdx⟩
      rw [← hread]
      refine readAt_congr fun i hlow hhigh => hsame .idx i ⟨hlow, ?_⟩
      have hroom := hvalid.room
      omega
    | _ => exact hagree.elim
  | block off =>
    cases value with
    | block data tag =>
      obtain ⟨hnul, hread, hfits⟩ := hagree
      refine ⟨hnul, ?_, Nat.le_trans hfits hlongDat⟩
      rw [← hread]
      exact readAt_congr fun i hlow hhigh => hsame .dat i ⟨hlow, hhigh⟩
    | _ => exact hagree.elim
  | idxEnd =>
    cases value with
    | off len =>
      change files'.idx.length = len
      rw [hidx rfl]
      exact hagree
    | _ => exact hagree.elim
  | datEnd =>
    cases value with
    | off len =>
      change files'.dat.length = len
      rw [hdat rfl]
      exact hagree
    | _ => exact hagree.elim
  | table hash | cursor pid => cases value <;> exact hagree

namespace Rep

variable {files : Files} {total : DbHeap} {cell : Cell} {old new : Val} {off : Nat} {slot : Slot}
variable (hrep : Rep files total)
include hrep

theorem change {files' : Files} (hcell : total cell = some old)
    (hlengths : ∀ fd, (files'.get fd).length = (files.get fd).length)
    (hbytes : ∀ fd i, ¬ Touches cell old fd i → (files'.get fd)[i]? = (files.get fd)[i]?)
    (hextent : ∀ fd i, Touches cell new fd i ↔ Touches cell old fd i)
    (hnew : Agree files' cell new) : Rep files' (total.set cell new) := by
  have hagree := hrep.agree cell old hcell
  have hidx : files'.idx.length = files.idx.length := hlengths .idx
  have hdat : files'.dat.length = files.dat.length := hlengths .dat
  constructor
  case agree =>
    intro other value hvalue
    rcases Heap.set_eq_some hvalue with ⟨rfl, rfl⟩ | ⟨hne, hvalue⟩
    · exact hnew
    · refine (hrep.agree other value hvalue).congr ?_
        (fun fd => (hlengths fd).symm.le) (fun _ => hidx) (fun _ => hdat)
      intro fd i htouch
      exact hbytes fd i fun hcellTouch =>
        hrep.apart cell other old value (Ne.symm hne) hcell hvalue fd i hcellTouch htouch
  case apart =>
    intro first second value value' hne hfirst hsecond fd i htouch htouch'
    rcases Heap.set_eq_some hfirst with ⟨rfl, rfl⟩ | ⟨_, hone⟩
    · rcases Heap.set_eq_some hsecond with ⟨rfl, rfl⟩ | ⟨_, htwo⟩
      · exact hne rfl
      · exact hrep.apart _ second old value' hne hcell htwo fd i ((hextent fd i).mp htouch) htouch'
    · rcases Heap.set_eq_some hsecond with ⟨rfl, rfl⟩ | ⟨_, htwo⟩
      · exact hrep.apart first _ value old hne hone hcell fd i htouch ((hextent fd i).mp htouch')
      · exact hrep.apart first second value value' hne hone htwo fd i htouch htouch'
  case coverIdx =>
    intro i hlow hhigh
    rw [hidx] at hhigh
    obtain ⟨off, slot, hslot, htouch⟩ := hrep.coverIdx i hlow hhigh
    by_cases hsame : Cell.slot off = cell
    · subst hsame
      rw [hcell] at hslot
      cases Option.some.inj hslot
      have htouch' := (hextent .idx i).mpr htouch
      cases new with
      | slot slot' => exact ⟨off, slot', Heap.set_self .., htouch'⟩
      | _ => exact htouch'.elim
    · exact ⟨off, slot, by rw [Heap.set_of_ne total hsame]; exact hslot, htouch⟩
  case coverDat =>
    intro i hhigh
    rw [hdat] at hhigh
    obtain ⟨off, data, tag, hblock, htouch⟩ := hrep.coverDat i hhigh
    by_cases hsame : Cell.block off = cell
    · subst hsame
      rw [hcell] at hblock
      cases Option.some.inj hblock
      have htouch' := (hextent .dat i).mpr htouch
      cases new with
      | block data' tag' => exact ⟨off, data', tag', Heap.set_self .., htouch'⟩
      | _ => exact htouch'.elim
    · exact ⟨off, data, tag, by
        rw [Heap.set_of_ne total hsame]
        exact hblock, htouch⟩
  case header => rw [hidx]; exact hrep.header
  case newline =>
    have hnot : ¬ Touches cell old .idx (firstRec - 1) := by
      intro htouch
      cases cell <;> cases old <;> simp only [Touches] at htouch
      · have hoff := hagree.1
        omega
      · have hoff := hagree.1
        unfold firstRec ptrSz nhashDef at hoff htouch
        omega
    rw [← hrep.newline]
    exact hbytes .idx (firstRec - 1) hnot
  case idxMax => rw [hidx]; exact hrep.idxMax
  case datMax => rw [hdat]; exact hrep.datMax

theorem overwrite (fd : Fd) {pos : Nat} {bytes : Bytes} (hcell : total cell = some old)
    (hinside : ∀ i, pos ≤ i → i < pos + bytes.length → Touches cell old fd i)
    (hpos : pos < (files.get fd).length)
    (hextent : ∀ fd i, Touches cell new fd i ↔ Touches cell old fd i)
    (hnew : Agree (files.set fd (writeAt (files.get fd) pos bytes)) cell new) :
    Rep (files.set fd (writeAt (files.get fd) pos bytes)) (total.set cell new) := by
  have hend : pos + bytes.length ≤ (files.get fd).length := by
    by_cases hempty : bytes.length = 0
    · omega
    · have hlast := (hrep.agree cell old hcell).lt_length hrep.header
        (hinside (pos + bytes.length - 1) (by omega) (by omega))
      omega
  refine hrep.change hcell ?_ ?_ hextent hnew
  · intro other
    by_cases hother : other = fd
    · subst hother
      rw [Files.get_set_same, length_writeAt]
      omega
    · rw [Files.get_set_ne files hother]
  · intro other i htouch
    by_cases hother : other = fd
    · subst hother
      rw [Files.get_set_same]
      refine getElem?_writeAt_outside (by omega) bytes ?_
      by_contra hinside'
      exact htouch (hinside i (by omega) (by omega))
    · rw [Files.get_set_ne files hother]

theorem retag (hcell : total cell = some old)
    (hextent : ∀ fd i, Touches cell new fd i ↔ Touches cell old fd i)
    (hnew : Agree files cell new) : Rep files (total.set cell new) :=
  hrep.change hcell (fun _ => rfl) (fun _ _ _ => rfl) hextent hnew

omit hrep in
def endOf : Fd → Cell
  | .idx => .idxEnd
  | .dat => .datEnd

theorem append (fd : Fd) {bytes : Bytes}
    (hextent : ∀ fd' i, Touches cell new fd' i ↔ fd' = fd ∧
      (files.get fd).length ≤ i ∧ i < (files.get fd).length + bytes.length)
    (hidxCell : fd = .idx → ∃ off slot, cell = .slot off ∧ new = .slot slot)
    (hdatCell : fd = .dat → ∃ off data tag, cell = .block off ∧ new = .block data tag)
    (hmax : (files.get fd).length + bytes.length ≤ offMax) (hfresh : total cell = none)
    (hnew : Agree (files.set fd (files.get fd ++ bytes)) cell new) :
    Rep (files.set fd (files.get fd ++ bytes))
      ((total.set cell new).set (endOf fd)
        (.off ((files.get fd).length + bytes.length))) := by
  have hcellEnd : cell ≠ endOf fd := by
    cases fd with
    | idx =>
      obtain ⟨off, slot, rfl, rfl⟩ := hidxCell rfl
      simp [endOf]
    | dat =>
      obtain ⟨off, data, tag, rfl, rfl⟩ := hdatCell rfl
      simp [endOf]
  have hlookup : ∀ other value, ((total.set cell new).set (endOf fd)
      (.off ((files.get fd).length + bytes.length))) other = some value →
      (other = endOf fd ∧
        value = .off ((files.get fd).length + bytes.length)) ∨
      (other = cell ∧ value = new) ∨
      (other ≠ cell ∧ other ≠ endOf fd ∧ total other = some value) := by
    intro other value hvalue
    rcases Heap.set_eq_some hvalue with hend | ⟨hend, hvalue⟩
    · exact .inl hend
    · exact .inr ((Heap.set_eq_some hvalue).imp id fun ⟨hne, hold⟩ => ⟨hne, hend, hold⟩)
  have hendTouch : ∀ value fd' i, ¬ Touches (endOf fd) value fd' i := by
    intro value fd' i htouch
    cases fd <;> cases value <;> exact htouch.elim
  -- A cell of the old heap lies below the old end of the file.
  have hbelow : ∀ other value i, total other = some value →
      Touches other value fd i → i < (files.get fd).length :=
    fun other value i hvalue htouch =>
      (hrep.agree other value hvalue).lt_length hrep.header htouch
  have hkeep : ∀ other value, other ≠ cell → other ≠ endOf fd → total other = some value →
      ((total.set cell new).set (endOf fd)
        (.off ((files.get fd).length + bytes.length))) other = some value := by
    intro other value hother hend hvalue
    rw [Heap.set_of_ne _ hend, Heap.set_of_ne _ hother]
    exact hvalue
  have hhere : ((total.set cell new).set (endOf fd)
      (.off ((files.get fd).length + bytes.length))) cell = some new := by
    rw [Heap.set_of_ne _ hcellEnd, Heap.set_self]
  constructor
  case agree =>
    intro other value hvalue
    rcases hlookup other value hvalue with ⟨rfl, rfl⟩ | ⟨rfl, rfl⟩ | ⟨_, hend, hold⟩
    · cases fd <;> simp [endOf, Agree, Files.set, Files.get]
    · exact hnew
    · have hagree := hrep.agree other value hold
      refine hagree.congr ?_ (files.length_le_append fd bytes) ?_ ?_
      · intro fd' i htouch
        exact files.getElem?_append fd bytes (hagree.lt_length hrep.header htouch)
      · rintro rfl
        cases fd with
        | idx => exact absurd rfl hend
        | dat => rfl
      · rintro rfl
        cases fd with
        | idx => rfl
        | dat => exact absurd rfl hend
  case apart =>
    intro first second value value' hne hfirst hsecond fd' i htouch htouch'
    rcases hlookup first value hfirst with ⟨rfl, rfl⟩ | ⟨rfl, rfl⟩ | ⟨_, _, hone⟩
    · exact hendTouch _ _ _ htouch
    · rcases hlookup second value' hsecond with
        ⟨rfl, rfl⟩ | ⟨rfl, rfl⟩ | ⟨_, _, htwo⟩
      · exact hendTouch _ _ _ htouch'
      · exact hne rfl
      · obtain ⟨rfl, hlow, _⟩ := (hextent fd' i).mp htouch
        have hlt := hbelow second value' i htwo htouch'
        omega
    · rcases hlookup second value' hsecond with
        ⟨rfl, rfl⟩ | ⟨rfl, rfl⟩ | ⟨_, _, htwo⟩
      · exact hendTouch _ _ _ htouch'
      · obtain ⟨rfl, hlow, _⟩ := (hextent fd' i).mp htouch'
        have hlt := hbelow first value i hone htouch
        omega
      · exact hrep.apart first second value value' hne hone htwo fd' i htouch htouch'
  case coverIdx =>
    intro i hlow hhigh
    by_cases hold : i < files.idx.length
    · obtain ⟨off, slot, hslot, htouch⟩ := hrep.coverIdx i hlow hold
      refine ⟨off, slot, hkeep _ _ ?_ ?_ hslot, htouch⟩
      · rintro rfl
        rw [hfresh] at hslot
        cases hslot
      · cases fd <;> simp [endOf]
    · cases fd with
      | idx =>
        obtain ⟨off, slot, rfl, rfl⟩ := hidxCell rfl
        refine ⟨off, slot, hhere, (hextent .idx i).mpr ⟨rfl, ?_, ?_⟩⟩
        · exact Nat.le_of_not_lt hold
        · simpa [Files.set, Files.get] using hhigh
      | dat => exact absurd hhigh hold
  case coverDat =>
    intro i hhigh
    by_cases hold : i < files.dat.length
    · obtain ⟨off, data, tag, hblock, htouch⟩ := hrep.coverDat i hold
      refine ⟨off, data, tag, hkeep _ _ ?_ ?_ hblock, htouch⟩
      · rintro rfl
        rw [hfresh] at hblock
        cases hblock
      · cases fd <;> simp [endOf]
    · cases fd with
      | idx => exact absurd hhigh hold
      | dat =>
        obtain ⟨off, data, tag, rfl, rfl⟩ := hdatCell rfl
        refine ⟨off, data, tag, hhere, (hextent .dat i).mpr ⟨rfl, ?_, ?_⟩⟩
        · exact Nat.le_of_not_lt hold
        · simpa [Files.set, Files.get] using hhigh
  case header => exact Nat.le_trans hrep.header (files.length_le_append fd bytes .idx)
  case newline =>
    rw [← hrep.newline]
    refine @Files.getElem?_append files fd bytes .idx _ (Nat.lt_of_lt_of_le ?_ hrep.header)
    decide
  case idxMax =>
    cases fd with
    | idx => simpa [Files.set, Files.get] using hmax
    | dat => exact hrep.idxMax
  case datMax =>
    cases fd with
    | idx => exact hrep.datMax
    | dat => simpa [Files.set, Files.get] using hmax

/-! ## Reading cells -/

theorem read_ptr {value : Nat}
    (hcell : total (.ptr off) = some (.off value)) : readAt files.idx off ptrSz = ptrText value :=
  (hrep.agree _ _ hcell).2.2

theorem read_head (hcell : total (.slot off) = some (.slot slot)) :
    readAt files.idx off (ptrSz + idxLenSz) = slot.head := by
  obtain ⟨_, hvalid, hread, _⟩ := hrep.agree _ _ hcell
  have hpart := readAt_part 0 (ptrSz + idxLenSz) hread (by omega)
  rw [Nat.add_zero, List.drop_zero, Slot.bytes,
    List.take_left' (Slot.length_head hvalid)] at hpart
  exact hpart

theorem read_text (hcell : total (.slot off) = some (.slot slot)) :
    readAt files.idx (off + (ptrSz + idxLenSz)) slot.text.length = slot.text := by
  obtain ⟨_, hvalid, hread, _⟩ := hrep.agree _ _ hcell
  have hpart := readAt_part (ptrSz + idxLenSz) slot.text.length hread (Nat.le_refl _)
  rw [Slot.bytes, List.drop_left' (Slot.length_head hvalid),
    List.take_length] at hpart
  exact hpart

theorem read_block {data : Bytes} {tag : Tag}
    (hcell : total (.block off) = some (.block data tag)) :
    readAt files.dat off (data.length + 1) = data ++ [Database.newline] :=
  (hrep.agree _ _ hcell).2.1

/-! ## Writing cells -/

theorem write_ptr {old new : Nat}
    (hcell : total (.ptr off) = some (.off old)) (hnew : new ≤ ptrMax) :
    Rep (files.set .idx (writeAt files.idx off (ptrText new)))
      (total.set (.ptr off) (.off new)) := by
  have hlen := length_ptrText hnew
  obtain ⟨hoff, _, _⟩ := hrep.agree _ _ hcell
  have hpos : off < files.idx.length := by
    have hheader := hrep.header
    omega
  refine hrep.overwrite .idx hcell ?_ hpos (fun fd _ => by cases fd <;> exact Iff.rfl)
    ⟨hoff, hnew, ?_⟩
  · intro i hlow hhigh
    exact ⟨hlow, by omega⟩
  · have hback := readAt_writeAt files.idx off (ptrText new)
    rw [hlen] at hback
    exact hback

theorem write_slotPtr {new : Nat}
    (hcell : total (.slot off) = some (.slot slot)) (hnew : new ≤ ptrMax) :
    Rep (files.set .idx (writeAt files.idx off (ptrText new)))
      (total.set (.slot off) (.slot { slot with ptr := new })) := by
  have hlen := length_ptrText hnew
  obtain ⟨hoff, hvalid, hread, hfits⟩ := hrep.agree _ _ hcell
  have hpos : off < files.idx.length := by
    have hheader := hrep.header
    unfold ptrSz at hfits
    omega
  have hvalid' : Slot.Valid { slot with ptr := new } :=
    ⟨hnew, hvalid.key, hvalid.datoff, hvalid.datlen_pos, hvalid.datlen_le,
      hvalid.text_min, hvalid.text_max, hvalid.room⟩
  refine hrep.overwrite .idx hcell ?_ hpos (fun fd _ => by cases fd <;> exact Iff.rfl)
    ⟨hoff, hvalid', ?_, ?_⟩
  · intro i hlow hhigh
    exact ⟨hlow, by omega⟩
  · -- The new bytes are the new pointer in front of the old rest of the slot.
    have hold : (Slot.bytes { slot with ptr := new }) = ptrText new ++ slot.bytes.drop ptrSz := by
      simp only [Slot.bytes, Slot.head, List.append_assoc]
      rw [List.drop_left' (length_ptrText hvalid.ptr)]
      rfl
    rw [hold]
    apply List.ext_getElem?
    intro i
    rw [readAt_getElem?, ← hread]
    change (if _ then (writeAt files.idx off (ptrText new))[off + i]? else _) = _
    rw [writeAt_getElem? (Nat.le_of_lt hpos), List.getElem?_append, hlen,
      List.getElem?_drop, readAt_getElem?]
    by_cases hptr : i < ptrSz
    · rw [if_pos (by omega), if_neg (by omega), if_pos (by omega), if_pos hptr]
      congr 1
      omega
    · rw [if_neg (by omega : ¬ off + i < off),
        if_neg (by omega : ¬ off + i < off + ptrSz), if_neg hptr,
        Nat.add_sub_cancel' (by omega : ptrSz ≤ i)]
      rfl
  · change off + (ptrSz + idxLenSz) + slot.room ≤ (writeAt files.idx off _).length
    rw [length_writeAt]
    omega

theorem write_slot {old new : Slot} (hcell : total (.slot off) = some (.slot old))
    (hvalid : new.Valid) (hroom : new.room = old.room) :
    Rep (files.set .idx (writeAt files.idx off new.bytes)) (total.set (.slot off) (.slot new)) := by
  obtain ⟨hoff, _, _, hfits⟩ := hrep.agree _ _ hcell
  have hlen := Slot.length_bytes hvalid
  have htext := hvalid.room
  have hpos : off < files.idx.length := by
    unfold ptrSz at hfits
    omega
  refine hrep.overwrite .idx hcell ?_ hpos ?_ ⟨hoff, hvalid, ?_, ?_⟩
  · intro i hlow hhigh
    exact ⟨hlow, by omega⟩
  · intro fd i
    cases fd <;> simp [Touches, hroom]
  · have hback := readAt_writeAt files.idx off new.bytes
    rw [hlen] at hback
    exact hback
  · change off + (ptrSz + idxLenSz) + new.room ≤ (writeAt files.idx off _).length
    rw [length_writeAt]
    omega

theorem write_block {old new : Bytes} {tag tag' : Tag}
    (hcell : total (.block off) = some (.block old tag)) (hnul : (0 : Byte) ∉ new)
    (hlen : new.length = old.length) :
    Rep (files.set .dat (writeAt files.dat off (new ++ [Database.newline])))
      (total.set (.block off) (.block new tag')) := by
  obtain ⟨_, _, hfits⟩ := hrep.agree _ _ hcell
  have hpos : off < files.dat.length := by omega
  refine hrep.overwrite .dat hcell ?_ hpos ?_ ⟨hnul, ?_, ?_⟩
  · intro i hlow hhigh
    rw [List.length_append, List.length_singleton] at hhigh
    exact ⟨hlow, by omega⟩
  · intro fd i
    cases fd <;> simp [Touches, hlen]
  · have hback := readAt_writeAt files.dat off (new ++ [Database.newline])
    rw [List.length_append, List.length_singleton] at hback
    exact hback
  · change off + (new.length + 1) ≤ (writeAt files.dat off _).length
    rw [length_writeAt]
    omega

/-! ## Appending cells -/

theorem slot_fresh : total (.slot files.idx.length) = none := by
  cases hcell : total (.slot files.idx.length) with
  | none => rfl
  | some value =>
    have hagree := hrep.agree _ _ hcell
    cases value with
    | slot slot =>
      obtain ⟨_, _, _, hfits⟩ := hagree
      unfold ptrSz at hfits
      omega
    | _ => exact hagree.elim

theorem block_fresh : total (.block files.dat.length) = none := by
  cases hcell : total (.block files.dat.length) with
  | none => rfl
  | some value =>
    have hagree := hrep.agree _ _ hcell
    cases value with
    | block data tag =>
      obtain ⟨_, _, hfits⟩ := hagree
      omega
    | _ => exact hagree.elim

theorem append_slot (hvalid : slot.Valid)
    (hroom : slot.room = slot.text.length) (hmax : files.idx.length + slot.bytes.length ≤ offMax) :
    Rep (files.set .idx (files.idx ++ slot.bytes))
      ((total.set (.slot files.idx.length) (.slot slot)).set .idxEnd
        (.off (files.idx.length + slot.bytes.length))) := by
  have hlen := Slot.length_bytes hvalid
  refine hrep.append .idx ?_ (fun _ => ⟨_, slot, rfl, rfl⟩)
    (fun impossible => by cases impossible) hmax hrep.slot_fresh ⟨hrep.header, hvalid, ?_, ?_⟩
  · intro fd i
    cases fd with
    | idx =>
      simp only [Touches, true_and, Files.get]
      omega
    | dat => simp [Touches]
  · rw [← hlen, ← writeAt_end]
    exact readAt_writeAt _ _ slot.bytes
  · change _ ≤ (files.idx ++ slot.bytes).length
    rw [List.length_append]
    omega

theorem append_block {data : Bytes} (hnul : (0 : Byte) ∉ data) (tag : Tag)
    (hmax : files.dat.length + (data.length + 1) ≤ offMax) :
    Rep (files.set .dat (files.dat ++ (data ++ [Database.newline])))
      ((total.set (.block files.dat.length) (.block data tag)).set .datEnd
        (.off (files.dat.length + (data.length + 1)))) := by
  have hlen : (data ++ [Database.newline]).length = data.length + 1 := by simp
  rw [← hlen] at hmax ⊢
  refine hrep.append .dat ?_ (fun impossible => by cases impossible)
    (fun _ => ⟨_, data, tag, rfl, rfl⟩) hmax hrep.block_fresh ⟨hnul, ?_, ?_⟩
  · intro fd i
    cases fd with
    | idx => simp [Touches]
    | dat =>
      simp only [Touches, true_and, Files.get]
      omega
  · rw [← hlen, ← writeAt_end]
    exact readAt_writeAt ..
  · change _ ≤ (files.dat ++ (data ++ [Database.newline])).length
    rw [List.length_append]
    omega

end Rep

end ApueFormal.Database
