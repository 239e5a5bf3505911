import ApueFormal.Database.Order

/-!
# Scanning files that nobody changes

`db_nextrec` reads the index file record by record.  On a file whose records
follow each other without gaps it returns every record with a key that is not
blank, in file order, and then the end of the file.
-/

namespace ApueFormal.Database

open Libc Program

variable {files : Files} {doom : Fault → Prop} {fd : Fd}

theorem reads_files {pos : Nat} {bytes : Bytes}
    (hread : readAt (files.get fd) pos bytes.length = bytes) :
    Reads (exactly os) files fd pos bytes :=
  ⟨hread, rfl⟩

theorem readsSlot_files {pos : Nat} {slot : Slot} (hvalid : slot.Valid)
    (hread : readAt files.idx pos slot.bytes.length = slot.bytes) :
    ReadsSlot (exactly os) files pos slot := by
  have hhead := Slot.length_head hvalid
  have hlen : slot.bytes.length = slot.head.length + slot.text.length :=
    List.length_append
  refine ⟨hvalid, reads_files ?_, reads_files ?_⟩
  · have hpart := readAt_part 0 slot.head.length hread (by omega)
    rw [Nat.add_zero, List.drop_zero, Slot.bytes, List.take_left] at hpart
    exact hpart
  · have hpart := readAt_part slot.head.length slot.text.length hread (by omega)
    rw [Slot.bytes, List.drop_left, List.take_length, hhead] at hpart
    exact hpart

theorem wp_dbReadIdx_end {post : Except Fault (Int × DB) → Files → Prop} {db : DB}
    (hpos : db.idxpos = files.idx.length)
    (hpost : post (.ok (-1, { db with idxoff := db.idxpos, idxpos := db.idxpos })) files) :
    Wp (exactly os) doom post (dbReadIdx db 0) files := by
  have hread : (exactly os).Gives (Sys.read .idx db.idxpos (ptrSz + idxLenSz)) files
      ([] : Bytes) files := by
    refine ⟨?_, rfl⟩
    change readAt files.idx db.idxpos _ = []
    rw [hpos, readAt, List.drop_length, List.take_nil]
  unfold dbReadIdx
  rw [if_pos rfl]
  unfold dbReadIdxAt
  exact Wp.gives hread (.ret hpost)

theorem wp_readwLock_files {α : Type} {post : Except Fault α → Files → Prop} {start len : Nat}
    {next : Unit → DbProg α} (hnext : Wp (exactly os) doom post (next ()) files) :
    Wp (exactly os) doom post ((readwLock fd start len).bind next) files :=
  Wp.gives (exactly_gives os (Sys.lock fd .read start len) files) hnext

theorem wp_unLock_files {α : Type} {post : Except Fault α → Files → Prop} {start len : Nat}
    {next : Unit → DbProg α} (hnext : Wp (exactly os) doom post (next ()) files) :
    Wp (exactly os) doom post ((unLock fd start len).bind next) files :=
  Wp.gives (exactly_gives os (Sys.unlock fd start len) files) hnext

/-- The loop of `db_nextrec` stops at the next record that is not blank. -/
theorem wp_nextLoop {post : Except Fault (Bool × DB) → Files → Prop} {db : DB}
    {records : List (Nat × Slot)} (hlaid : Laid files.idx db.idxpos records)
    (hnoSep : ∀ record ∈ records, sep ∉ record.2.key)
    (hfound : ∀ skipped off slot rest, records = skipped ++ (off, slot) :: rest →
      (∀ record ∈ skipped, blank record.2.key) → blank slot.key = false → slot.Valid →
      Laid files.idx (off + slot.bytes.length) rest →
      post (.ok (true, db.loaded off slot)) files)
    (hend : (∀ record ∈ records, blank record.2.key) → ∀ db' : DB,
      db'.idxpos = files.idx.length → post (.ok (false, db')) files) :
    Wp (exactly os) doom post (Prog.iterate nextStep db) files := by
  induction records generalizing db with
  | nil =>
    have hpos := hlaid.pos_of_nil
    refine Wp.iteration trivial (Wp.seq (wp_dbReadIdx_end hpos ?_))
    exact .ret (.ret (hend (by simp) _ hpos))
  | cons record rest ih =>
    obtain ⟨off, slot⟩ := record
    obtain ⟨rfl, hvalid, hread, hrest⟩ := hlaid.of_cons
    have hkey := hnoSep _ List.mem_cons_self
    refine Wp.iteration trivial (Wp.seq (wp_dbReadIdx_here
      (readsSlot_files hvalid hread) ?_ (absurd · hkey)))
    intro _
    simp only [Wp.follow_ok]
    rw [if_neg (by omega)]
    change Wp _ _ _ (if blank slot.key = true then _ else _) _
    cases hblank : blank slot.key with
    | false => exact .ret (.ret (hfound [] _ slot rest rfl (by simp) hblank hvalid hrest))
    | true =>
      have hlaid' : Laid files.idx (db.loaded db.idxpos slot).idxpos rest := by
        change Laid files.idx (db.idxpos + (ptrSz + idxLenSz) + slot.text.length) _
        rw [Nat.add_assoc, ← Slot.length_bytes hvalid]
        exact hrest
      have hskip : ∀ others : List (Nat × Slot), (∀ record ∈ others, blank record.2.key) →
          ∀ record ∈ (db.idxpos, slot) :: others, blank record.2.key := by
        intro others hothers
        rw [List.forall_mem_cons]
        exact ⟨hblank, hothers⟩
      refine .ret (ih hlaid' (fun record hmem =>
        hnoSep record (List.mem_cons_of_mem _ hmem)) ?_ ?_)
      · intro skipped off slot' rest' hsplit hskipped hlive hvalid' hrest'
        exact hfound ((db.idxpos, slot) :: skipped) off slot' rest'
          (by rw [hsplit]; rfl) (hskip _ hskipped) hlive hvalid' hrest'
      · intro hall
        exact hend (hskip _ hall)

/-! ## Repeated calls -/

def HoldsData (files : Files) (slot : Slot) : Prop :=
  ∃ data, (0 : Byte) ∉ data ∧ slot.datlen = data.length + 1 ∧
    readAt files.dat slot.datoff slot.datlen = data ++ [newline]

def dataOf (files : Files) (slot : Slot) : Bytes :=
  (readAt files.dat slot.datoff slot.datlen).dropLast

theorem wp_dbNextRec_files {post : Except Fault (Option (Bytes × Bytes) × DB) → Files → Prop}
    {db : DB} {records : List (Nat × Slot)} (hlaid : Laid files.idx db.idxpos records)
    (hnoSep : ∀ record ∈ records, sep ∉ record.2.key)
    (hdata : ∀ record ∈ records, HoldsData files record.2)
    (hfound : ∀ skipped off slot rest (db' : DB),
      records = skipped ++ (off, slot) :: rest →
      (∀ record ∈ skipped, blank record.2.key) → blank slot.key = false →
      Laid files.idx db'.idxpos rest → db'.idxpos = off + slot.bytes.length →
      post (.ok (some (slot.key, dataOf files slot), db')) files)
    (hend : (∀ record ∈ records, blank record.2.key) → ∀ db' : DB,
      db'.idxpos = files.idx.length → post (.ok (none, db')) files) :
    Wp (exactly os) doom post (dbNextRec db) files := by
  unfold dbNextRec
  simp only [Prog.bind_eq]
  refine wp_readwLock_files (Wp.seq (wp_nextLoop hlaid hnoSep ?_ ?_))
  · intro skipped off slot rest hsplit hskipped hlive hvalid hrest
    simp only [Wp.follow_ok]
    obtain ⟨data, hnul, hlen, hread⟩ := hdata (off, slot) (by rw [hsplit]; simp)
    have hvalue : data = dataOf files slot := by
      rw [dataOf, hread, List.dropLast_concat]
    rw [if_pos trivial]
    refine Wp.seq (wp_dbReadDat rfl hlen hnul (reads_files ?_) ?_)
    · rw [List.length_append, List.length_singleton, ← hlen]
      exact hread
    have hpos : (db.loaded off slot).idxpos = off + slot.bytes.length := by
      rw [Slot.length_bytes hvalid, ← Nat.add_assoc]
      rfl
    rw [hvalue]
    exact wp_unLock_files (.ret (hfound skipped off slot rest _ hsplit hskipped hlive
      (hpos ▸ hrest) hpos))
  · intro hall db' hpos
    simp only [Wp.follow_ok]
    rw [if_neg (by decide)]
    exact wp_unLock_files (.ret (hend hall db' hpos))

/-- The results of calls of `db_nextrec` until the end of the file. -/
inductive Scan (files : Files) : DB → List (Bytes × Bytes) → Prop where
  | done {db db' : DB} (hruns : Runs os (dbNextRec db) files (.ok (none, db')) files) :
      Scan files db []
  | more {db db' : DB} {key data : Bytes} {rest : List (Bytes × Bytes)}
      (hruns : Runs os (dbNextRec db) files (.ok (some (key, data), db')) files)
      (hrest : Scan files db' rest) : Scan files db ((key, data) :: rest)

def liveRecords (files : Files) (records : List (Nat × Slot)) : List (Bytes × Bytes) :=
  (records.filter fun record => !blank record.2.key).map fun record =>
    (record.2.key, dataOf files record.2)

theorem liveRecords_of_blank {records : List (Nat × Slot)}
    (hall : ∀ record ∈ records, blank record.2.key) : liveRecords files records = [] := by
  rw [liveRecords, List.filter_eq_nil_iff.mpr, List.map_nil]
  intro record hmem
  simp [hall record hmem]

theorem liveRecords_split {skipped rest : List (Nat × Slot)} {off : Nat} {slot : Slot}
    (hskipped : ∀ record ∈ skipped, blank record.2.key) (hlive : blank slot.key = false) :
    liveRecords files (skipped ++ (off, slot) :: rest) =
      (slot.key, dataOf files slot) :: liveRecords files rest := by
  have hnil : (skipped.filter fun record => !blank record.2.key) = [] := by
    rw [List.filter_eq_nil_iff]
    intro record hmem
    simp [hskipped record hmem]
  simp only [liveRecords, List.filter_append, hnil, List.nil_append]
  rw [List.filter_cons_of_pos (by simp [hlive]), List.map_cons]

theorem scan_laid {db : DB} {records : List (Nat × Slot)} (hlaid : Laid files.idx db.idxpos records)
    (hnoSep : ∀ record ∈ records, sep ∉ record.2.key)
    (hdata : ∀ record ∈ records, HoldsData files record.2) :
    Scan files db (liveRecords files records) := by
  have hwp := @wp_dbNextRec_files files (fun _ => False)
    (fun outcome final => final = files ∧
      ((∃ skipped off slot rest db', records = skipped ++ (off, slot) :: rest ∧
        (∀ record ∈ skipped, blank record.2.key) ∧ blank slot.key = false ∧
        Laid files.idx db'.idxpos rest ∧
        outcome = .ok (some (slot.key, dataOf files slot), db')) ∨
      (∀ record ∈ records, blank record.2.key) ∧ ∃ db', outcome = .ok (none, db')))
    db records hlaid hnoSep hdata
    (fun skipped off slot rest db' hsplit hskipped hlive hrest _ =>
      ⟨rfl, .inl ⟨skipped, off, slot, rest, db', hsplit, hskipped, hlive, hrest, rfl⟩⟩)
    (fun hall db' _ => ⟨rfl, .inr ⟨hall, db', rfl⟩⟩)
  obtain ⟨outcome, final, hruns, hfinal, hpost⟩ := hwp.runs
  rw [hfinal] at hruns
  rcases hpost with ⟨skipped, off, slot, rest, db', rfl, hskipped, hlive, hrest, rfl⟩ |
    ⟨hall, db', rfl⟩
  · rw [liveRecords_split hskipped hlive]
    refine .more hruns (scan_laid hrest ?_ ?_)
    · intro record hmem
      exact hnoSep record (by simp [hmem])
    · intro record hmem
      exact hdata record (by simp [hmem])
  · rw [liveRecords_of_blank hall]
    exact .done hruns
termination_by records.length

end ApueFormal.Database
