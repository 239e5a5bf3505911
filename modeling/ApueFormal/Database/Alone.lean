import ApueFormal.Database.Access
import ApueFormal.Database.Scan

/-!
# Writing to files that nobody else uses

The functions that write are followed on the files themselves.  An index record that
`_db_writeidx` has written is read back by `_db_readidx`, unless its key was to be taken
from the buffer into which the record is printed.
-/

namespace ApueFormal.Database

open Libc Program

variable {files : Files} {doom : Fault → Prop}

section Operations

variable {α : Type} {post : Except Fault α → Files → Prop} {fd : Fd}

theorem wp_writewLock_files {start len : Nat} {next : Unit → DbProg α}
    (hnext : Wp (exactly os) doom post (next ()) files) :
    Wp (exactly os) doom post ((writewLock fd start len).bind next) files :=
  Wp.gives (exactly_gives os (Sys.lock fd .write start len) files) hnext

theorem runs_of_wp {program : DbProg α} {value : α} {after : Files}
    (hwp : Wp (exactly os) (fun _ => False)
      (fun outcome final => outcome = .ok value ∧ final = after) program files) :
    Runs os program files (.ok value) after := by
  obtain ⟨_, _, hruns, rfl, rfl⟩ := hwp.runs
  exact hruns

theorem wp_write_files {pos size : Nat} {bytes : Bytes} (hsize : bytes.length = size)
    {fault : Fault} {next : DbProg α}
    (herror : offMax < pos + size ∨ rwMax < size → ∀ after, post (.error fault) after)
    (hnext : size ≤ rwMax → pos + size ≤ offMax →
      Wp (exactly os) doom post next (files.set fd (writeAt (files.get fd) pos bytes))) :
    Wp (exactly os) doom post ((sysWrite fd pos bytes).bind fun count =>
      if count ≠ (size : Int) then .fail fault else next) files := by
  subst hsize
  refine Wp.gives (exactly_gives os (Sys.write fd pos bytes) files) ?_
  change Wp _ _ _ (if (osWrite files fd pos bytes).1 ≠ _ then _ else _)
    (osWrite files fd pos bytes).2
  by_cases hlen : bytes.length ≤ rwMax
  · by_cases hpos : pos + bytes.length ≤ offMax
    · rw [osWrite_fits files fd hlen hpos, if_neg (not_not.mpr rfl)]
      exact hnext hlen hpos
    · rw [osWrite_full files fd hlen hpos, if_pos (by omega)]
      exact .fail (herror (by omega) _)
  · rw [if_pos]
    · exact .fail (herror (by omega) _)
    · unfold osWrite
      split <;> simp only <;> omega

def Place (files : Files) (fd : Fd) : Whence → Int → Nat → Prop
  | .set, offset, pos => offset = pos
  | .end, offset, pos => (files.get fd).length + offset = pos

theorem wp_size_files {offset : Int} {pos : Nat} {fault : Fault}
    (hplace : Place files fd .end offset pos) {next : Nat → DbProg α}
    (hnext : Wp (exactly os) doom post (next pos) files) :
    Wp (exactly os) doom post ((sysSize fd).bind fun size =>
      (lseek ((size : Int) + offset) fault).bind next) files := by
  refine wp_sysSize (exactly_gives os (Sys.size fd) files) ?_
  change Wp _ _ _ ((lseek (((files.get fd).length : Int) + offset) fault).bind next) files
  rwa [show ((files.get fd).length : Int) + offset = pos from hplace, lseek_natCast, Prog.ret_bind]

end Operations

variable {slot : Slot}

section Writing

variable {post : Except Fault DB → Files → Prop} {whence : Whence} {offset : Int} {pos : Nat}

theorem wp_dbWriteIdx_files (hvalid : slot.Valid) (hplace : Place files .idx whence offset pos)
    {source : KeySource} {db : DB} (hkey : source.key = slot.key)
    (hdatoff : db.datoff = slot.datoff) (hdatlen : db.datlen = slot.datlen)
    (herror : offMax < pos + slot.bytes.length → ∀ after, post (.error .writeIdxWritev) after)
    (hpost : pos + slot.bytes.length ≤ offMax → post (.ok (db.stored pos slot))
      (files.set .idx (writeAt files.idx pos slot.bytes))) :
    Wp (exactly os) doom post (dbWriteIdx db source offset whence slot.ptr) files := by
  have htext : idxText source.key db.datoff db.datlen = slot.text := by
    rw [hdatoff, hdatlen, hkey]
    rfl
  have hbytes : ptrLenText slot.ptr slot.text.length ++ slot.text = slot.bytes := by
    rw [Slot.ptrLenText_eq hvalid]
    rfl
  have hsize := Slot.length_bytes hvalid
  have hshort := hvalid.bytes_short
  have hmin := hvalid.text_min
  have hmax := hvalid.text_max
  have hptr := hvalid.ptr
  unfold dbWriteIdx
  rw [if_neg (by omega), snprintfIdx_fits { db with ptrval := (slot.ptr : Int) } _
    (by rw [htext]; omega)]
  simp only [htext, hbytes]
  rw [if_neg (by omega)]
  cases whence with
  | set =>
    cases hplace
    simp only [Prog.bind_eq, lseek_natCast, Prog.ret_bind]
    exact wp_write_files hsize (fun hlong => herror (by omega))
      fun _ hfits => .ret (hpost (hsize ▸ hfits))
  | «end» =>
    simp only [Prog.bind_eq]
    refine wp_writewLock_files (wp_size_files hplace ?_)
    exact wp_write_files hsize (fun hlong => herror (by omega))
      fun _ hfits => wp_unLock_files (.ret (hpost (hsize ▸ hfits)))

end Writing

/-! ## Index records read back -/

/-- What `_db_readidx` has found in an index record. -/
structure DB.Found (db : DB) (ptrval : Int) (key : Bytes) (datoff : Int) (datlen idxlen : Nat) :
    Prop where
  ptrval : db.ptrval = ptrval
  key : db.idxbuf = key
  datoff : db.datoff = datoff
  datlen : db.datlen = datlen
  idxlen : db.idxlen = idxlen

theorem runs_dbReadIdx_written (hvalid : slot.Valid) (hsep : sep ∉ slot.key) {pos : Nat}
    (hpos : pos ≠ 0) (reader : DB) :
    Runs os (dbReadIdx reader pos) { files with idx := writeAt files.idx pos slot.bytes }
      (.ok (slot.ptr, reader.loaded pos slot))
      { files with idx := writeAt files.idx pos slot.bytes } :=
  runs_of_wp (wp_dbReadIdx (readsSlot_files hvalid (readAt_writeAt ..)) hpos reader
    (fun _ => ⟨rfl, rfl⟩) fun hmem => absurd hmem hsep)

/-- A call of `_db_writeidx`. -/
structure IdxWrite where
  db : DB
  source : KeySource
  offset : Int
  whence : Whence
  ptrval : Int

namespace IdxWrite

def prog (write : IdxWrite) : DbProg DB :=
  dbWriteIdx write.db write.source write.offset write.whence write.ptrval

/-- The key that the caller gives. -/
def name (write : IdxWrite) : Bytes :=
  match write.source with
  | .string key => key.bytes
  | .idxbuf => write.db.idxbuf

/-- The key is the index buffer itself, and it is not empty. -/
def Overprints (write : IdxWrite) : Prop := write.source = .idxbuf ∧ write.db.idxbuf ≠ []

def PtrOk (write : IdxWrite) : Prop := 0 ≤ write.ptrval ∧ write.ptrval ≤ ptrMax

/-- The length of the record with this key is one that the index file may have. -/
def LengthOk (write : IdxWrite) (key : Bytes) : Prop :=
  idxLenMin ≤ (idxText key write.db.datoff write.db.datlen).length ∧
    (idxText key write.db.datoff write.db.datlen).length ≤ idxLenMax

instance (write : IdxWrite) : Decidable write.PtrOk := inferInstanceAs (Decidable (_ ∧ _))

instance (write : IdxWrite) (key : Bytes) : Decidable (write.LengthOk key) :=
  inferInstanceAs (Decidable (_ ∧ _))

def size (write : IdxWrite) : Nat :=
  ptrSz + idxLenSz + (idxText write.name write.db.datoff write.db.datlen).length

/-- The record is written, and every handle reads it back. -/
def ReadBack (write : IdxWrite) (files : Files) (pos : Nat) : Prop :=
  ∃ (bytes : Bytes) (db' : DB), bytes.length = write.size ∧ db'.idxoff = pos ∧
    Runs os write.prog files (.ok db') { files with idx := writeAt files.idx pos bytes } ∧
    ∀ reader, ∃ found : DB, found.Found write.ptrval write.name write.db.datoff write.db.datlen
        (idxText write.name write.db.datoff write.db.datlen).length ∧
      found.idxoff = pos ∧ found.idxpos = pos + bytes.length ∧
      Runs os (dbReadIdx reader pos) { files with idx := writeAt files.idx pos bytes }
        (.ok (write.ptrval, found)) { files with idx := writeAt files.idx pos bytes }

/-- A record that may be in the file is written and read back; any other one is refused
before a byte is written. -/
structure Faithful (write : IdxWrite) (files : Files) (pos : Nat) : Prop where
  readBack : write.PtrOk ∧ write.LengthOk write.name → write.ReadBack files pos
  refused : ¬ (write.PtrOk ∧ write.LengthOk write.name) → ∃ fault, write.prog = .fail fault

variable {write : IdxWrite} {pos : Nat}

theorem source_key_eq (hown : ¬ write.Overprints) : write.source.key = write.name := by
  unfold name
  cases hsource : write.source with
  | string key => rfl
  | idxbuf => exact (not_not.mp fun hne => hown ⟨hsource, hne⟩).symm

theorem Overprints.source_key (hover : write.Overprints) : write.source.key = [] := by
  rw [hover.1]
  rfl

/-- Pointers and lengths out of range are found before anything is written. -/
theorem prog_bad (hbad : ¬ (write.PtrOk ∧ write.LengthOk write.source.key)) :
    ∃ fault, write.prog = .fail fault := by
  unfold prog
  by_cases hptr : write.PtrOk
  · obtain ⟨ptr, hnat⟩ := Int.eq_ofNat_of_zero_le hptr.1
    have hmax := hptr.2
    have hlen : ¬ write.LengthOk write.source.key := fun hlen => hbad ⟨hptr, hlen⟩
    unfold LengthOk at hlen
    rw [hnat] at hmax ⊢
    exact ⟨.writeIdxLength, dbWriteIdx_bad _ _ _ _ (by omega) (by omega)⟩
  · refine ⟨.writeIdxPtr, ?_⟩
    unfold PtrOk at hptr
    unfold dbWriteIdx
    rw [if_pos (by omega)]

/-- The printed record is written in the end, or the write fails. -/
theorem prog_good (hplace : Place files .idx write.whence write.offset pos) (hptr : write.PtrOk)
    (hlen : write.LengthOk write.source.key) (fault : Fault) : write.prog ≠ .fail fault := by
  intro hfail
  unfold PtrOk at hptr
  unfold LengthOk at hlen
  unfold prog dbWriteIdx at hfail
  rw [if_neg (by omega), snprintfIdx_fits { write.db with ptrval := write.ptrval } _ hlen.2]
    at hfail
  simp only at hfail
  rw [if_neg (by omega)] at hfail
  cases hwhence : write.whence with
  | set =>
    rw [hwhence] at hfail hplace
    rw [show write.offset = pos from hplace] at hfail
    simp only [Prog.bind_eq, lseek_natCast, Prog.ret_bind] at hfail
    cases hfail
  | «end» =>
    rw [hwhence] at hfail
    cases hfail

/-- The file offset of a reader at the end of the file is not that of the record. -/
theorem ReadBack.pos_ne_zero (hread : write.ReadBack files pos) (hptr : write.PtrOk) :
    pos ≠ 0 := by
  rintro rfl
  obtain ⟨bytes, db', _, _, _, hreaders⟩ := hread
  obtain ⟨found, _, _, _, hruns⟩ :=
    hreaders { dbAlloc with idxpos := (writeAt files.idx 0 bytes).length }
  have heof := runs_of_wp (@wp_dbReadIdx_end { files with idx := writeAt files.idx 0 bytes } _ _
    { dbAlloc with idxpos := (writeAt files.idx 0 bytes).length } rfl ⟨rfl, rfl⟩)
  have heq := (hruns.unique heof).1
  have hvalue : write.ptrval = -1 := congrArg Prod.fst (Except.ok.inj heq)
  have hnonneg := hptr.1
  omega

section Slot

variable (hplace : Place files .idx write.whence write.offset pos)
variable (hdatoff : 0 ≤ write.db.datoff ∧ write.db.datoff ≤ offMax)
variable (hdatlen : 1 ≤ write.db.datlen ∧ write.db.datlen ≤ datLenMax)

include hdatoff hdatlen in
theorem exists_slot (hptr : write.PtrOk) (hnul : 0 ∉ write.source.key)
    (hlen : write.LengthOk write.source.key) : ∃ slot : Slot, slot.Valid ∧
      (slot.ptr : Int) = write.ptrval ∧ write.source.key = slot.key ∧
      write.db.datoff = slot.datoff ∧ write.db.datlen = slot.datlen ∧
      slot.text = idxText write.source.key write.db.datoff write.db.datlen := by
  obtain ⟨ptr, hnat⟩ := Int.eq_ofNat_of_zero_le hptr.1
  obtain ⟨datoff, hoff⟩ := Int.eq_ofNat_of_zero_le hdatoff.1
  have hmax := hptr.2
  have hoffMax := hdatoff.2
  have htext : (⟨ptr, write.source.key, datoff, write.db.datlen,
      (idxText write.source.key write.db.datoff write.db.datlen).length⟩ : Slot).text =
      idxText write.source.key write.db.datoff write.db.datlen := by
    rw [hoff]
    rfl
  exact ⟨⟨ptr, write.source.key, datoff, write.db.datlen, _⟩, ⟨by dsimp only; omega, hnul,
    by dsimp only; omega, hdatlen.1, hdatlen.2, htext ▸ hlen.1, htext ▸ hlen.2, by rw [htext]⟩,
    hnat.symm, rfl, hoff, rfl, htext⟩

include hplace in
theorem runs_slot (hvalid : slot.Valid) (hptr : (slot.ptr : Int) = write.ptrval)
    (hkey : write.source.key = slot.key) (hdatoff : write.db.datoff = slot.datoff)
    (hdatlen : write.db.datlen = slot.datlen) :
    Wp (exactly os) (fun _ => False)
      (fun outcome final => (offMax < pos + slot.bytes.length ∧ outcome = .error .writeIdxWritev) ∨
        pos + slot.bytes.length ≤ offMax ∧ outcome = .ok (write.db.stored pos slot) ∧
          final = files.set .idx (writeAt files.idx pos slot.bytes)) write.prog files := by
  unfold prog
  rw [← hptr]
  exact wp_dbWriteIdx_files hvalid hplace hkey hdatoff hdatlen
    (fun hlong _ => .inl ⟨hlong, rfl⟩) fun hfits => .inr ⟨hfits, rfl, rfl⟩

include hplace hdatoff hdatlen

theorem readBack_of_own (hnul : 0 ∉ write.name) (hsep : sep ∉ write.name)
    (hown : ¬ write.Overprints) (hpos : pos ≠ 0)
    (hfits : pos + write.size ≤ offMax) (hok : write.PtrOk ∧ write.LengthOk write.name) :
    write.ReadBack files pos := by
  have hname := source_key_eq hown
  obtain ⟨slot, hvalid, hptr, hkey, hoff, hlen, htext⟩ := exists_slot hdatoff hdatlen hok.1
    (hname ▸ hnul) (hname ▸ hok.2)
  rw [hname] at hkey htext
  have hbytes := Slot.length_bytes hvalid
  rw [htext] at hbytes
  obtain ⟨outcome, final, hruns, ⟨hlong, _⟩ | ⟨_, rfl, rfl⟩⟩ :=
    (runs_slot hplace hvalid hptr (hname.trans hkey) hoff hlen).runs
  · exact absurd hlong (by unfold size at hfits; omega)
  refine ⟨slot.bytes, _, hbytes, rfl, hruns, fun reader => ?_⟩
  refine ⟨reader.loaded pos slot, ⟨hptr, hkey.symm, hoff.symm, hlen.symm,
    congrArg List.length htext⟩, rfl, ?_, ?_⟩
  · rw [hbytes, DB.loaded, htext, Nat.add_assoc]
  · rw [← hptr]
    exact runs_dbReadIdx_written hvalid (hkey ▸ hsep) hpos reader

theorem ReadBack.own (hread : write.ReadBack files pos)
    (hok : write.PtrOk ∧ write.LengthOk write.name) :
    ¬ write.Overprints ∧ pos + write.size ≤ offMax := by
  have hpos := hread.pos_ne_zero hok.1
  obtain ⟨bytes, db', hbytes, _, hruns, hreaders⟩ := hread
  have hlength : write.LengthOk write.source.key := by
    by_contra hbad
    obtain ⟨fault, hfail⟩ := prog_bad fun hboth => hbad hboth.2
    rw [hfail] at hruns
    cases (hruns.unique (.fail fault files)).1
  have hnul' : 0 ∉ write.source.key := by
    unfold KeySource.key
    split
    next key _ => exact key.noNul
    next => exact List.not_mem_nil
  obtain ⟨slot, hvalid, hptr, hkey, hoff, hlen, htext⟩ :=
    exists_slot hdatoff hdatlen hok.1 hnul' hlength
  obtain ⟨outcome, final, hruns', ⟨_, rfl⟩ | ⟨hfits, rfl, rfl⟩⟩ :=
    (runs_slot hplace hvalid hptr hkey hoff hlen).runs
  · cases (hruns.unique hruns').1
  have hown : ¬ write.Overprints := by
    intro hover
    obtain ⟨found, hfound, _, _, hreads⟩ := hreaders dbAlloc
    rw [(hruns.unique hruns').2] at hreads
    have hempty : slot.key = [] := hkey.symm.trans hover.source_key
    have hloaded := @runs_dbReadIdx_written files slot hvalid (hempty ▸ List.not_mem_nil) pos hpos
      dbAlloc
    have heq := congrArg Prod.snd (Except.ok.inj (hreads.unique hloaded).1)
    have hbuf : found.idxbuf = slot.key := congrArg DB.idxbuf heq
    rw [hempty, hfound.key, name, hover.1] at hbuf
    exact hover.2 hbuf
  refine ⟨hown, ?_⟩
  rw [Slot.length_bytes hvalid, htext, source_key_eq hown] at hfits
  exact hfits

end Slot

end IdxWrite

/-- Index records are read back as they were to be written, and refused otherwise, except
for a key that is the index buffer, which has been overwritten when it is printed; offset
`0` means the current offset to `_db_readidx`, and a file ends at the largest offset. -/
theorem index_record_read_back_iff (write : IdxWrite) (files : Files) {pos : Nat}
    (hplace : Place files .idx write.whence write.offset pos)
    (hnul : 0 ∉ write.name) (hsep : sep ∉ write.name)
    (hdatoff : 0 ≤ write.db.datoff ∧ write.db.datoff ≤ offMax)
    (hdatlen : 1 ≤ write.db.datlen ∧ write.db.datlen ≤ datLenMax) :
    write.Faithful files pos ↔
      (write.PtrOk ∧ write.LengthOk write.name →
        ¬ write.Overprints ∧ pos ≠ 0 ∧ pos + write.size ≤ offMax) ∧
      (write.Overprints → write.PtrOk → ¬ write.LengthOk write.name → ¬ write.LengthOk []) := by
  constructor
  · rintro ⟨hread, hrefused⟩
    refine ⟨fun hok => ?_, fun hover hptr hbad hempty => ?_⟩
    · obtain ⟨hown, hfits⟩ := (hread hok).own hplace hdatoff hdatlen hok
      exact ⟨hown, (hread hok).pos_ne_zero hok.1, hfits⟩
    · obtain ⟨fault, hfail⟩ := hrefused fun hok => hbad hok.2
      exact IdxWrite.prog_good hplace hptr (hover.source_key ▸ hempty) fault hfail
  · rintro ⟨hgood, hbad⟩
    refine ⟨fun hok => ?_, fun hnot => ?_⟩
    · obtain ⟨hown, hpos, hfits⟩ := hgood hok
      exact IdxWrite.readBack_of_own hplace hdatoff hdatlen hnul hsep hown hpos hfits hok
    · refine IdxWrite.prog_bad fun hok => hnot ⟨hok.1, ?_⟩
      by_cases hover : write.Overprints
      · by_contra hlong
        exact hbad hover hok.1 hlong (hover.source_key ▸ hok.2)
      · exact IdxWrite.source_key_eq hover ▸ hok.2

/-- A record with a key of one byte behind the header. -/
theorem index_record_read_back_iff_one :
    ∃ found : DB, found.Found 0 [97] 0 2 6 ∧ found.idxpos = firstRec + 17 := by
  have hfaithful := (index_record_read_back_iff
    ⟨{ dbAlloc with datlen := 2 }, .string ⟨[97], by decide⟩, firstRec, .set, 0⟩ ⟨emptyHash, []⟩
    rfl (by decide) (by decide) (by decide) (by decide)).mpr
      ⟨fun _ => ⟨nofun, by decide, by decide⟩, nofun⟩
  obtain ⟨bytes, _, hlength, _, _, hread⟩ := hfaithful.readBack ⟨by decide, by decide⟩
  obtain ⟨found, hfound, _, hpos, _⟩ := hread dbAlloc
  exact ⟨found, hfound, hpos.trans (by rw [hlength]; rfl)⟩

/-- The call that `_db_dodelete` makes for the only record of a database, whose key of one
byte it has filled with blanks. -/
def deletedRecord : IdxWrite :=
  ⟨{ dbAlloc with idxbuf := [space], datlen := 10 }, .idxbuf, firstRec, .set, 0⟩

/-- The blanks are not read back: the record has no key, and it is one byte too short. -/
theorem deleted_record_not_read_back :
    deletedRecord.name = [space] ∧ deletedRecord.PtrOk ∧ deletedRecord.LengthOk [space] ∧
    ∃ db files found, Runs os deletedRecord.prog ⟨emptyHash, []⟩ (.ok db) files ∧
      Runs os (dbReadIdx db firstRec) files (.ok (0, found)) files ∧
      found.idxbuf = [] ∧ found.idxpos + 1 = firstRec + deletedRecord.size := by
  refine ⟨rfl, by decide, by decide, ?_⟩
  have hvalid : (⟨0, [], 0, 10, 6⟩ : Slot).Valid := by constructor <;> decide
  have hplace : Place ⟨emptyHash, []⟩ .idx .set firstRec firstRec := rfl
  exact ⟨_, _, _, runs_of_wp (wp_dbWriteIdx_files hvalid hplace rfl rfl rfl
    (fun hlong => absurd hlong (by decide)) fun _ => ⟨rfl, rfl⟩),
    runs_dbReadIdx_written hvalid (by decide) (by decide) _, rfl, rfl⟩

end ApueFormal.Database
