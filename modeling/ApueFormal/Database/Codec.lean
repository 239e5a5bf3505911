import ApueFormal.Database.Model
import ApueFormal.Program.Logic

/-!
# Index records

A slot is the structured form of an index record.  The functions that read and
write index records are specified here for an arbitrary theory of the system
calls: reading a slot needs no more than that the reads of its two parts
deliver the bytes of the slot.
-/

namespace ApueFormal.Database

open Libc Program

def ptrText (ptr : Nat) : Bytes := padLeft ptrSz (decimal ptr)

variable {ptr : Nat}

theorem length_ptrText (hptr : ptr ≤ ptrMax) : (ptrText ptr).length = ptrSz :=
  length_padLeft (length_decimal_le (by decide)
    (Nat.lt_of_le_of_lt hptr (by decide)))

theorem atol_ptrText (hptr : ptr ≤ ptrMax) : atol (ptrText ptr) = ptr :=
  ato_padLeft 64 ptrSz ptr (by unfold ptrMax at hptr; omega)

/-- The structured form of an index record.  `room` is the number of bytes
that belong to the record after its first two fields; a record that has been
rewritten with a shorter text keeps its room. -/
structure Slot where
  ptr : Nat
  key : Bytes
  datoff : Nat
  datlen : Nat
  room : Nat
  deriving DecidableEq

namespace Slot

/-- The text of the record: key, separators, place of the data, newline. -/
def text (slot : Slot) : Bytes := idxText slot.key slot.datoff slot.datlen

/-- The chain pointer and the length in front of the text. -/
def head (slot : Slot) : Bytes :=
  ptrText slot.ptr ++ padLeft idxLenSz (decimal slot.text.length)

def bytes (slot : Slot) : Bytes := slot.head ++ slot.text

/-- The record can be read back: all its fields fit their widths. -/
structure Valid (slot : Slot) : Prop where
  ptr : slot.ptr ≤ ptrMax
  key : (0 : Byte) ∉ slot.key
  datoff : slot.datoff ≤ offMax
  datlen_pos : 0 < slot.datlen
  datlen_le : slot.datlen ≤ datLenMax
  text_min : idxLenMin ≤ slot.text.length
  text_max : slot.text.length ≤ idxLenMax
  room : slot.text.length ≤ slot.room

theorem text_eq (slot : Slot) :
    slot.text = slot.key ++ sep :: (decimal slot.datoff ++
      sep :: decimal slot.datlen) ++ [newline] := by
  simp [text, idxText]

theorem length_text (slot : Slot) :
    slot.text.length = slot.key.length + (decimal slot.datoff).length +
      (decimal slot.datlen).length + 3 := by
  rw [text_eq]
  simp only [List.length_append, List.length_cons, List.length_nil]
  omega

variable {slot : Slot}
variable (hvalid : slot.Valid)
include hvalid

theorem length_head : slot.head.length = ptrSz + idxLenSz := by
  have hlen : (decimal slot.text.length).length ≤ idxLenSz :=
    length_decimal_le (by decide) (Nat.lt_of_le_of_lt hvalid.text_max (by decide))
  rw [head, List.length_append, length_ptrText hvalid.ptr, length_padLeft hlen]

theorem length_bytes : slot.bytes.length = ptrSz + idxLenSz + slot.text.length := by
  rw [bytes, List.length_append, length_head hvalid]

theorem take_head : slot.head.take ptrSz = ptrText slot.ptr := by
  rw [head, List.take_left' (length_ptrText hvalid.ptr)]

theorem drop_head : slot.head.drop ptrSz = padLeft idxLenSz (decimal slot.text.length) := by
  rw [head, List.drop_left' (length_ptrText hvalid.ptr)]

omit hvalid in
theorem getLast?_text (slot : Slot) : slot.text.getLast? = some newline := by
  rw [text_eq, List.getLast?_append]
  rfl

omit hvalid in
theorem dropLast_text (slot : Slot) :
    slot.text.dropLast = slot.key ++ sep :: (decimal slot.datoff ++
      sep :: decimal slot.datlen) := by
  rw [text_eq, List.dropLast_concat]

theorem noNul_text : (0 : Byte) ∉ slot.text.dropLast := by
  rw [dropLast_text]
  have hone : (0 : Byte) ∉ decimal slot.datoff := not_mem_decimal rfl _
  have htwo : (0 : Byte) ∉ decimal slot.datlen := not_mem_decimal rfl _
  simp only [List.mem_append, List.mem_cons, not_or]
  exact ⟨hvalid.key, by decide, hone, by decide, htwo⟩

theorem ptrLenText_eq : ptrLenText slot.ptr slot.text.length = slot.head := by
  rw [ptrLenText, fmtD_natCast, fmtD_natCast]
  exact List.take_of_length_le (Nat.le_of_eq (length_head hvalid))

end Slot

@[simp] theorem lseek_natCast (pos : Nat) (fault : Fault) : lseek pos fault = .ret pos := by
  unfold lseek
  rw [if_neg (by omega), Int.toNat_natCast]

/-! ## Splitting the text of a record -/

variable {slot : Slot}

theorem dbSplitIdx_good (db : DB) (hvalid : slot.Valid) (hkey : sep ∉ slot.key) :
    dbSplitIdx db slot.text.dropLast = .ret (db.ptrval, { db with
      idxbuf := slot.key
      datoff := slot.datoff
      datlen := slot.datlen }) := by
  have hoff : atol (decimal slot.datoff) = slot.datoff :=
    ato_decimal 64 slot.datoff (by
      have hle := hvalid.datoff
      unfold offMax at hle
      omega)
  have hlen : atol (decimal slot.datlen) = slot.datlen :=
    ato_decimal 64 slot.datlen (by
      have hle := hvalid.datlen_le
      unfold datLenMax at hle
      omega)
  have hsize : toSize (slot.datlen : Int) = slot.datlen := by
    have hle := hvalid.datlen_le
    unfold datLenMax at hle
    unfold toSize
    omega
  have hpos := hvalid.datlen_pos
  have hmax := hvalid.datlen_le
  unfold dbSplitIdx
  rw [Slot.dropLast_text, strchr_append hkey]
  simp only
  rw [strchr_append (not_mem_decimal rfl slot.datoff)]
  simp only
  rw [if_neg (not_mem_decimal rfl slot.datlen), hoff, if_neg (by omega), hlen,
    hsize, if_neg (by omega)]

theorem dbSplitIdx_bad (db : DB) (hkey : sep ∈ slot.key) :
    dbSplitIdx db slot.text.dropLast = .fail .readIdxManySeps := by
  obtain ⟨before, after, hnot, hsplit⟩ :
      ∃ before after, sep ∉ before ∧ slot.key = before ++ sep :: after := by
    obtain ⟨before, after, hsplit, hnot⟩ := List.eq_append_cons_of_mem hkey
    exact ⟨before, after, hnot, hsplit⟩
  unfold dbSplitIdx
  rw [Slot.dropLast_text, hsplit, List.append_assoc, List.cons_append,
    strchr_append hnot]
  simp only
  by_cases hafter : sep ∈ after
  · obtain ⟨middle, rest, hsplit', hnot'⟩ := List.eq_append_cons_of_mem hafter
    rw [hsplit', List.append_assoc, List.cons_append, strchr_append hnot']
    simp
  · rw [strchr_append hafter]
    simp

/-! ## Reading a slot -/

def DB.loaded (db : DB) (pos : Nat) (slot : Slot) : DB :=
  { db with
    idxoff := pos
    idxpos := pos + (ptrSz + idxLenSz) + slot.text.length
    ptrval := slot.ptr
    idxlen := slot.text.length
    idxbuf := slot.key
    datoff := slot.datoff
    datlen := slot.datlen }

variable {data : Bytes}

section Theory

variable {S : Type} {theory : Theory sysSig S} {doom : Fault → Prop} {α : Type}

/-- In this state the file holds these bytes at this offset. -/
def Reads (theory : Theory sysSig S) (state : S) (fd : Fd) (pos : Nat) (bytes : Bytes) : Prop :=
  theory.Gives (Sys.read fd pos bytes.length) state bytes state

/-- The two reads of an index record deliver this slot. -/
structure ReadsSlot (theory : Theory sysSig S) (state : S) (pos : Nat) (slot : Slot) : Prop where
  valid : slot.Valid
  head : Reads theory state .idx pos slot.head
  text : Reads theory state .idx (pos + (ptrSz + idxLenSz)) slot.text

variable {state after : S} {fd : Fd} {pos len : Nat} {bytes : Bytes}
  {post : Except Fault (Int × DB) → S → Prop} {db : DB}
variable {next : Bytes → DbProg α}

theorem wp_sysRead_gives {post : Except Fault α → S → Prop}
    (hgives : theory.Gives (Sys.read fd pos len) state bytes after)
    (hnext : Wp theory doom post (next bytes) after) :
    Wp theory doom post ((sysRead fd pos len).bind next) state :=
  Wp.gives hgives hnext

theorem wp_sysRead {post : Except Fault α → S → Prop} (hreads : Reads theory state fd pos bytes)
    (hlen : bytes.length = len) (hnext : Wp theory doom post (next bytes) state) :
    Wp theory doom post ((sysRead fd pos len).bind next) state := by
  subst hlen
  exact Wp.gives hreads hnext

theorem wp_sysWrite {post : Except Fault α → S → Prop} {count : Int} {next : Int → DbProg α}
    (hgives : theory.Gives (Sys.write fd pos bytes) state count after)
    (hnext : Wp theory doom post (next count) after) :
    Wp theory doom post ((sysWrite fd pos bytes).bind next) state :=
  Wp.gives hgives hnext

theorem wp_sysSize {post : Except Fault α → S → Prop} {next : Nat → DbProg α}
    (hgives : theory.Gives (Sys.size fd) state len after)
    (hnext : Wp theory doom post (next len) after) :
    Wp theory doom post ((sysSize fd).bind next) state :=
  Wp.gives hgives hnext

/-- The part of `_db_readidx` after the pointer and the length have been read. -/
def readIdxBody (db : DB) (offset : Int) (pos : Nat) (head : Bytes) : DbProg (Int × DB) :=
  if head.length ≠ ptrSz + idxLenSz then
    if head.length = 0 ∧ offset = 0 then
      .ret (-1, { db with idxoff := pos, idxpos := pos })
    else
      .fail .readIdxReadv
  else
    let idxlen := toSize (atoi (head.drop ptrSz))
    if idxlen < idxLenMin ∨ idxLenMax < idxlen then
      .fail .readIdxLength
    else
      (sysRead .idx (pos + (ptrSz + idxLenSz)) idxlen).bind fun body =>
        if body.length ≠ idxlen then
          .fail .readIdxRead
        else if body.getLast? ≠ some newline then
          .fail .readIdxNewline
        else
          dbSplitIdx { db with
            idxoff := pos
            idxpos := pos + (ptrSz + idxLenSz) + idxlen
            ptrval := atol (head.take ptrSz)
            idxlen := idxlen } (cstr body.dropLast)

theorem dbReadIdxAt_eq (db : DB) (offset : Int) (pos : Nat) : dbReadIdxAt db offset pos =
      (sysRead .idx pos (ptrSz + idxLenSz)).bind (readIdxBody db offset pos) := rfl

theorem wp_readIdxBody (hvalid : slot.Valid)
    (htext : theory.Gives (Sys.read .idx (pos + (ptrSz + idxLenSz)) slot.text.length) state
      slot.text after) (db : DB) (offset : Int)
    (hgood : sep ∉ slot.key → post (.ok (slot.ptr, db.loaded pos slot)) after)
    (hbad : sep ∈ slot.key → post (.error .readIdxManySeps) after) :
    Wp theory doom post (readIdxBody db offset pos slot.head) state := by
  have hidxlen : toSize (atoi (slot.head.drop ptrSz)) = slot.text.length := by
    have hmax := hvalid.text_max
    unfold idxLenMax at hmax
    rw [Slot.drop_head hvalid]
    unfold atoi
    rw [ato_padLeft 32 _ _ (by omega)]
    unfold toSize
    omega
  have hptr : atol (slot.head.take ptrSz) = slot.ptr := by
    rw [Slot.take_head hvalid, atol_ptrText hvalid.ptr]
  have hmin := hvalid.text_min
  have hmax := hvalid.text_max
  unfold readIdxBody
  rw [if_neg (not_not.mpr (Slot.length_head hvalid))]
  simp only [hidxlen]
  rw [if_neg (by omega)]
  refine wp_sysRead_gives htext ?_
  rw [if_neg (by simp), if_neg (not_not.mpr slot.getLast?_text),
    cstr_of_noNul (Slot.noNul_text hvalid), hptr]
  by_cases hkey : sep ∈ slot.key
  · rw [dbSplitIdx_bad _ hkey]
    exact .fail (hbad hkey)
  · rw [dbSplitIdx_good _ hvalid hkey]
    exact .ret (hgood hkey)

theorem wp_dbReadIdxAt (hslot : ReadsSlot theory state pos slot) (db : DB) (offset : Int)
    (hgood : sep ∉ slot.key → post (.ok (slot.ptr, db.loaded pos slot)) state)
    (hbad : sep ∈ slot.key → post (.error .readIdxManySeps) state) :
    Wp theory doom post (dbReadIdxAt db offset pos) state := by
  rw [dbReadIdxAt_eq]
  exact wp_sysRead hslot.head (Slot.length_head hslot.valid)
    (wp_readIdxBody hslot.valid hslot.text db offset hgood hbad)

/-- `_db_readidx` at the offset of a slot loads the slot, unless its key
contains a separator. -/
theorem wp_dbReadIdx (hslot : ReadsSlot theory state pos slot) (hpos : pos ≠ 0) (db : DB)
    (hgood : sep ∉ slot.key → post (.ok (slot.ptr, db.loaded pos slot)) state)
    (hbad : sep ∈ slot.key → post (.error .readIdxManySeps) state) :
    Wp theory doom post (dbReadIdx db pos) state := by
  unfold dbReadIdx
  rw [if_neg (by omega), lseek_natCast, Prog.ret_bind]
  exact wp_dbReadIdxAt hslot db pos hgood hbad

theorem wp_dbReadIdx_here (hslot : ReadsSlot theory state db.idxpos slot)
    (hgood : sep ∉ slot.key → post (.ok (slot.ptr, db.loaded db.idxpos slot)) state)
    (hbad : sep ∈ slot.key → post (.error .readIdxManySeps) state) :
    Wp theory doom post (dbReadIdx db 0) state := by
  unfold dbReadIdx
  rw [if_pos rfl]
  exact wp_dbReadIdxAt hslot db 0 hgood hbad

theorem wp_dbReadPtr (hptr : ptr ≤ ptrMax) (hreads : Reads theory state .idx pos (ptrText ptr))
    (db : DB) (hpost : post (.ok (ptr, { db with idxpos := pos + ptrSz })) state) :
    Wp theory doom post (dbReadPtr db pos) state := by
  unfold dbReadPtr
  simp only [Prog.bind_eq, lseek_natCast, Prog.ret_bind]
  refine wp_sysRead hreads (length_ptrText hptr) ?_
  rw [if_neg (not_not.mpr (length_ptrText hptr)), atol_ptrText hptr]
  exact .ret hpost

/-- The part of `_db_readdat` after the data has been read. -/
def readDatBody (db : DB) (pos : Nat) (bytes : Bytes) : DbProg (Bytes × DB) :=
  if bytes.length ≠ db.datlen then
    .fail .readDatRead
  else if bytes.getLast? ≠ some newline then
    .fail .readDatNewline
  else
    .ret (cstr bytes.dropLast, { db with
      datpos := pos + db.datlen
      datbuf := writeAt db.datbuf 0 (bytes.dropLast ++ [0]) })

/-- The handle after `_db_readdat` has put a string into the data buffer. -/
def DB.buffered (db : DB) (datpos : Nat) (data : Bytes) : DB :=
  { db with
    datpos := datpos
    datbuf := writeAt db.datbuf 0 (data ++ [0]) }

theorem dbReadDat_eq (hoff : db.datoff = pos) :
    dbReadDat db = (sysRead .dat pos db.datlen).bind (readDatBody db pos) := by
  have hseek : lseek db.datoff .readDatSeek = .ret pos := by
    rw [hoff, lseek_natCast]
  unfold dbReadDat
  simp only [Prog.bind_eq, hseek, Prog.ret_bind]
  rfl

theorem readDatBody_good (pos : Nat) (hlen : db.datlen = data.length + 1) (hnul : (0 : Byte) ∉ data)
    :
    readDatBody db pos (data ++ [newline]) =
      .ret (data, db.buffered (pos + db.datlen) data) := by
  unfold readDatBody
  rw [if_neg (by simp [hlen]), if_neg (by simp), List.dropLast_concat, cstr_of_noNul hnul]
  rfl

theorem wp_dbReadDat {post : Except Fault (Bytes × DB) → S → Prop} (hoff : db.datoff = pos)
    (hlen : db.datlen = data.length + 1) (hnul : (0 : Byte) ∉ data)
    (hreads : Reads theory state .dat pos (data ++ [newline]))
    (hpost : post (.ok (data, db.buffered (pos + db.datlen) data)) state) :
    Wp theory doom post (dbReadDat db) state := by
  rw [dbReadDat_eq hoff]
  refine wp_sysRead hreads (by simp [hlen]) ?_
  rw [readDatBody_good pos hlen hnul]
  exact .ret hpost

end Theory

def KeySource.key : KeySource → Bytes
  | .string key => key.bytes
  | .idxbuf => []

theorem length_idxText (key : Bytes) (datoff : Int) (datlen : Nat) :
    key.length ≤ (idxText key datoff datlen).length := by
  simp only [idxText, List.length_append]
  omega

theorem snprintfIdx_fits (db : DB) (source : KeySource)
    (hmax : (idxText source.key db.datoff db.datlen).length ≤ idxLenMax) :
    db.snprintfIdx source = { db with idxbuf := idxText source.key db.datoff db.datlen } := by
  have hkey := length_idxText source.key db.datoff db.datlen
  unfold idxLenMax at hmax
  unfold DB.snprintfIdx
  cases source with
  | string key =>
    simp only [KeySource.key] at hkey hmax ⊢
    rw [if_neg (by omega), List.take_of_length_le (by unfold idxLenMax; omega)]
  | idxbuf =>
    simp only [KeySource.key] at hkey hmax ⊢
    rw [if_neg (by simp), List.take_of_length_le (by unfold idxLenMax; omega)]

theorem snprintfIdx_long (db : DB) (source : KeySource)
    (hmax : idxLenMax < (idxText source.key db.datoff db.datlen).length) :
    (db.snprintfIdx source).idxbuf.length < idxLenMin ∨
      idxLenMax < (db.snprintfIdx source).idxbuf.length := by
  have hcut : ((idxText source.key db.datoff db.datlen).take
      (idxLenMax + 1)).length = idxLenMax + 1 := by
    rw [List.length_take]
    omega
  unfold DB.snprintfIdx
  cases source with
  | string key =>
    simp only [KeySource.key] at hcut ⊢
    split
    · exact .inl (Nat.succ_pos _)
    · exact .inr (by simp only [hcut]; omega)
  | idxbuf =>
    simp only [KeySource.key] at hcut ⊢
    rw [if_neg (by simp)]
    exact .inr (by simp only [hcut]; omega)

theorem take_fmtD_ptr (hptr : ptr ≤ ptrMax) :
    (padLeft ptrSz (fmtD ptr)).take ptrSz = ptrText ptr := by
  rw [fmtD_natCast]
  exact List.take_of_length_le (Nat.le_of_eq (length_ptrText hptr))

section Theory

variable {S : Type} {theory : Theory sysSig S} {doom : Fault → Prop}
variable {post : Except Fault DB → S → Prop} {state after : S} {pos : Nat}

theorem wp_dbWritePtr (hptr : ptr ≤ ptrMax)
    (hgives : theory.Gives (Sys.write .idx pos (ptrText ptr)) state (ptrSz : Int) after) (db : DB)
    (hpost : post (.ok { db with idxpos := pos + ptrSz }) after) :
    Wp theory doom post (dbWritePtr db pos ptr) state := by
  unfold dbWritePtr
  rw [if_neg (by omega), take_fmtD_ptr hptr]
  simp only [Prog.bind_eq, lseek_natCast, Prog.ret_bind]
  refine wp_sysWrite hgives ?_
  rw [if_neg (by simp)]
  exact .ret hpost

theorem dbWritePtr_bad (db : DB) (offset : Int) (hptr : ptrMax < ptr) :
    dbWritePtr db offset ptr = .fail .writePtrPtr := by
  unfold dbWritePtr
  rw [if_pos (by omega)]

theorem wp_dbWriteDat (hgives : theory.Gives (Sys.write .dat pos (data ++ [newline])) state
      ((data.length + 1 : Nat) : Int) after) (db : DB) (hpost : post (.ok { db with
      datpos := pos + (data.length + 1)
      datoff := pos
      datlen := data.length + 1 }) after) :
    Wp theory doom post (dbWriteDat db data pos .set) state := by
  unfold dbWriteDat
  simp only [Prog.bind_eq, lseek_natCast, Prog.ret_bind]
  refine wp_sysWrite hgives ?_
  rw [if_neg (by simp)]
  exact .ret hpost

def DB.stored (db : DB) (pos : Nat) (slot : Slot) : DB :=
  { db with
    ptrval := slot.ptr
    idxbuf := slot.text
    idxpos := pos + (ptrSz + idxLenSz + slot.text.length)
    idxoff := pos }

theorem dbWriteIdx_bad (db : DB) (source : KeySource) (offset : Int) (whence : Whence)
    (hptr : ptr ≤ ptrMax) (hlen : (idxText source.key db.datoff db.datlen).length < idxLenMin ∨
      idxLenMax < (idxText source.key db.datoff db.datlen).length) :
    dbWriteIdx db source offset whence ptr = .fail .writeIdxLength := by
  unfold dbWriteIdx
  rw [if_neg (by omega)]
  simp only
  rw [if_pos]
  rcases hlen with hshort | hlong
  · rw [snprintfIdx_fits { db with ptrval := (ptr : Int) } source
      (Nat.le_trans (Nat.le_of_lt hshort) (by decide))]
    exact .inl hshort
  · exact snprintfIdx_long { db with ptrval := (ptr : Int) } source hlong

theorem wp_dbWriteIdx (hvalid : slot.Valid) {db : DB} {source : KeySource}
    (hkey : source.key = slot.key) (hdatoff : db.datoff = slot.datoff)
    (hdatlen : db.datlen = slot.datlen)
    (hgives : theory.Gives (Sys.write .idx pos slot.bytes) state (slot.bytes.length : Int) after)
    (hpost : post (.ok (db.stored pos slot)) after) :
    Wp theory doom post (dbWriteIdx db source pos .set slot.ptr) state := by
  have htext : idxText source.key db.datoff db.datlen = slot.text := by
    rw [hkey, hdatoff, hdatlen]
    rfl
  have hmin := hvalid.text_min
  have hmax := hvalid.text_max
  have hptr := hvalid.ptr
  unfold dbWriteIdx
  rw [if_neg (by omega), snprintfIdx_fits { db with ptrval := (slot.ptr : Int) }
    source (by rw [htext]; exact hmax)]
  simp only [htext]
  rw [if_neg (by omega), Slot.ptrLenText_eq hvalid]
  simp only [Prog.bind_eq, lseek_natCast, Prog.ret_bind]
  refine wp_sysWrite hgives ?_
  rw [if_neg (by rw [Slot.length_bytes hvalid]; simp)]
  exact .ret hpost

end Theory

end ApueFormal.Database
