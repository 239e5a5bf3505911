import ApueFormal.Libc.File
import ApueFormal.Program.Basic

/-!
# The database library

A database is an index file and a data file.  The index file starts with
`NHASH_DEF + 1` chain pointers of `PTR_SZ` characters, the free list pointer
first, and a newline.  An index record is a chain pointer, a length of
`IDXLEN_SZ` characters and the text `key:datoff:datlen\n`.

Every function below is the function of `db.c` with the same words in its name.
A handle is passed explicitly.  It records the offsets of its two file
descriptors, which belong to the process, as fields of the handle.  Each system
call on shared data is one operation.  The locking calls wait and then
succeed, and a write reports an error only when it would pass the largest file
offset, so the checks for other failures of these calls have no counterpart.
The usage counters of the handle are never read and are left out.
-/

namespace ApueFormal.Database

open Libc Program

def idxLenSz : Nat := 4
def sep : Byte := 58
def space : Byte := 32
def newline : Byte := 10
def ptrSz : Nat := 7
def ptrMax : Nat := 9999999
def nhashDef : Nat := 137
def freeOff : Nat := 0
def hashOff : Nat := ptrSz
def idxLenMin : Nat := 6
def idxLenMax : Nat := 1024
def datLenMin : Nat := 2
def datLenMax : Nat := 1024

def dbInsert : Int := 1
def dbReplace : Int := 2
def dbStoreFlag : Int := 3

/-- The offset of the first index record: the pointers and a newline. -/
def firstRec : Nat := (nhashDef + 1) * ptrSz + 1

/-! ## System calls -/

inductive Fd where
  | idx
  | dat
  deriving DecidableEq

inductive LockType where
  | read
  | write
  deriving DecidableEq

inductive Whence where
  | set
  | end
  deriving DecidableEq

/-- The system calls.  `read` and `write` also stand for `readv` and `writev`,
and carry the file offset of the descriptor.  `size` is `lseek` to the end of
the file, or `fstat`.  A lock of length `0` reaches to the end of the file. -/
inductive Sys where
  | read (fd : Fd) (pos len : Nat)
  | write (fd : Fd) (pos : Nat) (bytes : Bytes)
  | size (fd : Fd)
  | truncate (fd : Fd)
  | lock (fd : Fd) (type : LockType) (start len : Nat)
  | unlock (fd : Fd) (start len : Nat)
  deriving DecidableEq

def Sys.Answer : Sys → Type
  | .read _ _ _ => Bytes
  | .write _ _ _ => Int
  | .size _ => Nat
  | .truncate _ => Unit
  | .lock _ _ _ _ => Unit
  | .unlock _ _ _ => Unit

def sysSig : Signature := ⟨Sys, Sys.Answer⟩

/-- The calls of `err_dump` and `err_quit`, which end the process. -/
inductive Fault where
  | openInit
  | readPtrSeek
  | readPtrRead
  | readIdxSeek
  | readIdxReadv
  | readIdxLength
  | readIdxRead
  | readIdxNewline
  | readIdxFirstSep
  | readIdxSecondSep
  | readIdxManySeps
  | readIdxOffset
  | readDatSeek
  | readDatRead
  | readDatNewline
  | writeDatSeek
  | writeDatWritev
  | writeIdxPtr
  | writeIdxLength
  | writeIdxSeek
  | writeIdxWritev
  | writePtrPtr
  | writePtrSeek
  | writePtrWrite
  | storeLength
  deriving DecidableEq, Repr

def Fault.message : Fault → String
  | .openInit => "db_open: index file init write error"
  | .readPtrSeek => "_db_readptr: lseek error to ptr field"
  | .readPtrRead => "_db_readptr: read error of ptr field"
  | .readIdxSeek => "_db_readidx: lseek error"
  | .readIdxReadv => "_db_readidx: readv error of index record"
  | .readIdxLength => "_db_readidx: invalid length"
  | .readIdxRead => "_db_readidx: read error of index record"
  | .readIdxNewline => "_db_readidx: missing newline"
  | .readIdxFirstSep => "_db_readidx: missing first separator"
  | .readIdxSecondSep => "_db_readidx: missing second separator"
  | .readIdxManySeps => "_db_readidx: too many separators"
  | .readIdxOffset => "_db_readidx: starting offset < 0"
  | .readDatSeek => "_db_readdat: lseek error"
  | .readDatRead => "_db_readdat: read error"
  | .readDatNewline => "_db_readdat: missing newline"
  | .writeDatSeek => "_db_writedat: lseek error"
  | .writeDatWritev => "_db_writedat: writev error of data record"
  | .writeIdxPtr => "_db_writeidx: invalid ptr: %d"
  | .writeIdxLength => "_db_writeidx: invalid length"
  | .writeIdxSeek => "_db_writeidx: lseek error"
  | .writeIdxWritev => "_db_writeidx: writev error of index record"
  | .writePtrPtr => "_db_writeptr: invalid ptr: %d"
  | .writePtrSeek => "_db_writeptr: lseek error to ptr field"
  | .writePtrWrite => "_db_writeptr: write error of ptr field"
  | .storeLength => "db_store: invalid data length"

abbrev DbProg (α : Type) := Prog sysSig Fault α

def sysRead (fd : Fd) (pos len : Nat) : DbProg Bytes :=
  @Prog.op sysSig Fault (Sys.read fd pos len)

def sysWrite (fd : Fd) (pos : Nat) (bytes : Bytes) : DbProg Int :=
  @Prog.op sysSig Fault (Sys.write fd pos bytes)

def sysSize (fd : Fd) : DbProg Nat := @Prog.op sysSig Fault (Sys.size fd)

def sysTruncate (fd : Fd) : DbProg Unit := @Prog.op sysSig Fault (Sys.truncate fd)

def readwLock (fd : Fd) (start len : Nat) : DbProg Unit :=
  @Prog.op sysSig Fault (Sys.lock fd .read start len)

def writewLock (fd : Fd) (start len : Nat) : DbProg Unit :=
  @Prog.op sysSig Fault (Sys.lock fd .write start len)

def unLock (fd : Fd) (start len : Nat) : DbProg Unit :=
  @Prog.op sysSig Fault (Sys.unlock fd start len)

structure Files where
  idx : Bytes
  dat : Bytes
  deriving DecidableEq

def Files.get (files : Files) : Fd → Bytes
  | .idx => files.idx
  | .dat => files.dat

def Files.set (files : Files) (fd : Fd) (bytes : Bytes) : Files :=
  match fd with
  | .idx => { files with idx := bytes }
  | .dat => { files with dat := bytes }

def offMax : Nat := 2 ^ 63 - 1

/-- The most bytes that one call of `write` or `writev` transfers. -/
def rwMax : Nat := 0x7ffff000

/-- The effect of `write`: a long request is cut short, and a request that
would pass the largest file offset fails. -/
def osWrite (files : Files) (fd : Fd) (pos : Nat) (bytes : Bytes) : Int × Files :=
  if pos + min bytes.length rwMax ≤ offMax then
    ((min bytes.length rwMax : Nat),
      files.set fd (writeAt (files.get fd) pos (bytes.take rwMax)))
  else
    (-1, files)

def os : Machine sysSig Files
  | .read fd pos len, files => (readAt (files.get fd) pos len, files)
  | .write fd pos bytes, files => osWrite files fd pos bytes
  | .size fd, files => ((files.get fd).length, files)
  | .truncate fd, files => ((), files.set fd [])
  | .lock _ _ _ _, files => ((), files)
  | .unlock _ _ _, files => ((), files)

/-! ## The handle -/

/-- The private representation of an open database. -/
structure DB where
  /-- File offset of the index descriptor. -/
  idxpos : Nat
  /-- File offset of the data descriptor. -/
  datpos : Nat
  /-- The string in the index buffer. -/
  idxbuf : Bytes
  /-- The bytes of the data buffer. -/
  datbuf : Bytes
  idxoff : Int
  idxlen : Nat
  datoff : Int
  datlen : Nat
  ptrval : Int
  ptroff : Int
  chainoff : Int
  deriving DecidableEq

/-- `_db_alloc`. -/
def dbAlloc : DB where
  idxpos := 0
  datpos := 0
  idxbuf := []
  datbuf := []
  idxoff := 0
  idxlen := 0
  datoff := 0
  datlen := 0
  ptrval := 0
  ptroff := 0
  chainoff := 0

def lseek (offset : Int) (fault : Fault) : DbProg Nat :=
  if offset < 0 then .fail fault else .ret offset.toNat

/-- `_db_hash`: each character times its position, in the arithmetic of `int`,
summed in the arithmetic of `unsigned long`. -/
def dbHashLoop : Bytes → Int → Nat → Nat
  | [], _, hval => hval
  | c :: key, i, hval =>
    dbHashLoop key (wrap 32 (i + 1)) ((hval + toSize (wrap 32 (c.toInt8.toInt * i))) % 2 ^ 64)

def dbHash (key : Bytes) : Nat := dbHashLoop key 1 0 % nhashDef

def chainOff (hash : Nat) : Nat := hash * ptrSz + hashOff

/-! ## Reading -/

/-- `_db_readptr`. -/
def dbReadPtr (db : DB) (offset : Int) : DbProg (Int × DB) := do
  let pos ← lseek offset .readPtrSeek
  let asciiptr ← sysRead .idx pos ptrSz
  if asciiptr.length ≠ ptrSz then
    .fail .readPtrRead
  else
    return (atol asciiptr, { db with idxpos := pos + ptrSz })

/-- The second half of `_db_readidx`: find the separators in the text of the
record and read the place of the data. -/
def dbSplitIdx (db : DB) (text : Bytes) : DbProg (Int × DB) :=
  match strchr sep text with
  | none => .fail .readIdxFirstSep
  | some (key, rest) =>
    match strchr sep rest with
    | none => .fail .readIdxSecondSep
    | some (start, len) =>
      if sep ∈ len then
        .fail .readIdxManySeps
      else if atol start < 0 then
        .fail .readIdxOffset
      else if toSize (atol len) = 0 ∨ datLenMax < toSize (atol len) then
        .fail .readIdxLength
      else
        .ret (db.ptrval, { db with
          idxbuf := key
          datoff := atol start
          datlen := toSize (atol len) })

/-- The first half of `_db_readidx`, from the file offset `pos` on. -/
def dbReadIdxAt (db : DB) (offset : Int) (pos : Nat) : DbProg (Int × DB) := do
  let head ← sysRead .idx pos (ptrSz + idxLenSz)
  if head.length ≠ ptrSz + idxLenSz then
    if head.length = 0 ∧ offset = 0 then
      return (-1, { db with idxoff := pos, idxpos := pos })
    else
      .fail .readIdxReadv
  else
    let idxlen := toSize (atoi (head.drop ptrSz))
    if idxlen < idxLenMin ∨ idxLenMax < idxlen then
      .fail .readIdxLength
    else
      let body ← sysRead .idx (pos + (ptrSz + idxLenSz)) idxlen
      if body.length ≠ idxlen then
        .fail .readIdxRead
      else if body.getLast? ≠ some newline then
        .fail .readIdxNewline
      else
        dbSplitIdx { db with
          idxoff := pos
          idxpos := pos + (ptrSz + idxLenSz) + idxlen
          ptrval := atol (head.take ptrSz)
          idxlen := idxlen } (cstr body.dropLast)

/-- `_db_readidx`.  The offset `0` means the current file offset. -/
def dbReadIdx (db : DB) (offset : Int) : DbProg (Int × DB) :=
  if offset = 0 then
    dbReadIdxAt db offset db.idxpos
  else
    (lseek offset .readIdxSeek).bind fun pos => dbReadIdxAt db offset pos

/-- `_db_readdat`. -/
def dbReadDat (db : DB) : DbProg (Bytes × DB) := do
  let pos ← lseek db.datoff .readDatSeek
  let bytes ← sysRead .dat pos db.datlen
  if bytes.length ≠ db.datlen then
    .fail .readDatRead
  else if bytes.getLast? ≠ some newline then
    .fail .readDatNewline
  else
    return (cstr bytes.dropLast, { db with
      datpos := pos + db.datlen
      datbuf := writeAt db.datbuf 0 (bytes.dropLast ++ [0]) })

/-- The loop body of `_db_find_and_lock`. -/
def findStep (key : CString) : Int × DB → DbProg ((Int × DB) ⊕ (Int × DB))
  | (offset, db) =>
    if offset = 0 then
      .ret (.inr (offset, db))
    else
      (dbReadIdx db offset).bind fun (nextoffset, db) =>
        if db.idxbuf = key.bytes then
          .ret (.inr (offset, db))
        else
          .ret (.inl (nextoffset, { db with ptroff := offset }))

/-- The part of `_db_find_and_lock` after the hash chain has been locked. -/
def findChain (db : DB) (key : CString) : DbProg (Int × DB) := do
  let (offset, db) ← dbReadPtr db db.ptroff
  let (offset, db) ← Prog.iterate (findStep key) (offset, db)
  return (if offset = 0 then -1 else 0, db)

/-- `_db_find_and_lock`. -/
def dbFindAndLock (db : DB) (key : CString) (writelock : Bool) : DbProg (Int × DB) := do
  let chainoff : Nat := chainOff (dbHash key.bytes)
  let db := { db with chainoff := chainoff, ptroff := chainoff }
  if writelock then
    writewLock .idx chainoff 1
  else
    readwLock .idx chainoff 1
  findChain db key

/-- `db_fetch`. -/
def dbFetch (db : DB) (key : CString) : DbProg (Option Bytes × DB) := do
  let (rc, db) ← dbFindAndLock db key false
  let (ptr, db) ←
    if rc < 0 then
      pure (none, db)
    else do
      let (data, db) ← dbReadDat db
      pure (some data, db)
  unLock .idx db.chainoff.toNat 1
  return (ptr, db)

/-! ## Writing -/

/-- `_db_writedat`. -/
def dbWriteDat (db : DB) (data : Bytes) (offset : Int) (whence : Whence) : DbProg DB := do
  let pos ← match whence with
    | .set => lseek offset .writeDatSeek
    | .end => do
        writewLock .dat 0 0
        let size ← sysSize .dat
        lseek (size + offset) .writeDatSeek
  let count ← sysWrite .dat pos (data ++ [newline])
  if count ≠ ((data.length + 1 : Nat) : Int) then
    .fail .writeDatWritev
  else
    let db := { db with
      datpos := pos + (data.length + 1)
      datoff := pos
      datlen := data.length + 1 }
    match whence with
    | .set => return db
    | .end => do
        unLock .dat 0 0
        return db

/-- The string that `_db_writeidx` is to print: a string of the caller, or the
index buffer itself. -/
inductive KeySource where
  | string (key : CString)
  | idxbuf

/-- The text `%s%c%lld%c%ld\n` of an index record. -/
def idxText (key : Bytes) (datoff : Int) (datlen : Nat) : Bytes :=
  key ++ [sep] ++ fmtD datoff ++ [sep] ++ fmtD datlen ++ [newline]

/-- `snprintf` into the index buffer.  `vsnprintf` stores a zero byte at the
start of its buffer before it formats anything, so a key that is the index
buffer itself is empty by the time it is printed. -/
def DB.snprintfIdx (db : DB) (source : KeySource) : DB :=
  let db := { db with idxbuf := [] }
  let key := match source with
    | .string key => key.bytes
    | .idxbuf => db.idxbuf
  if 2 ^ 31 - 1 < key.length then
    db
  else
    { db with idxbuf := (idxText key db.datoff db.datlen).take (idxLenMax + 1) }

/-- The offset and length fields in front of an index record. -/
def ptrLenText (ptrval : Int) (len : Nat) : Bytes :=
  (padLeft ptrSz (fmtD ptrval) ++ padLeft idxLenSz (fmtD len)).take (ptrSz + idxLenSz)

/-- `_db_writeidx`. -/
def dbWriteIdx (db : DB) (key : KeySource) (offset : Int) (whence : Whence)
    (ptrval : Int) : DbProg DB :=
  if ptrval < 0 ∨ (ptrMax : Int) < ptrval then
    .fail .writeIdxPtr
  else do
    let db := { db with ptrval := ptrval }.snprintfIdx key
    let len := db.idxbuf.length
    if len < idxLenMin ∨ idxLenMax < len then
      .fail .writeIdxLength
    else
      let pos ← match whence with
        | .set => lseek offset .writeIdxSeek
        | .end => do
            writewLock .idx firstRec 0
            let size ← sysSize .idx
            lseek (size + offset) .writeIdxSeek
      let count ← sysWrite .idx pos (ptrLenText ptrval len ++ db.idxbuf)
      if count ≠ ((ptrSz + idxLenSz + len : Nat) : Int) then
        .fail .writeIdxWritev
      else
        let db := { db with
          idxpos := pos + (ptrSz + idxLenSz + len)
          idxoff := pos }
        match whence with
        | .set => return db
        | .end => do
            unLock .idx firstRec 0
            return db

/-- `_db_writeptr`. -/
def dbWritePtr (db : DB) (offset ptrval : Int) : DbProg DB :=
  if ptrval < 0 ∨ (ptrMax : Int) < ptrval then
    .fail .writePtrPtr
  else do
    let pos ← lseek offset .writePtrSeek
    let count ← sysWrite .idx pos ((padLeft ptrSz (fmtD ptrval)).take ptrSz)
    if count ≠ (ptrSz : Int) then
      .fail .writePtrWrite
    else
      return { db with idxpos := pos + ptrSz }

/-- `_db_dodelete`. -/
def dbDoDelete (db : DB) : DbProg DB := do
  let db := { db with
    datbuf := writeAt db.datbuf 0 (List.replicate (db.datlen - 1) space ++ [0])
    idxbuf := List.replicate db.idxbuf.length space }
  writewLock .idx freeOff 1
  let db ← dbWriteDat db (cstr db.datbuf) db.datoff .set
  let (freeptr, db) ← dbReadPtr db freeOff
  let saveptr := db.ptrval
  let db ← dbWriteIdx db .idxbuf db.idxoff .set freeptr
  let db ← dbWritePtr db freeOff db.idxoff
  let db ← dbWritePtr db db.ptroff saveptr
  unLock .idx freeOff 1
  return db

/-- `db_delete`. -/
def dbDelete (db : DB) (key : CString) : DbProg (Int × DB) := do
  let (found, db) ← dbFindAndLock db key true
  let (rc, db) ←
    if found = 0 then do
      let db ← dbDoDelete db
      pure ((0 : Int), db)
    else
      pure (-1, db)
  unLock .idx db.chainoff.toNat 1
  return (rc, db)

/-- The loop body of `_db_findfree`. -/
def findFreeStep (keylen datlen : Int) :
    Int × Int × DB → DbProg ((Int × Int × DB) ⊕ (Int × Int × DB))
  | (saveoffset, offset, db) =>
    if offset = 0 then
      .ret (.inr (saveoffset, offset, db))
    else
      (dbReadIdx db offset).bind fun (nextoffset, db) =>
        if db.idxbuf.length = toSize keylen ∧ db.datlen = toSize datlen then
          .ret (.inr (saveoffset, offset, db))
        else
          .ret (.inl (offset, nextoffset, db))

/-- `_db_findfree`. -/
def dbFindFree (db : DB) (keylen datlen : Int) : DbProg (Int × DB) := do
  writewLock .idx freeOff 1
  let (offset, db) ← dbReadPtr db freeOff
  let (saveoffset, offset, db) ←
    Prog.iterate (findFreeStep keylen datlen) ((freeOff : Int), offset, db)
  let (rc, db) ←
    if offset = 0 then
      pure ((-1 : Int), db)
    else do
      let db ← dbWritePtr db saveoffset db.ptrval
      pure (0, db)
  unLock .idx freeOff 1
  return (rc, db)

/-- A string that is handed to `db_store`: its text when the call is made, and its
place when it lies in the data buffer of the handle, as what `db_fetch` returns does. -/
structure Arg extends CString where
  place : Option Nat
  deriving DecidableEq

instance : Coe CString Arg := ⟨fun text => ⟨text, none⟩⟩

/-- The string as it is now. -/
def Arg.now (arg : Arg) (db : DB) : CString :=
  match arg.place with
  | none => arg.toCString
  | some off => ⟨cstr (db.datbuf.drop off), zero_not_mem_cstr _⟩

/-- The branch of `db_store` for a key that is not in the database.  Nothing in it
writes to the data buffer, so its strings stay as they are. -/
def dbStoreNew (db : DB) (key data : CString) (flag keylen datlen : Int) : DbProg (Int × DB) :=
  if flag = dbReplace then
    .ret (-1, db)
  else do
    let (ptrval, db) ← dbReadPtr db db.chainoff
    let (rc, db) ← dbFindFree db keylen datlen
    if rc < 0 then do
      let db ← dbWriteDat db data.bytes 0 .end
      let db ← dbWriteIdx db (.string key) 0 .end ptrval
      let db ← dbWritePtr db db.chainoff db.idxoff
      return (0, db)
    else do
      let db ← dbWriteDat db data.bytes db.datoff .set
      let db ← dbWriteIdx db (.string key) db.idxoff .set ptrval
      let db ← dbWritePtr db db.chainoff db.idxoff
      return (0, db)

/-- The branch of `db_store` for a key that is in the database. -/
def dbStoreOld (db : DB) (key data : Arg) (flag datlen : Int) : DbProg (Int × DB) :=
  if flag = dbInsert then
    .ret (1, db)
  else if toSize datlen ≠ db.datlen then do
    let db ← dbDoDelete db
    let (ptrval, db) ← dbReadPtr db db.chainoff
    let db ← dbWriteDat db (data.now db).bytes 0 .end
    let db ← dbWriteIdx db (.string (key.now db)) 0 .end ptrval
    let db ← dbWritePtr db db.chainoff db.idxoff
    return (0, db)
  else do
    let db ← dbWriteDat db (data.now db).bytes db.datoff .set
    return (0, db)

/-- `db_store`. -/
def dbStore (db : DB) (key data : Arg) (flag : Int) : DbProg (Int × DB) :=
  if flag ≠ dbInsert ∧ flag ≠ dbReplace ∧ flag ≠ dbStoreFlag then
    .ret (-1, db)
  else
    let keylen := toInt (key.now db).strlen
    let datlen := toInt ((data.now db).strlen + 1)
    if datlen < datLenMin ∨ (datLenMax : Int) < datlen then
      .fail .storeLength
    else do
      let (found, db) ← dbFindAndLock db (key.now db) true
      let (rc, db) ←
        if found < 0 then
          dbStoreNew db (key.now db) (data.now db) flag keylen datlen
        else
          dbStoreOld db key data flag datlen
      unLock .idx db.chainoff.toNat 1
      return (rc, db)

/-! ## Sequential access and opening -/

/-- `db_rewind`. -/
def dbRewind (db : DB) : DB :=
  { db with idxpos := firstRec, idxoff := firstRec }

/-- The key of an index record is all blank: the record is deleted. -/
def blank (key : Bytes) : Bool := key.all (· == space)

/-- The loop body of `db_nextrec`. -/
def nextStep (db : DB) : DbProg (DB ⊕ (Bool × DB)) :=
  (dbReadIdx db 0).bind fun (rc, db) =>
    if rc < 0 then
      .ret (.inr (false, db))
    else if blank db.idxbuf then
      .ret (.inl db)
    else
      .ret (.inr (true, db))

/-- `db_nextrec`, with the key it copies out and the data it returns. -/
def dbNextRec (db : DB) : DbProg (Option (Bytes × Bytes) × DB) := do
  readwLock .idx freeOff 1
  let (found, db) ← Prog.iterate nextStep db
  let (ptr, db) ←
    if found then do
      let key := db.idxbuf
      let (data, db) ← dbReadDat db
      pure (some (key, data), db)
    else
      pure (none, db)
  unLock .idx freeOff 1
  return (ptr, db)

/-- The pointers that `db_open` writes into a new index file. -/
def emptyHash : Bytes :=
  (List.replicate (nhashDef + 1) (padLeft ptrSz (fmtD 0))).flatten ++ [newline]

/-- The flags of `db_open` that are modelled: `O_RDWR` alone, or with
`O_CREAT | O_TRUNC`.  With other flags (`O_APPEND`, `O_RDONLY`) the later system calls
are not those of `os`. -/
inductive OFlag where
  | rdwr
  | rdwrCreatTrunc
  deriving DecidableEq

/-- `db_open`. -/
def dbOpen (oflag : OFlag) : DbProg DB :=
  if oflag = .rdwrCreatTrunc then do
    sysTruncate .idx
    sysTruncate .dat
    writewLock .idx 0 0
    let size ← sysSize .idx
    if size = 0 then
      let count ← sysWrite .idx 0 emptyHash
      if count ≠ (emptyHash.length : Int) then
        .fail .openInit
      else
        unLock .idx 0 0
        return dbRewind dbAlloc
    else
      unLock .idx 0 0
      return dbRewind dbAlloc
  else
    return dbRewind dbAlloc

end ApueFormal.Database
