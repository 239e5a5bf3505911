import ApueFormal.Database.Concurrent
import ApueFormal.Database.Cursor

/-!
# Scanning files that others change

A scan takes only the lock of the free list.  It reads an index record with two
system calls and its data with a third one, while other processes work on the
hash chains.  As long as they neither delete nor move records, an index record
keeps its key and the place of its data, and the data that is there was stored
under that key.
-/

namespace ApueFormal.Database

open Libc Program

/-- A process that scans owns its cursor and nothing else. -/
def DbLocal.scanning (here : DbLocal) (pid pos : Nat) (current : Option (Nat × Slot))
    (data : Option Bytes) : DbLocal :=
  here.owning (Heap.single (.cursor pid) (.mark pos current data))

theorem DbLocal.scanning_own (here : DbLocal) (pid pos : Nat) (current : Option (Nat × Slot))
    (data : Option Bytes) :
    (here.scanning pid pos current data).own (.cursor pid) = some (.mark pos current data) :=
  Heap.set_self ..

theorem DbLocal.scanning_set (here : DbLocal) (pid pos pos' : Nat)
    (current current' : Option (Nat × Slot)) (data data' : Option Bytes) :
    (here.scanning pid pos current data).own.set (.cursor pid) (.mark pos' current' data') =
      (here.scanning pid pos' current' data').own :=
  Heap.single_set ..

variable {slot : Slot} {db : DB}

section Reading

variable {mode : Mode} (hstrict : mode.strict) {actor : Actor} {doom : Fault → Prop}
variable {here : DbLocal} (hreply : here.reply = none) {pid p : Nat}
variable {current : Option (Nat × Slot)} {seen : Option Bytes}
include hstrict hreply

theorem wp_scanRead {α : Type} {post : Except Fault α → DbLocal → Prop} {fd : Fd}
    {pos len : Nat} {next : Bytes → DbProg α}
    (hread : ∀ (world : World) (total : DbHeap), Rep world.files total → Good world.trace total →
      Standing world.trace total p current seen →
      ∃ pos' current' seen', Standing world.trace total pos' current' seen' ∧
        Wp (mode.theory actor) doom post (next (readAt (world.files.get fd) pos len))
          (here.scanning pid pos' current' seen')) :
    Wp (mode.theory actor) doom post ((sysRead fd pos len).bind next)
      (here.scanning pid p current seen) := by
  refine Protocol.wp_io rfl hreply ?_
  intro frame world hdisj _ hholds
  have hown := here.scanning_own pid p current seen
  have hcell := Heap.sub_union_left _ frame _ _ hown
  have hgood : Good world.trace _ := Holds.good hholds hstrict
  obtain ⟨pos', current', seen', hstanding, hwp⟩ := hread world _ (Holds.rep hholds) hgood
    (hgood.cursor pid p current seen hcell)
  have hset := here.scanning_set pid p pos' current current' seen seen'
  refine ⟨(here.scanning pid pos' current' seen').own, ?_, ?_, hwp⟩
  · rw [← hset]
    exact hdisj.set (hdisj.right_none hown) _
  · rw [← hset, Heap.set_union]
    exact Holds.set_cursor hholds hstrict pid hstanding

theorem gives_scanText {off : Nat} (hvalid : slot.Valid) :
    (mode.theory actor).Gives (Sys.read .idx (off + (ptrSz + idxLenSz)) slot.text.length)
      (here.scanning pid p (some (off, slot)) none) slot.text
      (here.scanning pid (off + slot.bytes.length) (some (off, slot)) none) := by
  have hown := here.scanning_own pid p (some (off, slot)) none
  have hquiet : (here.scanning pid p (some (off, slot)) none).reply = none := hreply
  have hgives : (mode.theory actor).Gives
      (Sys.read .idx (off + (ptrSz + idxLenSz)) slot.text.length)
      (here.scanning pid p (some (off, slot)) none) slot.text
      ((here.scanning pid p (some (off, slot)) none).owning
        ((here.scanning pid p (some (off, slot)) none).own.set (.cursor pid)
          (.mark (off + slot.bytes.length) (some (off, slot)) none))) := by
    refine Protocol.gives_set rfl hquiet hown fun world total hsub hholds => ?_
    have hcell := hsub _ _ hown
    have hgood : Good world.trace total := Holds.good hholds hstrict
    obtain ⟨_, hcurrent⟩ := hgood.cursor _ _ _ _ hcell
    obtain ⟨⟨ptr, hslot⟩, _⟩ := hcurrent off slot rfl
    have hread := (Holds.rep hholds).read_text hslot
    have hroom := hgood.room _ _ hslot
    refine ⟨hread, ?_⟩
    refine Holds.set_cursor hholds hstrict pid ⟨.inr ⟨off, _, hslot, ?_⟩, ?_⟩
    · have hlen := Slot.length_bytes hvalid
      change slot.room = slot.text.length at hroom
      change off + (ptrSz + idxLenSz) + slot.room = _
      omega
    · rintro off' slot' heq
      cases heq
      exact ⟨⟨ptr, hslot⟩, nofun⟩
  rw [DbLocal.scanning_set] at hgives
  exact hgives

/-- `_db_readidx` at the cursor finds the end of the file or reads the index record
that starts there. -/
theorem wp_dbReadIdx_scan {post : Except Fault (Int × DB) → DbLocal → Prop}
    (hpos : db.idxpos = p ∨ db.idxpos = firstRec)
    (hend : post (.ok (-1, { db with idxoff := db.idxpos, idxpos := db.idxpos }))
      (here.scanning pid db.idxpos none none))
    (hslot : ∀ slot : Slot, slot.Valid → db.idxpos + slot.bytes.length ≤ offMax →
      post (.ok (slot.ptr, db.loaded db.idxpos slot))
        (here.scanning pid (db.idxpos + slot.bytes.length) (some (db.idxpos, slot)) none)) :
    Wp (mode.theory actor) doom post (dbReadIdx db 0)
      (here.scanning pid p current seen) := by
  unfold dbReadIdx
  rw [if_pos rfl, dbReadIdxAt_eq]
  refine wp_scanRead hstrict hreply ?_
  intro world total hrep hgood hstanding
  have hboundary : Boundary total db.idxpos := by
    rcases hpos with hpos | hpos
    · rw [hpos]
      exact hstanding.1
    · exact .inl hpos
  rcases hrep.at_boundary hgood.room hboundary with hlast | ⟨slot, hcell⟩
  · refine ⟨db.idxpos, none, none, ⟨hboundary, by rintro _ _ ⟨⟩⟩, ?_⟩
    have hempty : readAt (world.files.get .idx) db.idxpos (ptrSz + idxLenSz) = [] := by
      rw [hlast, readAt]
      exact (congrArg _ List.drop_length).trans List.take_nil
    rw [hempty]
    exact .ret hend
  · obtain ⟨hvalid, _, hfits, _, hroom⟩ := hrep.slot_bytes hgood.room hcell
    have hmax := hrep.idxMax
    refine ⟨db.idxpos, some (db.idxpos, slot), none, ⟨hboundary, ?_⟩, ?_⟩
    · rintro off slot' heq
      cases heq
      exact ⟨⟨slot.ptr, hcell⟩, by rintro _ ⟨⟩⟩
    have hhead : readAt (world.files.get .idx) db.idxpos (ptrSz + idxLenSz) = slot.head :=
      hrep.read_head hcell
    rw [hhead]
    have hkey := hgood.plain _ _ hcell
    exact wp_readIdxBody hvalid (gives_scanText hstrict hreply hvalid) db 0
      (fun _ => hslot slot hvalid (by omega)) (absurd · hkey)

/-- The data of an index record that has been read, as some store of its key has
written it. -/
theorem wp_dbReadDat_scan {post : Except Fault (Bytes × DB) → DbLocal → Prop} {off : Nat}
    (hoff : db.datoff = slot.datoff) (hlen : db.datlen = slot.datlen) (hkey : slot.key ≠ [])
    (hpost : ∀ data, post (.ok (data, db.buffered (slot.datoff + db.datlen) data))
      (here.scanning pid p (some (off, slot)) (some data))) :
    Wp (mode.theory actor) doom post (dbReadDat db)
      (here.scanning pid p (some (off, slot)) none) := by
  rw [dbReadDat_eq hoff]
  refine wp_scanRead hstrict hreply ?_
  rintro world total hrep hgood ⟨hboundary, hcurrent⟩
  obtain ⟨⟨ptr, hslot⟩, _⟩ := hcurrent off slot rfl
  obtain ⟨data, tag, hblock, _, hdatlen, hwriter⟩ := hgood.block _ _ hslot
  have hnul := (hrep.agree _ _ hblock).1
  have hread : readAt (world.files.get .dat) slot.datoff db.datlen = data ++ [newline] := by
    rw [hlen, show slot.datlen = data.length + 1 from hdatlen]
    exact hrep.read_block hblock
  refine ⟨p, some (off, slot), some data, ⟨hboundary, ?_⟩, ?_⟩
  · rintro off' slot' heq
    cases heq
    refine ⟨⟨ptr, hslot⟩, ?_⟩
    rintro bytes ⟨⟩
    exact hgood.written _ _ _ _ hblock (hwriter hkey)
  · rw [hread, readDatBody_good _ (hlen.trans hdatlen) hnul]
    exact .ret (hpost data)

/-- The loop of `db_nextrec` goes on to a record that is not blank, or to the end
of the file.  It ends because a file is not longer than the largest offset. -/
theorem wp_nextLoop_scan {post : Except Fault (Bool × DB) → DbLocal → Prop} {db : DB}
    (hpos : db.idxpos = p ∨ db.idxpos = firstRec)
    (hfound : ∀ off slot, slot.Valid → blank slot.key = false →
      post (.ok (true, db.loaded off slot))
        (here.scanning pid (off + slot.bytes.length) (some (off, slot)) none))
    (hend : ∀ db' : DB, post (.ok (false, db')) (here.scanning pid db'.idxpos none none)) :
    Wp (mode.theory actor) doom post (Prog.iterate nextStep db)
      (here.scanning pid p current seen) := by
  induction hleft : offMax - db.idxpos using Nat.strong_induction_on
    generalizing db p current seen with
  | _ left ih =>
  refine Wp.iteration hreply (Wp.seq (wp_dbReadIdx_scan hstrict hreply hpos ?_ ?_))
  · exact .ret (.ret (hend { db with idxoff := db.idxpos, idxpos := db.idxpos }))
  · intro slot hvalid hfits
    simp only [Wp.follow_ok]
    rw [if_neg (by omega)]
    change Wp _ _ _ (if blank slot.key = true then _ else _) _
    cases hblank : blank slot.key with
    | false => exact .ret (.ret (hfound _ slot hvalid hblank))
    | true =>
      have hlen := Slot.length_bytes hvalid
      have hnext : (db.loaded db.idxpos slot).idxpos = db.idxpos + slot.bytes.length := by
        change db.idxpos + (ptrSz + idxLenSz) + slot.text.length = _
        omega
      have hmove : 0 < slot.bytes.length := by
        unfold ptrSz at hlen
        omega
      exact .ret (ih _ (by omega) (.inl hnext) hfound rfl)

end Reading

variable {pid : Nat}

section

variable {total : DbHeap} {strict : Prop} {world : World} (hholds : Holds strict world total)
include hholds

theorem Holds.finish_record {p off : Nat} {data : Bytes} (hstrict : strict)
    (hcell : total (.cursor pid) = some (.mark p (some (off, slot)) (some data))) :
    Holds strict (World.finish (pid, .nextrec)
      (.record slot.key data (off : Nat) (slot.datoff : Nat)) world) total := by
  have hgood := hholds.good hstrict
  obtain ⟨_, hcurrent⟩ := hgood.cursor _ _ _ _ hcell
  obtain ⟨⟨ptr, hslot⟩, hwritten⟩ := hcurrent off slot rfl
  have hindexed := hgood.indexed _ _ hslot
  refine hholds.finish hholds.rep trivial hholds.tables id ?_
  rintro _ key bytes idxoff datoff _ heq
  cases heq
  exact ⟨off, slot.datoff, rfl, rfl, hwritten data rfl, hindexed⟩

theorem Holds.finish_eof : Holds strict (World.finish (pid, .nextrec) .eof world) total := by
  refine hholds.finish hholds.rep trivial hholds.tables id ?_
  rintro _ key bytes idxoff datoff _ ⟨⟩

end

/-- `db_nextrec` beside other processes returns a record that a store has written,
or the end of the file. -/
theorem wp_dbNextRec_scan {mode : Mode} (hstrict : mode.strict) {doom : Fault → Prop} {p : Nat}
    {current : Option (Nat × Slot)} {seen : Option Bytes}
    (hpos : db.idxpos = p ∨ db.idxpos = firstRec)
    {post : Except Fault (Reply × DB) → DbLocal → Prop}
    (hpost : ∀ reply db' current seen, post (.ok (reply, db'))
      (finished (Heap.single (.cursor pid) (.mark db'.idxpos current seen)) [.free] reply)) :
    Wp (mode.theory (pid, .nextrec)) doom post (Call.nextrec.prog db)
      (idle (Heap.single (.cursor pid) (.mark p current seen))) := by
  refine Wp.seq ?_
  unfold dbNextRec
  simp only [Prog.bind_eq]
  refine wp_readwLock lockName_free rfl rfl List.not_mem_nil ?_
  intro part _ _ _
  have hquiet : ((idle (Heap.single (.cursor pid) (.mark p current seen))).look .free
    part).reply = none := rfl
  refine Wp.seq (@wp_nextLoop_scan mode hstrict _ _ _ hquiet pid p current seen _ db hpos ?_ ?_)
  · intro off slot hvalid hlive
    simp only [Wp.follow_ok]
    rw [if_pos trivial]
    have hkey : slot.key ≠ [] := by
      intro hnil
      rw [hnil] at hlive
      cases hlive
    have hlen := Slot.length_bytes hvalid
    refine Wp.seq (wp_dbReadDat_scan hstrict hquiet rfl rfl hkey ?_)
    intro data
    have hlast : off + (ptrSz + idxLenSz) + slot.text.length = off + slot.bytes.length := by
      omega
    refine wp_unLock_read lockName_free hquiet rfl
      (.record slot.key data (off : Nat) (slot.datoff : Nat)) ?_ (.ret (.ret ?_))
    · intro frame world _ _ hholds
      exact Holds.finish_record hholds hstrict
        (Heap.sub_union_left _ frame _ _ (DbLocal.scanning_own ..))
    · have hdone := hpost (.record slot.key data (off : Nat) (slot.datoff : Nat))
        ((db.loaded off slot).buffered (slot.datoff + (db.loaded off slot).datlen) data)
        (some (off, slot)) (some data)
      change post _ (finished (Heap.single (.cursor pid)
        (.mark (off + (ptrSz + idxLenSz) + slot.text.length) _ _)) _ _) at hdone
      rw [hlast] at hdone
      exact hdone
  · intro db'
    simp only [Wp.follow_ok]
    rw [if_neg (by decide)]
    refine wp_unLock_read lockName_free hquiet rfl .eof ?_ (.ret (.ret ?_))
    · exact fun frame world _ _ hholds => Holds.finish_eof hholds
    · exact hpost .eof db' none none

/-! ## Runs with scans -/

def ScanCalls (scanner : Nat → Prop) (pid : Nat) (call : Call) : Prop :=
  (scanner pid → call = .nextrec ∨ call = .rewind) ∧
    (¬ scanner pid → call.OnPlainKey)

def ScanHandles (scanner : Nat → Prop) (pid : Nat) (db : DB) : Prop :=
  scanner pid → db.idxpos = firstRec

def scanTerms (scanner : Nat → Prop) : Terms where
  allowed := ScanCalls scanner
  condition _ _ _ _ := True

/-- A call that gets the lock of its hash chain neither deletes nor moves the
record that its key has then; it may move that of the empty key, with strings that
are not overwritten. -/
def calmTerms (scanner : Nat → Prop) : Terms where
  allowed := ScanCalls scanner
  condition _ call op world := ∀ key, call.key? = some key →
    op.Takes (.chain (chainOf key.bytes)) →
    Steady (mapOf world.trace key.bytes) call ∧ Calm (mapOf world.trace key.bytes) call

/-- The processes that scan have their cursors, and `db_nextrec` does not fail. -/
def scanContract (scanner : Nat → Prop) : Contract where
  rests pid db own :=
    (scanner pid → ∃ p current seen, own = Heap.single (.cursor pid) (.mark p current seen) ∧
      (db.idxpos = p ∨ db.idxpos = firstRec)) ∧
    (¬ scanner pid → own = Heap.empty)
  faults call _ := call ≠ .nextrec

theorem scanContract_signed (scanner : Nat → Prop) :
    (scanContract scanner).Signed gentleCalls (calmTerms scanner) where
  known _ _ := trivial
  calls := by
    rintro pid call db own ⟨hscans, hothers⟩ hreads ⟨hcursor, hnone⟩
    by_cases hscanner : scanner pid
    · obtain ⟨p, current, seen, rfl, hpos⟩ := hcursor hscanner
      rcases hscans hscanner with rfl | rfl
      · refine wp_dbNextRec_scan trivial hpos fun reply db' current' seen' => ?_
        exact ⟨_, ⟨fun _ => ⟨_, current', seen', rfl, .inl rfl⟩, absurd hscanner⟩,
          .inl ⟨_, rfl⟩⟩
      · exact .ret ⟨_, ⟨fun _ => ⟨p, current, seen, rfl, .inr rfl⟩, absurd hscanner⟩,
          .inr ⟨rfl, nofun, fun _ => ⟨trivial, rfl⟩⟩⟩
    · obtain ⟨key, hkey, hnoSep⟩ := hothers hscanner
      cases hnone hscanner
      have hcall : call ≠ .nextrec := by
        rintro rfl
        cases hkey
      have hfaults : (scanContract scanner).faults call = fun _ => True :=
        funext fun _ => eq_true hcall
      have hrests : ∀ db', (scanContract scanner).rests pid db' Heap.empty :=
        fun db' => ⟨(absurd · hscanner), fun _ => rfl⟩
      rw [hfaults]
      refine wp_call hkey (fun _ => hnoSep) hreads ?_ ?_ ?_
      · exact fun reply db' taken => ⟨_, hrests db', .inl ⟨taken, rfl⟩⟩
      · exact fun reply db' hsame => ⟨_, hrests db', .inr ⟨rfl, hcall, hsame⟩⟩
      · exact fun _ _ => hcall
  allows _ _ key _ _ hcondition hkey htakes :=
    ⟨(hcondition key hkey htakes).1, fun _ => (hcondition key hkey htakes).2⟩

open Classical in
noncomputable def cursors (scanner : Nat → Prop) (pid : Nat) : DbHeap :=
  if scanner pid then Heap.single (.cursor pid) (.mark firstRec none none) else Heap.empty

theorem cursors_apply {scanner : Nat → Prop} {cell : Cell} {value : Val}
    (hcell : cursors scanner pid cell = some value) :
    cell = .cursor pid ∧ value = .mark firstRec none none := by
  unfold cursors at hcell
  split at hcell
  · rw [Heap.single_apply] at hcell
    split at hcell
    next hcursor => exact ⟨hcursor, (Option.some.inj hcell).symm⟩
    next => cases hcell
  · cases hcell

theorem cursors_beginning (scanner : Nat → Prop) : Beginning (cursors scanner) where
  cursor pid cell value hcell := ⟨pid, cursors_apply hcell⟩
  apart pid other hne cell := by
    by_contra hboth
    rw [not_or] at hboth
    obtain ⟨value, hvalue⟩ := Option.ne_none_iff_exists'.mp hboth.1
    obtain ⟨value', hvalue'⟩ := Option.ne_none_iff_exists'.mp hboth.2
    have hcell := (cursors_apply hvalue).1.symm.trans (cursors_apply hvalue').1
    exact hne (Cell.cursor.inj hcell)

/-- While no call deletes or moves a record, no `db_nextrec` fails, and every record
that it returns was stored by one `db_store` in the place that it says. -/
theorem scans_see_stored_records {scanner : Nat → Prop} {config : Config}
    (hreaches : Reaches (Fresh (ScanHandles scanner)) (Step (calmTerms scanner)) config)
    (hnoAbort : ∀ pid call fault, config.process pid = .running call (.fail fault) →
      call = .nextrec) :
    (∀ pid fault, config.process pid ≠ .running .nextrec (.fail fault)) ∧
      Scans config.world.trace := by
  have hkept := (scanContract_signed scanner).kept (cursors_beginning scanner) (by
    intro pid db hdb
    refine ⟨fun hscanner => ⟨firstRec, none, none, if_pos hscanner, .inr (hdb hscanner)⟩, ?_⟩
    exact fun hscanner => if_neg hscanner) hreaches
  rcases hkept with ⟨pid, call, fault, hfailed, hcall⟩ | ⟨here, pool, total, hsound⟩
  · exact absurd (hnoAbort pid call fault hfailed) hcall
  refine ⟨?_, (hsound.together.rep.good trivial).scans⟩
  intro pid fault hfailed
  have hfits := hsound.fits pid
  rw [hfailed] at hfits
  cases hfits.2 with
  | fail hfault => exact hfault rfl

def isRecord (key data : Bytes) : Except Fault (Reply × DB) → Files → Bool
  | .ok (.record key' data' _ _, _), _ => key' == key && data' == data
  | _, _ => false

theorem runs_record {fuel : Nat} {call : DbProg (Reply × DB)} {files : Files} {key data : Bytes}
    (hends : endsWith fuel call files (isRecord key data)) : ∃ idxoff datoff db final,
      Runs os call files (.ok (.record key data idxoff datoff, db)) final := by
  obtain ⟨outcome, final, hruns, hrecord⟩ := runs_of_endsWith hends
  unfold isRecord at hrecord
  split at hrecord
  next key' data' idxoff datoff db =>
    obtain ⟨hkey, hdata⟩ := Bool.and_eq_true_iff.mp hrecord
    exact ⟨idxoff, datoff, db, final, eq_of_beq hkey ▸ eq_of_beq hdata ▸ hruns⟩
  next => cases hrecord

/-- A process stores a record, and another process scans it. -/
theorem scans_see_stored_records_insert : ∃ config : Config,
    Reaches (Fresh (ScanHandles (· = 1))) (Step (calmTerms (· = 1))) config ∧
    (∀ pid call fault, config.process pid = .running call (.fail fault) → call = .nextrec) ∧
    (∃ rc idxoff datoff, completed config.world.trace =
      [(.store sampleKey sampleData dbInsert, rc),
        (.nextrec, .record sampleKey.bytes sampleData.bytes idxoff datoff)]) ∧
    (∀ pid fault, config.process pid ≠ .running .nextrec (.fail fault)) ∧
    Scans config.world.trace := by
  have heval : endsWith 100 ((Call.store sampleKey sampleData dbInsert).prog (dbRewind dbAlloc))
      emptyFiles (isOk fun _ files => endsWith 100 (Call.nextrec.prog (dbRewind dbAlloc)) files
        (isRecord sampleKey.bytes sampleData.bytes)) := by decide +kernel
  obtain ⟨⟨rc, db⟩, files, hstore, hscan⟩ := runs_ok heval
  obtain ⟨idxoff, datoff, db', final, hnext⟩ := runs_record hscan
  have hstart : Reaches (Fresh (ScanHandles (· = 1))) (Step (calmTerms (· = 1))) newDatabase :=
    .start (fresh_newDatabase fun _ _ => rfl)
  obtain ⟨middle, hmiddle, hended, hidle⟩ := reaches_call_idle hstart (fun _ => ⟨_, rfl⟩) 0
    hstore rfl rfl ⟨(absurd · Nat.zero_ne_one), fun _ => ⟨sampleKey, rfl, by decide⟩⟩
    (reads_own _ _ _ _)
    (fun _ _ key _ _ => ⟨steady_own _ _ _ _, fun _ hflag => absurd rfl hflag⟩)
  obtain ⟨last, hlast, hended', hidle'⟩ := reaches_call_idle hmiddle
    (fun other => hidle other (.inr ⟨_, _, rfl⟩)) 1 hnext hended.files
    (by rw [hended.process]; rfl) ⟨fun _ => .inl rfl, fun hnot => absurd rfl hnot⟩ trivial
    (fun _ _ _ hkey => by cases hkey)
  have hnoAbort : ∀ pid call fault, last.process pid = .running call (.fail fault) →
      call = .nextrec := by
    intro pid call fault hfailed
    obtain ⟨_, hprocess⟩ := hidle' pid (.inr ⟨_, _, rfl⟩)
    rw [hprocess] at hfailed
    cases hfailed
  refine ⟨last, hlast, hnoAbort, ⟨rc, idxoff, datoff, ?_⟩,
    scans_see_stored_records hlast hnoAbort⟩
  rw [hended'.history, hended.history]
  rfl

/-- A record that has been deleted breaks the scan of another process. -/
theorem delete_breaks_shared_scan : ∃ config fault,
    Reaches (Fresh (ScanHandles (· = 1))) (Step (scanTerms (· = 1))) config ∧
    config.process 1 = .running .nextrec (.fail fault) ∧
    (completed config.world.trace).map Prod.fst =
      [.store sampleKey sampleData dbInsert, .delete sampleKey] ∧
    ∀ pid call fault, config.process pid = .running call (.fail fault) → call = .nextrec := by
  obtain ⟨history, db, files, hsession, hcheck⟩ := @exists_session
    (fun _ call => (scanTerms (· = 1)).allowed 0 call) 100
    [.store sampleKey sampleData dbInsert, .delete sampleKey]
    (fun history _ files => history.map Prod.fst ==
        [.store sampleKey sampleData dbInsert, .delete sampleKey] &&
      endsWith 100 (Call.nextrec.prog (dbRewind dbAlloc)) files (isFault fun _ _ => true))
    (by
      intro call hcall _
      refine ⟨(absurd · Nat.zero_ne_one), fun _ => ⟨sampleKey, ?_, by decide⟩⟩
      simp only [List.mem_cons, List.not_mem_nil, or_false] at hcall
      rcases hcall with rfl | rfl <;> rfl)
    (by decide +kernel)
  obtain ⟨hcalls, hcheck⟩ := Bool.and_eq_true_iff.mp hcheck
  obtain ⟨fault, final, hnext, _⟩ := runs_fault hcheck
  obtain ⟨second, hsecond, hfiles, hhistory, hprocess⟩ :=
    @Session.reaches _ _ _ _ hsession (ScanHandles (· = 1)) (fun _ _ => rfl) (scanTerms (· = 1)) 0
      (fun _ _ hcall => hcall) fun _ _ _ => trivial
  obtain ⟨last, hlast, hended, hidle⟩ := reaches_call_idle hsecond
    (by
      intro other
      rw [hprocess, Function.update_apply]
      split <;> exact ⟨_, rfl⟩) 1 hnext hfiles (by rw [hprocess]; rfl)
    ⟨fun _ => .inl rfl, fun hnot => absurd rfl hnot⟩ trivial (fun _ _ => trivial)
  refine ⟨last, fault, hlast, ?_, ?_, ?_⟩
  · rw [hended.process]
    rfl
  · rw [hended.history, hhistory, List.map_append, eq_of_beq hcalls]
    rfl
  · intro pid call fault' hfailed
    by_cases hpid : pid = 1
    · subst hpid
      rw [hended.process, Function.update_self] at hfailed
      cases hfailed
      rfl
    · obtain ⟨_, hprocess⟩ := hidle pid (.inl hpid)
      rw [hprocess] at hfailed
      cases hfailed

end ApueFormal.Database
