import ApueFormal.Database.Protocol

/-!
# System calls on owned cells

A process may read the cells that it sees, and it may write the cells that it
owns.  The rules below say what each system call answers and which cell it
changes.
-/

namespace ApueFormal.Database

open Libc Program

variable {mode : Mode} {actor : Actor} {here : DbLocal} {bytes : Bytes} {pos : Nat}

theorem osWrite_fits (files : Files) (fd : Fd) (hlen : bytes.length ≤ rwMax)
    (hpos : pos + bytes.length ≤ offMax) :
    osWrite files fd pos bytes =
      ((bytes.length : Int), files.set fd (writeAt (files.get fd) pos bytes)) := by
  unfold osWrite
  rw [Nat.min_eq_left hlen, if_pos hpos, List.take_of_length_le hlen]

theorem osWrite_full (files : Files) (fd : Fd) (hlen : bytes.length ≤ rwMax)
    (hpos : ¬ pos + bytes.length ≤ offMax) : osWrite files fd pos bytes = (-1, files) := by
  unfold osWrite
  rw [Nat.min_eq_left hlen, if_neg hpos]

variable {slot : Slot}

theorem Slot.Valid.bytes_short (hvalid : slot.Valid) : slot.bytes.length ≤ rwMax := by
  have hlen := Slot.length_bytes hvalid
  have hmax := hvalid.text_max
  unfold ptrSz idxLenSz at hlen
  unfold idxLenMax at hmax
  unfold rwMax
  omega

section Locking

variable {doom : Fault → Prop} {α : Type}
variable {post : Except Fault α → DbLocal → Prop} {next : Unit → DbProg α}
variable {fd : Fd} {start len : Nat} {lock : Lock}
variable (hname : lockName fd start len = some lock) (hreply : here.reply = none)
include hname

theorem lockUse_unlock : lockUse (.unlock fd start len) = .release lock := by
  simp only [lockUse, hname, Option.elim]

include hreply

section

variable (hreading : here.reading = none)
include hreading

theorem wp_writewLock (hheld : lock ∉ here.held)
    (hnext : ∀ part, Heap.Disjoint here.own part → lockInv mode lock part →
      (lock ∉ here.taken → LockAssume mode actor lock part) →
      Wp (mode.theory actor) doom post (next ()) (here.take lock part)) :
    Wp (mode.theory actor) doom post ((writewLock fd start len).bind next) here := by
  have huse : lockUse (.lock fd .write start len) = .write lock := by
    simp only [lockUse, hname, Option.elim]
  exact Protocol.wp_write huse hreply hreading hheld fun _ part => hnext part

theorem wp_readwLock (hheld : lock ∉ here.held)
    (hnext : ∀ part, Heap.Disjoint here.own part → lockInv mode lock part →
      (lock ∉ here.taken → LockAssume mode actor lock part) →
      Wp (mode.theory actor) doom post (next ()) (here.look lock part)) :
    Wp (mode.theory actor) doom post ((readwLock fd start len).bind next) here := by
  have huse : lockUse (.lock fd .read start len) = .read lock := by
    simp only [lockUse, hname, Option.elim]
  exact Protocol.wp_read huse hreply hreading hheld fun _ part => hnext part

variable {rest : List Lock} (hheld : here.held = lock :: rest)
include hheld

theorem wp_unLock (kept part : DbHeap) (hown : here.own = kept ∪ part)
    (hdisj : Heap.Disjoint kept part) (hinv : lockInv mode lock part)
    (hnext : Wp (mode.theory actor) doom post (next ())
      { here with own := kept, held := rest }) :
    Wp (mode.theory actor) doom post ((unLock fd start len).bind next) here :=
  Protocol.wp_release (lockUse_unlock hname) hreply hreading hheld hown hdisj hinv fun _ => hnext

theorem wp_unLock_reply (kept part new : DbHeap) (hown : here.own = kept ∪ part)
    (hdisj : Heap.Disjoint kept part) (reply : Reply) (hinv : lockInv mode lock new)
    (hfinish : ∀ frame world, Heap.Disjoint here.own frame →
      Holds mode.strict world (here.own ∪ frame) →
      Heap.Disjoint kept new ∧ Heap.Disjoint (kept ∪ new) frame ∧
        Holds mode.strict (World.finish actor reply world) (kept ∪ new ∪ frame))
    (hnext : Wp (mode.theory actor) doom post (next ())
      { here with own := kept, held := rest, reply := some reply }) :
    Wp (mode.theory actor) doom post ((unLock fd start len).bind next) here :=
  Protocol.wp_release_reply (lockUse_unlock hname) hreply hreading hheld hown hdisj hinv hfinish
    fun _ => hnext

end

theorem wp_unLock_read (hreading : here.reading = some lock) (reply : Reply)
    (hfinish : ∀ frame world, Heap.Disjoint here.own frame →
      Heap.Sub here.peek frame → Holds mode.strict world (here.own ∪ frame) →
      Holds mode.strict (World.finish actor reply world) (here.own ∪ frame))
    (hnext : Wp (mode.theory actor) doom post (next ())
      { here with peek := Heap.empty, reading := none, reply := some reply }) :
    Wp (mode.theory actor) doom post ((unLock fd start len).bind next) here :=
  Protocol.wp_endRead_reply (lockUse_unlock hname) hreply hreading hfinish fun _ => hnext

end Locking

variable {off len : Nat} {data : Bytes} {fd : Fd}

section Reading

variable (hreply : here.reply = none)
include hreply

theorem reads_ptr {value : Nat} (hview : here.view (.ptr off) = some (.off value)) :
    Reads (mode.theory actor) here .idx off (ptrText value) := by
  refine Protocol.gives_look rfl hreply fun world total hsub hholds => ⟨?_, rfl⟩
  have hcell := hsub _ _ hview
  have hvalue := (hholds.rep.agree _ _ hcell).2.1
  change readAt world.files.idx off (ptrText value).length = ptrText value
  rw [length_ptrText hvalue]
  exact hholds.rep.read_ptr hcell

theorem reads_slot (hvalid : slot.Valid) (hview : here.view (.slot off) = some (.slot slot)) :
    ReadsSlot (mode.theory actor) here off slot := by
  refine ⟨hvalid, ?_, ?_⟩
  · refine Protocol.gives_look rfl hreply fun world total hsub hholds => ⟨?_, rfl⟩
    change readAt world.files.idx off slot.head.length = slot.head
    rw [Slot.length_head hvalid]
    exact hholds.rep.read_head (hsub _ _ hview)
  · refine Protocol.gives_look rfl hreply fun world total hsub hholds => ⟨?_, rfl⟩
    exact hholds.rep.read_text (hsub _ _ hview)

theorem reads_block {tag : Tag} (hview : here.view (.block off) = some (.block data tag)) :
    Reads (mode.theory actor) here .dat off (data ++ [newline]) := by
  refine Protocol.gives_look rfl hreply fun world total hsub hholds => ⟨?_, rfl⟩
  change readAt world.files.dat off (data ++ [newline]).length = data ++ [newline]
  rw [List.length_append, List.length_singleton]
  exact hholds.rep.read_block (hsub _ _ hview)

theorem gives_size (hview : here.view (Rep.endOf fd) = some (.off len)) :
    (mode.theory actor).Gives (Sys.size fd) here len here := by
  refine Protocol.gives_look rfl hreply fun world total hsub hholds => ⟨?_, rfl⟩
  have hagree := hholds.rep.agree _ _ (hsub _ _ hview)
  cases fd <;> exact hagree

end Reading

@[simp] theorem mapOf_remark (trace : Trace) (pid : Nat) (call : Call) (op : Sys) :
    mapOf (trace ++ [.remark pid call op]) = mapOf trace := by
  simp [mapOf]

variable {strict : Prop} {world : World}

theorem Holds.remark {total total' : DbHeap} {files' : Files} {op : Sys}
    (hholds : Holds strict world total) (hrep : Rep files' total')
    (htable : ∀ hash, total' (.table hash) = total (.table hash))
    (hgood : Good (world.trace ++ [.remark actor.1 actor.2 op]) total →
      strict → Good (world.trace ++ [.remark actor.1 actor.2 op]) total') :
    Holds strict ⟨files', world.trace ++ [.remark actor.1 actor.2 op]⟩ total' where
  rep := hrep
  tables hash table hcell key hkey := by
    rw [htable] at hcell
    rw [mapOf_remark]
    exact hholds.tables hash table hcell key hkey
  legal := by
    change keyMap.Legal (completed (world.trace ++ [.remark actor.1 actor.2 op]))
    rw [completed_append, completed_remark, List.append_nil]
    exact hholds.legal
  good hstrict := by
    refine hgood ((hholds.good hstrict).append _ ?_) hstrict
    refine (hholds.good hstrict).scans.snoc _ ?_
    intro pid key data idxoff datoff impossible
    cases impossible

def World.wrote (actor : Actor) (world : World) (fd : Fd) (pos : Nat) (bytes : Bytes) : World :=
  ⟨world.files.set fd (writeAt (world.files.get fd) pos bytes),
    world.trace ++ [.remark actor.1 actor.2 (.write fd pos bytes)]⟩

theorem exec_write (actor : Actor) (world : World) (fd : Fd) (hlen : bytes.length ≤ rwMax)
    (hpos : pos + bytes.length ≤ offMax) :
    World.exec actor (.write fd pos bytes) world =
      ((bytes.length : Int), World.wrote actor world fd pos bytes) := by
  have hos : os (.write fd pos bytes) world.files = _ := osWrite_fits world.files fd hlen hpos
  unfold World.exec
  rw [hos]
  rfl

section Writing

variable (hreply : here.reply = none)
include hreply

theorem gives_write {cell : Cell} {old new : Val} (hown : here.own cell = some old)
    (htable : ∀ hash, cell ≠ .table hash) (hshort : bytes.length ≤ rwMax)
    (hwrite : ∀ world total, Heap.Sub here.own total → Holds mode.strict world total →
      off + bytes.length ≤ offMax ∧
      Rep (world.files.set fd (writeAt (world.files.get fd) off bytes)) (total.set cell new) ∧
      (Good (world.wrote actor fd off bytes).trace total → mode.strict →
        Good (world.wrote actor fd off bytes).trace (total.set cell new))) :
    (mode.theory actor).Gives (Sys.write fd off bytes) here (bytes.length : Int)
      (here.owning (here.own.set cell new)) := by
  refine Protocol.gives_set rfl hreply hown fun world total hsub hholds => ?_
  obtain ⟨hfits, hrep, hgood⟩ := hwrite world total hsub hholds
  have hexec : (protocol mode).exec actor (Sys.write fd off bytes) world = _ :=
    exec_write actor world fd hshort hfits
  rw [hexec]
  exact ⟨rfl, hholds.remark hrep (fun hash => Heap.set_of_ne _ (htable hash).symm _) hgood⟩

theorem gives_write_ptr {old new : Nat} (hown : here.own (.ptr off) = some (.off old))
    (hnew : new ≤ ptrMax) :
    (mode.theory actor).Gives (Sys.write .idx off (ptrText new)) here
      (ptrSz : Int) (here.owning (here.own.set (.ptr off) (.off new))) := by
  have hlen := length_ptrText hnew
  rw [← hlen]
  refine gives_write hreply hown (by simp) (by rw [hlen]; decide) fun world total hsub hholds => ?_
  have hcell := hsub _ _ hown
  refine ⟨?_, hholds.rep.write_ptr hcell hnew, fun hgood _ => ?_⟩
  · have hoff := (hholds.rep.agree _ _ hcell).1
    rw [hlen]
    unfold firstRec nhashDef ptrSz at hoff
    unfold offMax ptrSz
    omega
  · exact hgood.congr (fun _ => Heap.set_of_ne _ (by simp) _)
      (fun _ => Heap.set_of_ne _ (by simp) _) (fun _ => Heap.set_of_ne _ (by simp) _)

theorem gives_write_slotPtr {new : Nat} (hown : here.own (.slot off) = some (.slot slot))
    (hnew : new ≤ ptrMax) :
    (mode.theory actor).Gives (Sys.write .idx off (ptrText new)) here (ptrSz : Int)
      (here.owning (here.own.set (.slot off) (.slot { slot with ptr := new }))) := by
  have hlen := length_ptrText hnew
  rw [← hlen]
  refine gives_write hreply hown (by simp) (by rw [hlen]; decide) fun world total hsub hholds => ?_
  have hcell := hsub _ _ hown
  refine ⟨?_, hholds.rep.write_slotPtr hcell hnew, fun hgood _ => hgood.set_slotPtr new hcell⟩
  obtain ⟨_, _, _, hroom⟩ := hholds.rep.agree _ _ hcell
  have hmax := hholds.rep.idxMax
  rw [hlen]
  omega

/-- Rewriting an index record.  In the strict mode only its chain pointer may
change. -/
theorem gives_write_slot {old new : Slot} (hown : here.own (.slot off) = some (.slot old))
    (hvalid : new.Valid) (hroom : new.room = old.room)
    (hstrict : mode.strict → new = { old with ptr := new.ptr }) :
    (mode.theory actor).Gives (Sys.write .idx off new.bytes) here
      (new.bytes.length : Int) (here.owning (here.own.set (.slot off) (.slot new))) := by
  refine gives_write hreply hown (by simp) hvalid.bytes_short fun world total hsub hholds => ?_
  have hcell := hsub _ _ hown
  refine ⟨?_, hholds.rep.write_slot hcell hvalid hroom, fun hgood hmode => ?_⟩
  · obtain ⟨_, _, _, hfile⟩ := hholds.rep.agree _ _ hcell
    have hmax := hholds.rep.idxMax
    have htext := hvalid.room
    have hlen := Slot.length_bytes hvalid
    omega
  · have hset := hgood.set_slotPtr new.ptr hcell
    rw [← hstrict hmode] at hset
    exact hset

theorem wp_append {doom : Fault → Prop} {α : Type} {post : Except Fault α → DbLocal → Prop}
    {next : Int → DbProg α} (hshort : bytes.length ≤ rwMax)
    (hstep : ∀ frame world, Heap.Disjoint here.own frame →
      Holds mode.strict world (here.own ∪ frame) → len + bytes.length ≤ offMax →
      ∃ own, Heap.Disjoint own frame ∧
        Holds mode.strict (world.wrote actor fd len bytes) (own ∪ frame) ∧
        Wp (mode.theory actor) doom post (next (bytes.length : Int))
          (here.owning own)) (hfull : Wp (mode.theory actor) doom post (next (-1)) here)
    : Wp (mode.theory actor) doom post ((sysWrite fd len bytes).bind next) here := by
  refine Protocol.wp_io rfl hreply fun frame world hdisj _ hholds => ?_
  by_cases hfits : len + bytes.length ≤ offMax
  · obtain ⟨own, hframe, hafter, hnext⟩ := hstep frame world hdisj hholds hfits
    have hexec : (protocol mode).exec actor (Sys.write fd len bytes) world = _ :=
      exec_write actor world fd hshort hfits
    rw [hexec]
    exact ⟨own, hframe, hafter, hnext⟩
  · have hos : os (.write fd len bytes) world.files = _ :=
      osWrite_full world.files fd hshort hfits
    have hexec : (protocol mode).exec actor (Sys.write fd len bytes) world = ((-1 : Int),
        ⟨world.files, world.trace ++ [.remark actor.1 actor.2 (.write fd len bytes)]⟩) := by
      change World.exec actor (.write fd len bytes) world = _
      unfold World.exec
      rw [hos]
      rfl
    rw [hexec]
    exact ⟨here.own, hdisj, hholds.remark hholds.rep (fun _ => rfl) (fun hgood _ => hgood), hfull⟩

end Writing

def Storing (call : Call) (key data : Bytes) : Prop :=
  ∃ ckey cdata : Arg, ∃ flag, call = .store ckey cdata flag ∧
    ckey.bytes = key ∧ cdata.bytes = data

section

variable {call : Call} {key : Bytes} (hstoring : Storing call key data) (trace : Trace)
include hstoring

theorem Storing.written (pid datoff : Nat) :
    Written (trace ++ [.remark pid call
      (.write .dat datoff (data ++ [newline]))]) datoff key data := by
  obtain ⟨ckey, cdata, flag, rfl, hkey, hdata⟩ := hstoring
  exact ⟨pid, ckey, cdata, flag, List.mem_append_right _ (by simp), hkey, hdata⟩

theorem Storing.indexed (pid off : Nat) (hslot : slot.key = key) :
    Indexed (trace ++ [.remark pid call (.write .idx off slot.bytes)]) off
      slot.key slot.datoff := by
  obtain ⟨ckey, cdata, flag, rfl, hkey, _⟩ := hstoring
  exact ⟨pid, ckey, cdata, flag, slot, List.mem_append_right _ (by simp),
    hkey.trans hslot.symm, rfl, rfl⟩

end

section Blocks

variable (hreply : here.reply = none)
include hreply

/-- Overwriting a block.  In the strict mode the block of a record with a key
is only overwritten by a store of that key. -/
theorem gives_write_block {old new : Bytes} {tag : Tag} (writer : Option Bytes)
    (hown : here.own (.block off) = some (.block old tag)) (hnul : (0 : Byte) ∉ new)
    (hlen : new.length = old.length) (hshort : new.length + 1 ≤ rwMax) (hstrict : mode.strict →
      (∀ key, writer = some key → Storing actor.2 key new) ∧
      ∃ soff slot, tag.slot = some soff ∧ here.own (.slot soff) = some (.slot slot) ∧
        (slot.key ≠ [] → writer = some slot.key)) :
    (mode.theory actor).Gives
      (Sys.write .dat off (new ++ [newline])) here ((new.length + 1 : Nat) : Int)
      (here.owning
        (here.own.set (.block off) (.block new ⟨writer, tag.slot⟩))) := by
  have hbytes : (new ++ [newline]).length = new.length + 1 := by simp
  rw [← hbytes] at hshort ⊢
  refine gives_write hreply hown (by simp) hshort fun world total hsub hholds => ?_
  have hcell := hsub _ _ hown
  refine ⟨?_, hholds.rep.write_block hcell hnul hlen, fun hgood hmode => ?_⟩
  · obtain ⟨_, _, hfile⟩ := hholds.rep.agree _ _ hcell
    have hmax := hholds.rep.datMax
    omega
  obtain ⟨hstoring, soff, slot, howner, hslot, hwriter⟩ := hstrict hmode
  refine hgood.set_block hcell hlen rfl ?_ ?_
  · intro key hkey
    exact (hstoring key hkey).written world.trace actor.1 off
  · intro soff' slot' howner' hslot' hkey
    rw [howner] at howner'
    cases Option.some.inj howner'
    rw [hsub _ _ hslot] at hslot'
    cases Option.some.inj hslot'
    exact hwriter hkey

variable {doom : Fault → Prop} {α : Type} {post : Except Fault α → DbLocal → Prop}
variable {writer : Option Bytes}

theorem wp_append_block {next : Int → DbProg α} (hown : here.own .datEnd = some (.off len))
    (hnul : (0 : Byte) ∉ data) (hshort : data.length + 1 ≤ rwMax)
    (hstrict : mode.strict → ∀ key, writer = some key → Storing actor.2 key data)
    (hnext : here.own (.block len) = none → len + (data.length + 1) ≤ offMax →
      Wp (mode.theory actor) doom post
        (next ((data.length + 1 : Nat) : Int)) (here.owning
          ((here.own.set (.block len) (.block data ⟨writer, none⟩)).set
            .datEnd (.off (len + (data.length + 1))))))
    (hfull : Wp (mode.theory actor) doom post (next (-1)) here) :
    Wp (mode.theory actor) doom post
      ((sysWrite .dat len (data ++ [newline])).bind next) here := by
  have hbytes : (data ++ [newline]).length = data.length + 1 := by simp
  rw [← hbytes] at hshort hnext
  refine wp_append hreply hshort (fun frame world hdisj hholds hfits => ?_) hfull
  have hrep := hholds.rep
  have hend : world.files.dat.length = len :=
    hrep.agree _ _ (Heap.sub_union_left _ _ _ _ hown)
  have hfresh : (here.own ∪ frame) (.block len) = none := by
    rw [← hend]
    exact hrep.block_fresh
  obtain ⟨hfreshOwn, hfreshFrame⟩ := Option.or_eq_none_iff.mp hfresh
  refine ⟨_, (hdisj.set hfreshFrame _).set (hdisj.right_none hown) _, ?_, hnext hfreshOwn hfits⟩
  rw [Heap.set_union, Heap.set_union]
  refine hholds.remark ?_ ?_ ?_
  · have happend := hrep.append_block hnul ⟨writer, none⟩ (by omega)
    rw [← writeAt_end, hend, ← hbytes] at happend
    exact happend
  · intro hash
    rw [Heap.set_of_ne _ (by simp), Heap.set_of_ne _ (by simp)]
  · intro hgood hmode
    refine (hgood.add_block hfresh ?_).congr (fun _ => Heap.set_of_ne _ (by simp) _)
      (fun _ => Heap.set_of_ne _ (by simp) _) (fun _ => Heap.set_of_ne _ (by simp) _)
    intro key hkey
    exact (hstrict hmode key hkey).written world.trace actor.1 len

theorem wp_append_slot {next : Int → DbProg α} (hown : here.own .idxEnd = some (.off len))
    (hvalid : slot.Valid) (hroom : slot.room = slot.text.length)
    (hblock : here.own (.block slot.datoff) = some (.block data ⟨writer, none⟩))
    (hdatlen : slot.datlen = data.length + 1)
    (hstrict : mode.strict → sep ∉ slot.key ∧ Storing actor.2 slot.key data ∧
      writer = some slot.key) (hnext : here.own (.slot len) = none → firstRec ≤ len →
      Wp (mode.theory actor) doom post
        (next (slot.bytes.length : Int)) (here.owning
          (((here.own.set (.slot len) (.slot slot)).set
            (.block slot.datoff) (.block data ⟨writer, some len⟩)).set
            .idxEnd (.off (len + slot.bytes.length)))))
    (hfull : Wp (mode.theory actor) doom post (next (-1)) here) :
    Wp (mode.theory actor) doom post
      ((sysWrite .idx len slot.bytes).bind next) here := by
  refine wp_append hreply hvalid.bytes_short (fun frame world hdisj hholds hfits => ?_) hfull
  have hrep := hholds.rep
  have hend : world.files.idx.length = len :=
    hrep.agree _ _ (Heap.sub_union_left _ _ _ _ hown)
  have hfresh : (here.own ∪ frame) (.slot len) = none := by
    rw [← hend]
    exact hrep.slot_fresh
  obtain ⟨hfreshOwn, hfreshFrame⟩ := Option.or_eq_none_iff.mp hfresh
  have hcell := Heap.sub_union_left here.own frame _ _ hblock
  refine ⟨_, ((hdisj.set hfreshFrame _).set (hdisj.right_none hblock) _).set
    (hdisj.right_none hown) _, ?_, hnext hfreshOwn (hend ▸ hrep.header)⟩
  rw [Heap.set_union, Heap.set_union, Heap.set_union]
  refine hholds.remark ?_ ?_ ?_
  · have happend := hrep.append_slot hvalid hroom (by omega)
    rw [← writeAt_end, hend] at happend
    rw [Heap.set_comm _ (by simp)]
    have hsame : ((here.own ∪ frame).set (.slot len) (.slot slot)).set
        .idxEnd (.off (len + slot.bytes.length)) (.block slot.datoff) =
        some (.block data ⟨writer, none⟩) := by
      rw [Heap.set_of_ne _ (by simp), Heap.set_of_ne _ (by simp)]
      exact hcell
    exact happend.retag hsame (fun fd _ => by cases fd <;> exact Iff.rfl) (hrep.agree _ _ hcell)
  · intro hash
    rw [Heap.set_of_ne _ (by simp), Heap.set_of_ne _ (by simp), Heap.set_of_ne _ (by simp)]
  · intro hgood hmode
    obtain ⟨hplain, hstoring, hwriter⟩ := hstrict hmode
    refine (hgood.add_slot hfresh hroom hplain (hstoring.indexed world.trace actor.1 len rfl)
      hcell hdatlen (fun _ => hwriter)).congr (fun _ => Heap.set_of_ne _ (by simp) _)
      (fun _ => Heap.set_of_ne _ (by simp) _) (fun _ => Heap.set_of_ne _ (by simp) _)

theorem wp_write_doomed {next : Int → DbProg α} (hlong : rwMax < data.length + 1) {fault : Fault}
    (hdoom : doom fault)
    (hnext : ∀ count : Int, count ≠ ((data.length + 1 : Nat) : Int) → next count = .fail fault) :
    Wp (mode.theory actor) doom post
      ((sysWrite .dat pos (data ++ [newline])).bind next) here := by
  refine .call (fun _ _ => False) (fun count => (count : Int) ≠ ((data.length + 1 : Nat) : Int))
    ⟨hreply, ?_⟩ (fun _ _ impossible => impossible.elim) ?_
  · intro frame world _ _ _
    left
    change (osWrite world.files .dat pos (data ++ [newline])).1 ≠ _
    unfold osWrite
    rw [List.length_append, List.length_singleton,
      Nat.min_eq_right (Nat.le_of_lt hlong)]
    split
    · simp only [ne_eq, Nat.cast_inj]
      omega
    · simp only [ne_eq]
      omega
  · intro count hcount
    exact ⟨fault, hnext count hcount, hdoom⟩

end Blocks

/-! ## Finishing a call -/

@[simp] theorem mapOf_reply (trace : Trace) (pid : Nat) (call : Call) (reply : Reply) :
    mapOf (trace ++ [.reply pid call reply]) = (mapOf trace).next call := by
  rw [mapOf, completed_append, completed_reply, Object.after_snoc]
  rfl

theorem Holds.finish {total total' : DbHeap} {reply : Reply} (hholds : Holds strict world total)
    (hrep : Rep world.files total') (haccepts : (mapOf world.trace).accepts actor.2 reply)
    (htables : ∀ hash table, total' (.table hash) = some (.table table) →
      ∀ key, dbHash key = hash →
        table.lookup key = (mapOf world.trace).next actor.2 key)
    (hgood : Good (world.trace ++ [.reply actor.1 actor.2 reply]) total →
      Good (world.trace ++ [.reply actor.1 actor.2 reply]) total')
    (hscan : strict → ∀ key data, ∀ idxoff datoff : Int,
      actor.2 = .nextrec → reply = .record key data idxoff datoff →
      ∃ off place : Nat, idxoff = off ∧ datoff = place ∧
        Written world.trace place key data ∧ Indexed world.trace off key place) :
    Holds strict (World.finish actor reply world) total' where
  rep := hrep
  tables hash table hcell key hkey := by
    change table.lookup key = mapOf (world.trace ++ [.reply actor.1 actor.2 reply]) key
    rw [mapOf_reply]
    exact htables hash table hcell key hkey
  legal := by
    change keyMap.Legal (completed (world.trace ++ [.reply actor.1 actor.2 reply]))
    rw [completed_append, completed_reply, Object.legal_snoc]
    exact ⟨hholds.legal, haccepts⟩
  good hstrict := by
    refine hgood ((hholds.good hstrict).append _ ?_)
    refine (hholds.good hstrict).scans.snoc _ ?_
    intro pid key data idxoff datoff heq
    injection heq with _ hcall hreply
    exact hscan hstrict key data idxoff datoff hcall hreply

theorem Holds.finish_same {total : DbHeap} {reply : Reply} (hholds : Holds strict world total)
    (haccepts : (mapOf world.trace).accepts actor.2 reply)
    (hsame : (mapOf world.trace).next actor.2 = mapOf world.trace) (hcall : actor.2 ≠ .nextrec) :
    Holds strict (World.finish actor reply world) total := by
  refine hholds.finish hholds.rep haccepts ?_ id ?_
  · rw [hsame]
    exact hholds.tables
  · intro _ key data idxoff datoff hnextrec
    exact absurd hnextrec hcall

end ApueFormal.Database
