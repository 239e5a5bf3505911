import ApueFormal.Database.Access

/-!
# Appending records

`_db_writedat` and `_db_writeidx` append to the files under a lock of their
own.  The new cells belong to the process that has appended them.
-/

namespace ApueFormal.Database

open Libc Program

variable {mode : Mode} {actor : Actor} {here : DbLocal} {doom : Fault → Prop}
variable {post : Except Fault DB → DbLocal → Prop}

theorem union_single {own : DbHeap} {cell : Cell} {value : Val}
    (hdisj : Heap.Disjoint own (Heap.single cell value)) :
    own cell = none ∧ (own ∪ Heap.single cell value) cell = some value := by
  have hself : (Heap.single cell value : DbHeap) cell = some value := by
    simp [Heap.single]
  have hnone := hdisj.symm.right_none hself
  refine ⟨hnone, ?_⟩
  rw [Heap.union_apply, hnone, hself]
  rfl

theorem set_single (cell : Cell) (old new : Val) :
    (Heap.single cell old : DbHeap).set cell new = Heap.single cell new := by
  unfold Heap.single Heap.set
  exact Function.update_idem ..

theorem disjoint_single {own : DbHeap} {cell : Cell} (hnone : own cell = none)
    (value : Val) : Heap.Disjoint own (Heap.single cell value) := by
  intro other
  by_cases hother : other = cell
  · subst hother
    exact .inl hnone
  · right
    simp [Heap.single_apply, hother]

theorem wp_dbWriteDat_end (hreply : here.reply = none) (hreading : here.reading = none)
    (hheld : Lock.datAll ∉ here.held) {data : Bytes} (hnul : (0 : Byte) ∉ data)
    {writer : Option Bytes}
    (hstrict : mode.strict → ∀ key, writer = some key → Storing actor.2 key data) (db : DB)
    (hpost : ∀ len, here.own (.block len) = none →
      len + (data.length + 1) ≤ offMax → data.length + 1 ≤ rwMax →
      post (.ok { db with
          datpos := len + (data.length + 1)
          datoff := len
          datlen := data.length + 1 })
        { here with
          own := here.own.set (.block len) (.block data ⟨writer, none⟩)
          taken := .datAll :: here.taken }) (hfault : ∀ after, post (.error .writeDatWritev) after)
    (hdoom : doom .writeDatWritev) :
    Wp (mode.theory actor) doom post (dbWriteDat db data 0 .end) here := by
  unfold dbWriteDat
  simp only [Prog.bind_eq]
  refine wp_writewLock lockName_datAll hreply hreading hheld ?_
  rintro part hdisj ⟨len, rfl⟩ _
  obtain ⟨hnone, hend⟩ := union_single hdisj
  have hquiet : (here.take .datAll (Heap.single .datEnd (.off len))).reply = none :=
    hreply
  have hview : (here.take .datAll (Heap.single .datEnd (.off len))).view
      (Rep.endOf .dat) = some (.off len) :=
    Heap.sub_union_left _ _ _ _ hend
  refine wp_sysSize (gives_size hquiet hview) ?_
  rw [Int.add_zero, lseek_natCast, Prog.ret_bind]
  by_cases hlong : rwMax < data.length + 1
  · refine wp_write_doomed hquiet hlong hdoom ?_
    intro count hcount
    rw [if_pos hcount]
  refine wp_append_block hquiet hend hnul (by omega) hstrict ?_ ?_
  · intro hfresh hmax
    rw [if_neg (by simp)]
    have hfreshOwn : here.own (.block len) = none :=
      (Option.or_eq_none_iff.mp hfresh).1
    have hkept : here.own.set (.block len) (.block data ⟨writer, none⟩) .datEnd = none := by
      rw [Heap.set_of_ne _ (by simp)]
      exact hnone
    refine wp_unLock lockName_datAll hquiet hreading rfl
      (here.own.set (.block len) (.block data ⟨writer, none⟩))
      (Heap.single .datEnd (.off (len + (data.length + 1)))) ?_
      (disjoint_single hkept _) ⟨_, rfl⟩ (.ret (hpost len hfreshOwn hmax (by omega)))
    · change ((here.own ∪ Heap.single .datEnd (.off len)).set _ _).set _ _ = _
      rw [← Heap.set_union, Heap.set_union_right _ hkept, set_single]
  · rw [if_pos (by omega)]
    exact .fail (hfault _)

def freshSlot (ptr : Nat) (key : Bytes) (datoff : Nat) (data : Bytes) : Slot where
  ptr := ptr
  key := key
  datoff := datoff
  datlen := data.length + 1
  room := (idxText key datoff (data.length + 1 : Nat)).length

theorem wp_dbWriteIdx_end (hreply : here.reply = none) (hreading : here.reading = none)
    (hheld : Lock.idxTail ∉ here.held) {db : DB} {key : CString} {ptr datoff : Nat} {data : Bytes}
    {writer : Option Bytes} (hptr : ptr ≤ ptrMax) (hdatoff : db.datoff = datoff)
    (hdatlen : db.datlen = data.length + 1) (hmax : data.length + 1 ≤ datLenMax)
    (hplace : datoff ≤ offMax)
    (hblock : here.own (.block datoff) = some (.block data ⟨writer, none⟩))
    (hstrict : mode.strict → sep ∉ key.bytes ∧
      Storing actor.2 key.bytes data ∧ writer = some key.bytes)
    (hpost : ∀ len, (freshSlot ptr key.bytes datoff data).Valid →
      here.own (.slot len) = none → firstRec ≤ len →
      post (.ok (db.stored len (freshSlot ptr key.bytes datoff data))) { here with
        own := (here.own.set (.slot len)
          (.slot (freshSlot ptr key.bytes datoff data))).set
          (.block datoff) (.block data ⟨writer, some len⟩)
        taken := .idxTail :: here.taken }) (hlength : post (.error .writeIdxLength) here)
    (hfault : ∀ after, post (.error .writeIdxWritev) after) :
    Wp (mode.theory actor) doom post (dbWriteIdx db (.string key) 0 .end ptr) here := by
  have htext : idxText key.bytes db.datoff db.datlen =
      (freshSlot ptr key.bytes datoff data).text := by
    rw [hdatoff, hdatlen]
    rfl
  by_cases hlen : (freshSlot ptr key.bytes datoff data).text.length < idxLenMin ∨
      idxLenMax < (freshSlot ptr key.bytes datoff data).text.length
  · rw [dbWriteIdx_bad db (.string key) 0 .end hptr (by rw [← htext] at hlen; exact hlen)]
    exact .fail hlength
  have hvalid : (freshSlot ptr key.bytes datoff data).Valid := by
    refine ⟨hptr, key.noNul, hplace, Nat.succ_pos _, hmax, by omega, by omega, ?_⟩
    exact Nat.le_refl _
  unfold dbWriteIdx
  rw [if_neg (by omega), snprintfIdx_fits { db with ptrval := (ptr : Int) }
    (.string key) (by rw [KeySource.key, htext]; omega)]
  simp only [KeySource.key, htext]
  rw [if_neg hlen]
  simp only [Prog.bind_eq]
  refine wp_writewLock lockName_idxTail hreply hreading hheld ?_
  rintro part hdisj ⟨len, rfl⟩ _
  obtain ⟨hnone, hend⟩ := union_single hdisj
  have hquiet : (here.take .idxTail (Heap.single .idxEnd (.off len))).reply = none :=
    hreply
  have hview : (here.take .idxTail (Heap.single .idxEnd (.off len))).view
      (Rep.endOf .idx) = some (.off len) :=
    Heap.sub_union_left _ _ _ _ hend
  refine wp_sysSize (gives_size hquiet hview) ?_
  rw [Int.add_zero, lseek_natCast, Prog.ret_bind]
  have hhead : ptrLenText ptr (freshSlot ptr key.bytes datoff data).text.length ++
      (freshSlot ptr key.bytes datoff data).text = (freshSlot ptr key.bytes datoff data).bytes := by
    rw [Slot.bytes, ← Slot.ptrLenText_eq hvalid]
    rfl
  rw [hhead]
  refine wp_append_slot hquiet hend hvalid rfl
    (Heap.sub_union_left _ _ _ _ hblock) rfl hstrict ?_ ?_
  · intro hfresh hfirst
    rw [if_neg (by rw [Slot.length_bytes hvalid]; simp)]
    have hkept : (here.own.set (.slot len)
        (.slot (freshSlot ptr key.bytes datoff data))).set (.block datoff)
        (.block data ⟨writer, some len⟩) .idxEnd = none := by
      rw [Heap.set_of_ne _ (by simp), Heap.set_of_ne _ (by simp)]
      exact hnone
    refine wp_unLock lockName_idxTail hquiet hreading rfl
      ((here.own.set (.slot len) (.slot (freshSlot ptr key.bytes datoff data))).set
        (.block datoff) (.block data ⟨writer, some len⟩))
      (Heap.single .idxEnd
        (.off (len + (freshSlot ptr key.bytes datoff data).bytes.length))) ?_
      (disjoint_single hkept _) ⟨_, rfl⟩ (.ret (hpost len hvalid
        (Option.or_eq_none_iff.mp hfresh).1 hfirst))
    change (((here.own ∪ Heap.single .idxEnd (.off len)).set _ _).set _ _).set _ _ = _
    rw [← Heap.set_union, ← Heap.set_union]
    exact (Heap.set_union_right _ hkept _).trans (by rw [set_single])
  · rw [if_pos (by omega)]
    exact .fail (hfault _)

end ApueFormal.Database
