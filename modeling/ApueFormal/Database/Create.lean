import ApueFormal.Database.Protocol

/-!
# A new database

`db_open` with `O_CREAT | O_TRUNC` leaves an index file that has only the empty
chain pointers, and an empty data file.
-/

namespace ApueFormal.Database

open Libc Program

def emptyFiles : Files := ⟨emptyHash, []⟩

theorem length_emptyHash : emptyHash.length = firstRec := by decide +kernel

theorem runs_dbOpen (files : Files) :
    Runs os (dbOpen .rdwrCreatTrunc) files (.ok (dbRewind dbAlloc)) emptyFiles := by
  have hwrite : osWrite ⟨[], []⟩ .idx 0 emptyHash =
      ((emptyHash.length : Int), emptyFiles) := by decide +kernel
  have hcount : (osWrite ⟨[], []⟩ .idx 0 emptyHash).1 = (emptyHash.length : Int) := by
    rw [hwrite]
  have hfiles : (osWrite ⟨[], []⟩ .idx 0 emptyHash).2 = emptyFiles := by
    rw [hwrite]
  unfold dbOpen
  rw [if_pos rfl]
  simp only [Prog.bind_eq]
  generalize emptyHash = bytes at hcount hfiles ⊢
  refine .call (.call (.call (.call (.call ?_))))
  change Runs os (if (osWrite ⟨[], []⟩ .idx 0 bytes).1 ≠ (bytes.length : Int) then
    .fail .openInit else (unLock .idx 0 0).bind fun _ => .ret (dbRewind dbAlloc))
    (osWrite ⟨[], []⟩ .idx 0 bytes).2 _ _
  rw [hcount, hfiles, if_neg (by simp)]
  exact .call (.ret _ _)

section Cells

variable {P : Type}

/-- Every process owns at most cursors at the first record, no two processes the
same one. -/
structure Beginning (own : P → DbHeap) : Prop where
  cursor : ∀ p cell value, own p cell = some value →
    ∃ pid, cell = .cursor pid ∧ value = .mark firstRec none none
  apart : ∀ p q, p ≠ q → Heap.Disjoint (own p) (own q)

open Classical in
noncomputable def emptyHeap (own : P → DbHeap) : DbHeap
  | .ptr off => if off % ptrSz = 0 ∧ off + ptrSz < firstRec then some (.off 0) else none
  | .idxEnd => some (.off firstRec)
  | .datEnd => some (.off 0)
  | .table hash => if hash < nhashDef then some (.table []) else none
  | .cursor pid =>
    if ∃ p, own p (.cursor pid) ≠ none then some (.mark firstRec none none) else none
  | .slot _ => none
  | .block _ => none

def emptyPool : Lock → DbHeap
  | .chain hash => chainHeap hash 0 [] []
  | .free => freeHeap []
  | .idxTail => Heap.single .idxEnd (.off firstRec)
  | .datAll => Heap.single .datEnd (.off 0)

variable {off : Nat}

theorem read_emptyHash (hmod : off % ptrSz = 0) (hoff : off + ptrSz < firstRec) :
    readAt emptyHash off ptrSz = ptrText 0 := by
  have heq : off / ptrSz * ptrSz = off := Nat.div_mul_cancel (Nat.dvd_of_mod_eq_zero hmod)
  have hlt : off / ptrSz < nhashDef + 1 := by
    unfold firstRec ptrSz at hoff
    unfold ptrSz
    omega
  have hread := readAt_replicate (ptrText 0) [newline] hlt
  rw [length_ptrText (Nat.zero_le _), heq] at hread
  exact hread

theorem rep_empty (own : P → DbHeap) : Rep emptyFiles (emptyHeap own) where
  agree cell value hcell := by
    cases cell with
    | ptr off =>
      simp only [emptyHeap] at hcell
      split at hcell
      next hoff =>
        cases hcell
        exact ⟨hoff.2, Nat.zero_le _, read_emptyHash hoff.1 hoff.2⟩
      next => cases hcell
    | slot off | block off => cases hcell
    | idxEnd =>
      cases hcell
      exact length_emptyHash
    | datEnd =>
      cases hcell
      rfl
    | table hash | cursor pid =>
      simp only [emptyHeap] at hcell
      split at hcell
      · cases hcell
        trivial
      · cases hcell
  apart cell other value value' hne hcell hother fd i htouch htouch' := by
    cases cell with
    | ptr off =>
      cases other with
      | ptr off' =>
        simp only [emptyHeap] at hcell hother
        split at hcell
        next hoff =>
          split at hother
          next hoff' =>
            cases hcell
            cases hother
            cases fd with
            | idx =>
              simp only [Touches] at htouch htouch'
              refine hne (congrArg Cell.ptr ?_)
              unfold ptrSz at hoff hoff' htouch htouch'
              omega
            | dat => exact htouch
          next => cases hother
        next => cases hcell
      | slot off' => cases hother
      | block off' => cases hother
      | _ => exact htouch'
    | slot off => cases hcell
    | block off => cases hcell
    | _ => exact htouch
  coverIdx i hlow hhigh := by
    change i < emptyHash.length at hhigh
    rw [length_emptyHash] at hhigh
    omega
  coverDat i hlt := absurd hlt (Nat.not_lt_zero _)
  header := Nat.le_of_eq length_emptyHash.symm
  newline := by decide +kernel
  idxMax := by
    change emptyHash.length ≤ offMax
    rw [length_emptyHash]
    decide
  datMax := Nat.zero_le _

theorem emptyPool_ptr {lock : Lock} {value : Val} :
    emptyPool lock (.ptr off) = some value ↔ pointerLock off = some lock ∧ value = .off 0 := by
  cases lock with
  | chain hash =>
    simp only [emptyPool, chainHeap, ne_eq, reduceCtorEq, not_false_eq_true,
      Heap.set_of_ne, listHeap]
    constructor
    · intro hcell
      split at hcell
      next hoff =>
        cases hcell
        rw [hoff]
        exact ⟨pointerLock_chain hash, rfl⟩
      next => cases hcell
    · rintro ⟨hlock, rfl⟩
      unfold pointerLock at hlock
      split at hlock
      next hoff =>
        rw [if_pos]
        · rfl
        cases hlock
        exact hoff.1
      next =>
        split at hlock <;> cases hlock
  | free =>
    simp only [emptyPool, freeHeap, listHeap]
    constructor
    · intro hcell
      split at hcell
      next hoff =>
        cases hcell
        rw [hoff]
        exact ⟨pointerLock_free, rfl⟩
      next => cases hcell
    · rintro ⟨hlock, rfl⟩
      unfold pointerLock at hlock
      split at hlock
      · cases hlock
      · split at hlock
        next hoff => rw [if_pos hoff]; rfl
        next => cases hlock
  | _ =>
    simp only [emptyPool, Heap.single_apply, reduceCtorEq, if_false, false_iff, not_and]
    intro hlock
    unfold pointerLock at hlock
    split at hlock
    · cases hlock
    · split at hlock <;> cases hlock

theorem pointerLock_isSome :
    (∃ lock, pointerLock off = some lock) ↔ off % ptrSz = 0 ∧ off + ptrSz < firstRec := by
  unfold pointerLock chainOff hashOff freeOff firstRec nhashDef ptrSz
  constructor
  · rintro ⟨lock, hlock⟩
    split at hlock
    · omega
    · split at hlock
      · omega
      · cases hlock
  · intro hoff
    split
    · exact ⟨_, rfl⟩
    · rw [if_pos (by omega)]
      exact ⟨_, rfl⟩

def cellLock : Cell → Option Lock
  | .ptr off => pointerLock off
  | .table hash => if hhash : hash < nhashDef then some (.chain ⟨hash, hhash⟩) else none
  | .idxEnd => some .idxTail
  | .datEnd => some .datAll
  | _ => none

theorem cellLock_of_emptyPool {lock : Lock} {cell : Cell} {value : Val}
    (hcell : emptyPool lock cell = some value) : cellLock cell = some lock := by
  cases cell with
  | ptr off => exact (emptyPool_ptr.mp hcell).1
  | table hash =>
    cases lock with
    | chain hash' =>
      by_cases hsame : hash = hash'
      · subst hsame
        simp [cellLock]
      · simp [emptyPool, chainHeap, listHeap, hsame] at hcell
    | _ => simp [emptyPool, freeHeap, listHeap, Heap.single_apply] at hcell
  | idxEnd | datEnd => cases lock <;> first | rfl | simp [emptyPool, chainHeap, freeHeap,
      listHeap, Heap.single_apply] at hcell
  | _ => cases lock <;> simp [emptyPool, chainHeap, freeHeap, listHeap, slots, blocks,
      Heap.single_apply] at hcell

theorem splits_empty {own : P → DbHeap} (hown : Beginning own) :
    Heap.Splits (Sum.elim own emptyPool) (emptyHeap own) where
  mem cell value := by
    constructor
    · intro hcell
      cases cell with
      | ptr off =>
        simp only [emptyHeap] at hcell
        split at hcell
        next hoff =>
          obtain ⟨lock, hlock⟩ := pointerLock_isSome.mpr hoff
          exact ⟨.inr lock, emptyPool_ptr.mpr ⟨hlock, (Option.some.inj hcell).symm⟩⟩
        next => cases hcell
      | table hash =>
        simp only [emptyHeap] at hcell
        split at hcell
        next hhash => exact ⟨.inr (.chain ⟨hash, hhash⟩), (chainHeap_table ..).trans hcell⟩
        next => cases hcell
      | idxEnd => exact ⟨.inr .idxTail, hcell⟩
      | datEnd => exact ⟨.inr .datAll, hcell⟩
      | cursor pid =>
        simp only [emptyHeap] at hcell
        split at hcell
        next hscan =>
          obtain ⟨p, hp⟩ := hscan
          obtain ⟨mark, hmark⟩ := Option.ne_none_iff_exists'.mp hp
          obtain ⟨_, _, rfl⟩ := hown.cursor p _ _ hmark
          exact ⟨.inl p, hmark.trans hcell⟩
        next => cases hcell
      | slot off => cases hcell
      | block off => cases hcell
    · rintro ⟨p | lock, hcell⟩
      · obtain ⟨pid, rfl, rfl⟩ := hown.cursor p cell value hcell
        simp only [emptyHeap]
        rw [if_pos ⟨p, by rw [Sum.elim_inl] at hcell; simp [hcell]⟩]
      · rw [Sum.elim_inr] at hcell
        have hlock := cellLock_of_emptyPool hcell
        cases cell with
        | ptr off =>
          obtain ⟨hptr, rfl⟩ := emptyPool_ptr.mp hcell
          simp only [emptyHeap]
          rw [if_pos (pointerLock_isSome.mp ⟨lock, hptr⟩)]
        | table hash =>
          simp only [cellLock] at hlock
          split at hlock
          next hhash =>
            cases hlock
            simp only [emptyHeap]
            rw [if_pos hhash]
            exact (chainHeap_table ..).symm.trans hcell
          next => cases hlock
        | idxEnd | datEnd =>
          cases hlock
          exact hcell
        | _ => cases hlock
  disjoint i j hne cell := by
    by_contra hboth
    obtain ⟨hleft, hright⟩ := not_or.mp hboth
    obtain ⟨value, hi⟩ := Option.ne_none_iff_exists'.mp hleft
    obtain ⟨value', hj⟩ := Option.ne_none_iff_exists'.mp hright
    rcases i with p | lock <;> rcases j with q | lock'
    · exact hboth (hown.apart p q (by simpa using hne) cell)
    · obtain ⟨pid, rfl, _⟩ := hown.cursor p cell value hi
      cases cellLock_of_emptyPool hj
    · obtain ⟨pid, rfl, _⟩ := hown.cursor q cell value' hj
      cases cellLock_of_emptyPool hi
    · refine hne (congrArg Sum.inr (Option.some.inj ?_))
      rw [← cellLock_of_emptyPool hi, ← cellLock_of_emptyPool hj]

theorem holds_empty (strict : Prop) (own : P → DbHeap) :
    Holds strict ⟨emptyFiles, []⟩ (emptyHeap own) where
  rep := rep_empty own
  tables hash table hcell key _ := by
    simp only [emptyHeap] at hcell
    split at hcell
    · cases hcell
      rfl
    · cases hcell
  legal := Object.legal_nil
  good _ := by
    refine ⟨?_, ?_, ?_, ?_, ?_, ?_, ?_⟩
    · rintro off slot ⟨⟩
    · rintro off slot ⟨⟩
    · rintro off slot ⟨⟩
    · rintro off slot ⟨⟩
    · rintro datoff data tag key ⟨⟩
    · intro pid pos current data hcell
      simp only [emptyHeap] at hcell
      split at hcell
      · cases hcell
        exact ⟨.inl rfl, by simp⟩
      · cases hcell
    · intro before after pid key data idxoff datoff heq
      simp at heq

theorem together_empty (mode : Mode) {own : P → DbHeap} (hown : Beginning own) :
    Protocol.Together (protocol mode) ⟨emptyFiles, []⟩ (fun p => idle (own p))
      emptyPool (emptyHeap own) where
  splits := splits_empty hown
  rep := holds_empty mode.strict own
  inv lock _ := by
    cases lock with
    | chain hash => exact ⟨[], ⟨Chained.nil, by simp, by simp, by simp⟩, rfl⟩
    | free => exact ⟨[], ⟨Chained.nil, by simp⟩, rfl⟩
    | idxTail => exact ⟨_, rfl⟩
    | datAll => exact ⟨_, rfl⟩
  away p lock hheld := absurd hheld List.not_mem_nil
  peek p lock hreading := by cases hreading
  blind _ _ := rfl
  alone p q lock hheld := absurd hheld List.not_mem_nil
  unique p q lock hheld := absurd hheld List.not_mem_nil
  nodup _ := List.nodup_nil

end Cells

end ApueFormal.Database
