import ApueFormal.Database.Lists

/-!
# Walking along a list

The loops of `_db_find_and_lock` and `_db_findfree` read the entries of a list
one after the other.  The handle always shows the entry that was read last.
-/

namespace ApueFormal.Database

open Libc Program

def DB.passed (db : DB) (next : Nat) (entries : List Entry) : DB :=
  match entries.getLast? with
  | none => db
  | some entry => { db.loaded entry.off (entry.slot next) with ptroff := entry.off }

def DB.found (db : DB) (root : Nat) (before : List Entry) (entry : Entry) (next : Nat) : DB :=
  { db.loaded entry.off (entry.slot next) with ptroff := prevOff root before }

@[simp] theorem DB.passed_nil (db : DB) (next : Nat) : db.passed next [] = db := rfl

@[simp] theorem DB.passed_snoc (db : DB) (next : Nat) (entries : List Entry)
    (entry : Entry) : db.passed next (entries ++ [entry]) =
      { db.loaded entry.off (entry.slot next) with ptroff := entry.off } := by
  simp [DB.passed]

theorem DB.passed_loaded (db : DB) (next : Nat) (entries : List Entry) (pos : Nat) (slot : Slot) :
    (db.passed next entries).loaded pos slot =
      { db.loaded pos slot with ptroff := (db.passed next entries).ptroff } := by
  rcases List.eq_nil_or_concat entries with rfl | ⟨entries, entry, rfl⟩
  · rfl
  · rw [List.concat_eq_append, DB.passed_snoc]
    rfl

variable {db : DB}

theorem DB.passed_ptroff {root : Nat} (hroot : db.ptroff = root) (next : Nat) (entries : List Entry)
    : (db.passed next entries).ptroff = prevOff root entries := by
  rcases List.eq_nil_or_concat entries with rfl | ⟨entries, entry, rfl⟩
  · exact hroot
  · rw [List.concat_eq_append, DB.passed_snoc, prevOff_snoc]

@[simp] theorem DB.passed_chainoff (db : DB) (next : Nat) (entries : List Entry) :
    (db.passed next entries).chainoff = db.chainoff := by
  unfold DB.passed
  split <;> rfl

theorem DB.passed_datbuf (db : DB) (next : Nat) (entries : List Entry) :
    (db.passed next entries).datbuf = db.datbuf := by
  unfold DB.passed
  split <;> rfl

def DB.walked (db : DB) (next : Nat) (entries : List Entry) : DB :=
  match entries.getLast? with
  | none => db
  | some entry => db.loaded entry.off (entry.slot next)

section

variable (db : DB) (next : Nat) (entries : List Entry)

@[simp] theorem DB.walked_snoc (entry : Entry) : db.walked next (entries ++ [entry]) =
      db.loaded entry.off (entry.slot next) := by
  simp [DB.walked]

theorem DB.walked_loaded (pos : Nat) (slot : Slot) :
    (db.walked next entries).loaded pos slot = db.loaded pos slot := by
  rcases List.eq_nil_or_concat entries with rfl | ⟨entries, entry, rfl⟩
  · rfl
  · rw [List.concat_eq_append, DB.walked_snoc]
    rfl

@[simp] theorem DB.walked_chainoff : (db.walked next entries).chainoff = db.chainoff := by
  unfold DB.walked
  split <;> rfl

end

section Theory

variable {S : Type} {theory : Theory sysSig S} {doom : Fault → Prop}

structure ReadsList (theory : Theory sysSig S) (state : S) (entries : List Entry) : Prop where
  live : theory.live state
  slot : ∀ before entry after, entries = before ++ entry :: after →
    ReadsSlot theory state entry.off (entry.slot (headOff 0 after))
  off : ∀ entry ∈ entries, entry.off ≠ 0

variable {state : S} {key : CString} {entries : List Entry}

theorem wp_findStep {post : Except Fault ((Int × DB) ⊕ (Int × DB)) → S → Prop} {entry : Entry}
    {next : Nat} (hslot : ReadsSlot theory state entry.off (entry.slot next))
    (hoff : entry.off ≠ 0) (db : DB) (hfound : entry.key = key.bytes →
      post (.ok (.inr (entry.off, db.loaded entry.off (entry.slot next)))) state)
    (hpass : entry.key ≠ key.bytes →
      post (.ok (.inl (next, { db.loaded entry.off (entry.slot next) with
        ptroff := entry.off }))) state)
    (hbad : sep ∈ entry.key → post (.error .readIdxManySeps) state) :
    Wp theory doom post (findStep key ((entry.off : Int), db)) state := by
  simp only [findStep]
  rw [if_neg (by omega)]
  refine Wp.seq (wp_dbReadIdx hslot hoff db ?_ hbad)
  intro _
  simp only [Wp.follow_ok]
  by_cases hkey : (db.loaded entry.off (entry.slot next)).idxbuf = key.bytes
  · rw [if_pos hkey]
    exact .ret (hfound hkey)
  · rw [if_neg hkey]
    exact .ret (hpass hkey)

variable {post : Except Fault (Int × DB) → S → Prop}

/-- The loop of `_db_find_and_lock` finds the first entry with the key, unless
an entry with a separator in its key comes first. -/
theorem wp_findLoop (hreads : ReadsList theory state entries) (root : Nat)
    (hroot : db.ptroff = root) (hfound : ∀ before entry after, entries = before ++ entry :: after →
      entry.key = key.bytes → (∀ other ∈ before, other.key ≠ key.bytes) →
      post (.ok (entry.off, db.found root before entry (headOff 0 after))) state)
    (hmissed : (∀ entry ∈ entries, entry.key ≠ key.bytes) →
      post (.ok (0, db.passed 0 entries)) state)
    (hbad : ∀ entry ∈ entries, sep ∈ entry.key → post (.error .readIdxManySeps) state) :
    Wp theory doom post (Prog.iterate (findStep key) ((headOff 0 entries : Nat), db)) state := by
  -- The loop has passed `before` and stands in front of `rest`.
  suffices hloop : ∀ rest before, entries = before ++ rest →
      (∀ entry ∈ before, entry.key ≠ key.bytes) →
      Wp theory doom post (.loop (findStep key)
        (((headOff 0 rest : Nat) : Int), db.passed (headOff 0 rest) before) .ret)
        state by
    exact hloop entries [] rfl (by simp)
  intro rest
  induction rest with
  | nil =>
    intro before hsplit hbefore
    rw [List.append_nil] at hsplit
    subst hsplit
    exact Wp.iteration hreads.live (.ret (.ret (hmissed hbefore)))
  | cons entry rest ih =>
    intro before hsplit hbefore
    have hmem : entry ∈ entries := by
      rw [hsplit]
      simp
    have hloaded : (db.passed (headOff 0 (entry :: rest)) before).loaded entry.off
        (entry.slot (headOff 0 rest)) = db.found root before entry (headOff 0 rest) := by
      rw [DB.passed_loaded, DB.passed_ptroff hroot]
      rfl
    refine Wp.iteration hreads.live (wp_findStep
      (hreads.slot before entry rest hsplit) (hreads.off entry hmem) _ ?_ ?_
      (hbad entry hmem))
    · intro hkey
      rw [hloaded]
      exact .ret (hfound before entry rest hsplit hkey hbefore)
    · intro hkey
      have hnext := ih (before ++ [entry]) (by rw [hsplit]; simp)
        (List.forall_mem_append.mpr ⟨hbefore, List.forall_mem_singleton.mpr hkey⟩)
      rw [DB.passed_snoc] at hnext
      rw [hloaded]
      exact hnext

def DB.opened (db : DB) (hash : Nat) : DB :=
  { db with
    chainoff := chainOff hash
    ptroff := chainOff hash
    idxpos := chainOff hash + ptrSz }

theorem wp_findChain_reads {plain : Prop} (hchain : IsChain plain (dbHash key.bytes) entries)
    (hreads : ReadsList theory state entries)
    (hroot : Reads theory state .idx (chainOff (dbHash key.bytes)) (ptrText (headOff 0 entries)))
    (db : DB) (hfound : ∀ before entry after, entries = before ++ entry :: after →
      entry.key = key.bytes →
      post (.ok (0, (db.opened (dbHash key.bytes)).found
        (chainOff (dbHash key.bytes)) before entry (headOff 0 after))) state)
    (hmissed : (∀ entry ∈ entries, entry.key ≠ key.bytes) →
      post (.ok (-1, (db.opened (dbHash key.bytes)).passed 0 entries)) state)
    (hbad : ¬ plain → post (.error .readIdxManySeps) state) :
    Wp theory doom post
      (findChain { db with
        chainoff := (chainOff (dbHash key.bytes) : Nat)
        ptroff := (chainOff (dbHash key.bytes) : Nat) } key) state := by
  unfold findChain
  simp only [Prog.bind_eq]
  refine Wp.seq (wp_dbReadPtr hchain.headOff_le hroot _ ?_)
  simp only [Wp.follow_ok]
  refine Wp.seq (wp_findLoop hreads (chainOff (dbHash key.bytes)) rfl ?_ ?_ ?_)
  · intro before entry after hsplit hkey _
    have hne : entry.off ≠ 0 := hchain.off_ne_zero (by rw [hsplit]; simp)
    simp only [Wp.follow_ok]
    rw [if_neg (by omega)]
    exact .ret (hfound before entry after hsplit hkey)
  · intro hnone
    exact .ret (hmissed hnone)
  · intro entry hmem hsep
    exact hbad fun hplain => hchain.noSep hplain entry hmem hsep

def Entry.Fits (entry : Entry) (keylen datlen : Int) : Prop :=
  entry.key.length = toSize keylen ∧ entry.data.length + 1 = toSize datlen

theorem wp_findFreeStep {post : Except Fault ((Int × Int × DB) ⊕ (Int × Int × DB)) → S → Prop}
    {entry : Entry} {next : Nat} (hslot : ReadsSlot theory state entry.off (entry.slot next))
    (hoff : entry.off ≠ 0) (hplain : sep ∉ entry.key) {keylen datlen : Int} (saveoffset : Int)
    (db : DB) (hfound : entry.Fits keylen datlen → post (.ok (.inr (saveoffset, entry.off,
      db.loaded entry.off (entry.slot next)))) state)
    (hpass : ¬ entry.Fits keylen datlen → post (.ok (.inl ((entry.off : Int), (next : Int),
      db.loaded entry.off (entry.slot next)))) state) :
    Wp theory doom post (findFreeStep keylen datlen (saveoffset, (entry.off : Int), db)) state := by
  simp only [findFreeStep]
  rw [if_neg (by omega)]
  refine Wp.seq (wp_dbReadIdx hslot hoff db ?_ (absurd · hplain))
  intro _
  simp only [Wp.follow_ok]
  by_cases hfits : (db.loaded entry.off (entry.slot next)).idxbuf.length =
      toSize keylen ∧ (db.loaded entry.off (entry.slot next)).datlen = toSize datlen
  · rw [if_pos hfits]
    exact .ret (hfound hfits)
  · rw [if_neg hfits]
    exact .ret (hpass hfits)

/-- The loop of `_db_findfree` finds an entry of the right sizes, or passes the
whole list. -/
theorem wp_findFreeLoop {post : Except Fault (Int × Int × DB) → S → Prop}
    (hreads : ReadsList theory state entries) (hplain : ∀ entry ∈ entries, sep ∉ entry.key)
    {keylen datlen : Int} (hfound : ∀ before entry after, entries = before ++ entry :: after →
      entry.Fits keylen datlen →
      post (.ok ((prevOff freeOff before : Nat), entry.off,
        db.loaded entry.off (entry.slot (headOff 0 after)))) state)
    (hmissed : (∀ entry ∈ entries, ¬ entry.Fits keylen datlen) →
      post (.ok ((prevOff freeOff entries : Nat), 0, db.walked 0 entries)) state) :
    Wp theory doom post (Prog.iterate (findFreeStep keylen datlen)
      ((freeOff : Int), ((headOff 0 entries : Nat) : Int), db)) state := by
  suffices hloop : ∀ rest before, entries = before ++ rest →
      (∀ entry ∈ before, ¬ entry.Fits keylen datlen) →
      Wp theory doom post (.loop (findFreeStep keylen datlen)
        (((prevOff freeOff before : Nat) : Int), ((headOff 0 rest : Nat) : Int),
          db.walked (headOff 0 rest) before) .ret) state by
    exact hloop entries [] rfl (by simp)
  intro rest
  induction rest with
  | nil =>
    intro before hsplit hbefore
    rw [List.append_nil] at hsplit
    subst hsplit
    exact Wp.iteration hreads.live (.ret (.ret (hmissed hbefore)))
  | cons entry rest ih =>
    intro before hsplit hbefore
    have hmem : entry ∈ entries := by
      rw [hsplit]
      simp
    refine Wp.iteration hreads.live (wp_findFreeStep
      (hreads.slot before entry rest hsplit) (hreads.off entry hmem)
      (hplain entry hmem) _ _ ?_ ?_)
    · intro hfits
      rw [DB.walked_loaded]
      exact .ret (hfound before entry rest hsplit hfits)
    · intro hpass
      have hnext := ih (before ++ [entry]) (by rw [hsplit]; simp)
        (List.forall_mem_append.mpr ⟨hbefore, List.forall_mem_singleton.mpr hpass⟩)
      rw [DB.walked_snoc, prevOff_snoc] at hnext
      rw [DB.walked_loaded]
      exact hnext

end Theory

end ApueFormal.Database
