import ApueFormal.Program.Heap
import ApueFormal.Program.Logic

/-!
# Locks that protect parts of a shared heap

Several parties work on one shared state.  A heap describes that state cell by
cell.  Every cell belongs to one party or to one lock.  A party that takes a
lock for writing receives the cells of the lock, and it hands back cells that
satisfy the invariant of the lock.  A party that takes a lock for reading may
look at the cells of the lock but cannot change them.

A party may announce the reply of its current task at the moment when it
releases a lock.  The announcement is the only step that can change the record
of finished tasks.
-/

namespace ApueFormal.Program

inductive LockUse (Lock : Type) where
  | io
  | read (lock : Lock)
  | write (lock : Lock)
  | release (lock : Lock)
  /-- An operation on bytes that are not the bytes of one lock. -/
  | stray

structure Local (Cell Val Lock Reply : Type) where
  /-- The cells that belong to the party. -/
  own : Heap Cell Val
  /-- The cells of the lock that the party holds for reading. -/
  peek : Heap Cell Val
  reading : Option Lock
  /-- The locks that the party holds for writing, the latest one first. -/
  held : List Lock
  /-- Every lock that the party has taken during its current task. -/
  taken : List Lock
  reply : Option Reply

def Local.start {Cell Val Lock Reply : Type} (own : Heap Cell Val) : Local Cell Val Lock Reply where
  own := own
  peek := Heap.empty
  reading := none
  held := []
  taken := []
  reply := none

structure Protocol (sig : Signature) (σ Cell Val Lock Actor Reply : Type) where
  lockUse : sig.Op → LockUse Lock
  exec : Actor → Machine sig σ
  /-- Record the reply of a finished task. -/
  finish : Actor → Reply → σ → σ
  /-- The total heap describes the shared state. -/
  rep : σ → Heap Cell Val → Prop
  /-- What holds of the cells of a lock that nobody has taken for writing. -/
  inv : Lock → Heap Cell Val → Prop
  /-- What a task may assume of the cells of a lock it takes the first time. -/
  assume : Actor → Lock → Heap Cell Val → Prop
  exec_lock : ∀ actor op state, lockUse op ≠ .io → (exec actor op state).2 = state

namespace Protocol

variable {sig : Signature} {σ Cell Val Lock Actor Reply : Type}
variable (protocol : Protocol sig σ Cell Val Lock Actor Reply)

open Function Heap

/-- An input or output operation respects every frame around the own cells. -/
def MayIo (actor : Actor) (op : sig.Op) (here : Local Cell Val Lock Reply)
    (accepted : sig.Answer op → Local Cell Val Lock Reply → Prop)
    (hopeless : sig.Answer op → Prop) : Prop :=
  ∀ frame state, Disjoint here.own frame → Sub here.peek frame →
    protocol.rep state (here.own ∪ frame) → hopeless (protocol.exec actor op state).1 ∨
    ∃ own, accepted (protocol.exec actor op state).1 { here with own := own } ∧ Disjoint own frame ∧
      protocol.rep (protocol.exec actor op state).2 (own ∪ frame)

def MayWrite (actor : Actor) (op : sig.Op) (lock : Lock) (here : Local Cell Val Lock Reply)
    (accepted : sig.Answer op → Local Cell Val Lock Reply → Prop) : Prop :=
  here.reading = none ∧ lock ∉ here.held ∧
    ∀ answer part, Disjoint here.own part → protocol.inv lock part →
      (lock ∉ here.taken → protocol.assume actor lock part) →
      accepted answer { here with
        own := here.own ∪ part
        held := lock :: here.held
        taken := lock :: here.taken }

def MayRead (actor : Actor) (op : sig.Op) (lock : Lock) (here : Local Cell Val Lock Reply)
    (accepted : sig.Answer op → Local Cell Val Lock Reply → Prop) : Prop :=
  here.reading = none ∧ lock ∉ here.held ∧
    ∀ answer part, Disjoint here.own part → protocol.inv lock part →
      (lock ∉ here.taken → protocol.assume actor lock part) →
      accepted answer { here with
        peek := part
        reading := some lock
        taken := lock :: here.taken }

/-- Hand the cells back, with or without announcing the reply. -/
def MayReleaseWrite (actor : Actor) (op : sig.Op) (lock : Lock) (here : Local Cell Val Lock Reply)
    (accepted : sig.Answer op → Local Cell Val Lock Reply → Prop) : Prop :=
  ∃ rest kept part, here.reading = none ∧ here.held = lock :: rest ∧
    here.own = kept ∪ part ∧ Disjoint kept part ∧
    ((protocol.inv lock part ∧
      ∀ answer, accepted answer { here with own := kept, held := rest }) ∨
    ∃ new reply, protocol.inv lock new ∧
      (∀ frame state, Disjoint here.own frame →
        protocol.rep state (here.own ∪ frame) → Disjoint kept new ∧ Disjoint (kept ∪ new) frame ∧
        protocol.rep (protocol.finish actor reply state) (kept ∪ new ∪ frame)) ∧
      ∀ answer, accepted answer
        { here with own := kept, held := rest, reply := some reply })

/-- Stop reading, with or without announcing the reply. -/
def MayReleaseRead (actor : Actor) (op : sig.Op) (lock : Lock) (here : Local Cell Val Lock Reply)
    (accepted : sig.Answer op → Local Cell Val Lock Reply → Prop) : Prop :=
  here.reading = some lock ∧
    ((∀ answer, accepted answer { here with peek := empty, reading := none }) ∨
    ∃ reply, (∀ frame state, Disjoint here.own frame → Sub here.peek frame →
        protocol.rep state (here.own ∪ frame) →
        protocol.rep (protocol.finish actor reply state) (here.own ∪ frame)) ∧
      ∀ answer, accepted answer
        { here with peek := empty, reading := none, reply := some reply })

/-- The theory of one party: after the reply nothing more may be done. -/
def theory (actor : Actor) : Theory sig (Local Cell Val Lock Reply) where
  may op here accepted hopeless :=
    here.reply = none ∧
    match protocol.lockUse op with
    | .io => protocol.MayIo actor op here accepted hopeless
    | .write lock => protocol.MayWrite actor op lock here accepted
    | .read lock => protocol.MayRead actor op lock here accepted
    | .release lock =>
      protocol.MayReleaseWrite actor op lock here accepted ∨
      protocol.MayReleaseRead actor op lock here accepted
    | .stray => False
  live here := here.reply = none

/-! ## Several parties together -/

variable {P : Type}

/-- The parties and the locks together own the total heap, and every lock that
is not held for writing satisfies its invariant. -/
structure Together (state : σ) (here : P → Local Cell Val Lock Reply)
    (pool : Lock → Heap Cell Val) (total : Heap Cell Val) : Prop where
  splits : Splits (Sum.elim (fun p => (here p).own) pool) total
  rep : protocol.rep state total
  inv : ∀ lock, (∀ p, lock ∉ (here p).held) → protocol.inv lock (pool lock)
  away : ∀ p lock, lock ∈ (here p).held → pool lock = empty
  peek : ∀ p lock, (here p).reading = some lock → (here p).peek = pool lock
  blind : ∀ p, (here p).reading = none → (here p).peek = empty
  alone : ∀ p q lock, lock ∈ (here p).held → (here q).reading ≠ some lock
  unique : ∀ p q lock, lock ∈ (here p).held → lock ∈ (here q).held → p = q
  nodup : ∀ p, (here p).held.Nodup

namespace Together

variable {protocol} {state : σ} {here : P → Local Cell Val Lock Reply}
variable {pool : Lock → Heap Cell Val} {total : Heap Cell Val}
variable (htogether : Together protocol state here pool total)
include htogether

theorem transfer {other : Protocol sig σ Cell Val Lock Actor Reply} {state' : σ}
    (hrep : other.rep state' total)
    (hinv : ∀ lock part, protocol.inv lock part → other.inv lock part) :
    Together other state' here pool total where
  splits := htogether.splits
  rep := hrep
  inv lock hfree := hinv lock _ (htogether.inv lock hfree)
  away := htogether.away
  peek := htogether.peek
  blind := htogether.blind
  alone := htogether.alone
  unique := htogether.unique
  nodup := htogether.nodup

variable {state' : σ} {lock : Lock} {actor : Actor} {op : sig.Op}
  {accepted : sig.Answer op → Local Cell Val Lock Reply → Prop}

theorem restate (hrep : protocol.rep state' total) : Together protocol state' here pool total :=
  htogether.transfer hrep fun _ _ => id

theorem relabel {here' : P → Local Cell Val Lock Reply} (hown : ∀ p, (here' p).own = (here p).own)
    (hpeek : ∀ p, (here' p).peek = (here p).peek)
    (hreading : ∀ p, (here' p).reading = (here p).reading)
    (hheld : ∀ p, (here' p).held = (here p).held) :
    Together protocol state here' pool total where
  splits := by
    simp only [hown]
    exact htogether.splits
  rep := htogether.rep
  inv := by
    simp only [hheld]
    exact htogether.inv
  away := by
    simp only [hheld]
    exact htogether.away
  peek := by
    simp only [hpeek, hreading]
    exact htogether.peek
  blind := by
    simp only [hpeek, hreading]
    exact htogether.blind
  alone := by
    simp only [hheld, hreading]
    exact htogether.alone
  unique := by
    simp only [hheld]
    exact htogether.unique
  nodup := by
    simp only [hheld]
    exact htogether.nodup

theorem inv_of_free {p : P} (hself : lock ∉ (here p).held)
    (hothers : ∀ q, q ≠ p → lock ∉ (here q).held) : protocol.inv lock (pool lock) := by
  refine htogether.inv lock fun q => ?_
  by_cases hq : q = p
  · rw [hq]
    exact hself
  · exact hothers q hq

theorem others_of_held {p : P} (hmem : lock ∈ (here p).held) {q : P} (hq : q ≠ p) :
    lock ∉ (here q).held ∧ (here q).reading ≠ some lock :=
  ⟨fun hother => hq (htogether.unique q p lock hother hmem), htogether.alone p q lock hmem⟩

variable [DecidableEq P] [DecidableEq Lock]

omit htogether in
private theorem own_update (here : P → Local Cell Val Lock Reply) (p : P)
    (new : Local Cell Val Lock Reply) (pool : Lock → Heap Cell Val) :
    Sum.elim (fun q => (update here p new q).own) pool =
      update (Sum.elim (fun q => (here q).own) pool) (.inl p) new.own := by
  funext i
  cases i with
  | inl q =>
    by_cases hq : q = p
    · subst hq
      simp
    · simp [hq]
  | inr lock => simp

omit htogether in
private theorem pool_update (own : P → Heap Cell Val)
    (pool : Lock → Heap Cell Val) (lock : Lock) (part : Heap Cell Val) :
    Sum.elim own (update pool lock part) = update (Sum.elim own pool) (.inr lock) part := by
  funext i
  cases i with
  | inl q => simp
  | inr other =>
    by_cases hother : other = lock
    · subst hother
      simp
    · simp [hother]

variable {next : Local Cell Val Lock Reply}

omit [DecidableEq Lock] in
/-- One party and the cells of the locks change.  The other parties see none of
it when nobody has a lock that the change touches. -/
theorem turn (p : P) {pool' : Lock → Heap Cell Val} {total' : Heap Cell Val}
    (hsplits : Splits (Sum.elim (fun q => (update here p next q).own) pool') total')
    (hrep : protocol.rep state' total')
    (hinv : ∀ lock, lock ∉ next.held → (∀ q, q ≠ p → lock ∉ (here q).held) →
      protocol.inv lock (pool' lock))
    (hpool : ∀ q lock, q ≠ p → lock ∈ (here q).held ∨ (here q).reading = some lock →
      pool' lock = pool lock) (haway : ∀ lock ∈ next.held, pool' lock = empty)
    (hpeek : ∀ lock, next.reading = some lock → next.peek = pool' lock)
    (hblind : next.reading = none → next.peek = empty)
    (hheld : ∀ lock ∈ next.held, next.reading ≠ some lock ∧
      ∀ q, q ≠ p → lock ∉ (here q).held ∧ (here q).reading ≠ some lock)
    (hreading : ∀ lock, next.reading = some lock → ∀ q, q ≠ p → lock ∉ (here q).held)
    (hnodup : next.held.Nodup) :
    Together protocol state' (update here p next) pool' total' := by
  have hself : update here p next p = next := update_self ..
  have hother : ∀ {q}, q ≠ p → update here p next q = here q :=
    fun hq => update_of_ne hq ..
  constructor
  case splits => exact hsplits
  case rep => exact hrep
  case inv =>
    intro lock hfree
    refine hinv lock (hself ▸ hfree p) fun q hq => ?_
    have hnot := hfree q
    rwa [hother hq] at hnot
  case away =>
    intro q lock hmem
    by_cases hq : q = p
    · rw [hq, hself] at hmem
      exact haway lock hmem
    · rw [hother hq] at hmem
      rw [hpool q lock hq (.inl hmem)]
      exact htogether.away q lock hmem
  case peek =>
    intro q lock hread
    by_cases hq : q = p
    · rw [hq, hself] at hread ⊢
      exact hpeek lock hread
    · rw [hother hq] at hread ⊢
      rw [hpool q lock hq (.inr hread)]
      exact htogether.peek q lock hread
  case blind =>
    intro q hread
    by_cases hq : q = p
    · rw [hq, hself] at hread ⊢
      exact hblind hread
    · rw [hother hq] at hread ⊢
      exact htogether.blind q hread
  case alone =>
    intro q r lock hmem hread
    by_cases hq : q = p
    · rw [hq, hself] at hmem
      by_cases hr : r = p
      · rw [hr, hself] at hread
        exact (hheld lock hmem).1 hread
      · rw [hother hr] at hread
        exact ((hheld lock hmem).2 r hr).2 hread
    · rw [hother hq] at hmem
      by_cases hr : r = p
      · rw [hr, hself] at hread
        exact hreading lock hread q hq hmem
      · rw [hother hr] at hread
        exact htogether.alone q r lock hmem hread
  case unique =>
    intro q r lock hmem hmem'
    by_cases hq : q = p
    · by_cases hr : r = p
      · rw [hq, hr]
      · rw [hq, hself] at hmem
        rw [hother hr] at hmem'
        exact absurd hmem' ((hheld lock hmem).2 r hr).1
    · rw [hother hq] at hmem
      by_cases hr : r = p
      · rw [hr, hself] at hmem'
        exact absurd hmem ((hheld lock hmem').2 q hq).1
      · rw [hother hr] at hmem'
        exact htogether.unique q r lock hmem hmem'
  case nodup =>
    intro q
    by_cases hq : q = p
    · rw [hq, hself]
      exact hnodup
    · rw [hother hq]
      exact htogether.nodup q

theorem reown (p : P) {own : Heap Cell Val} (hdisj : Disjoint own (total.without (here p).own))
    (hrep : protocol.rep state' (own ∪ total.without (here p).own)) :
    Together protocol state' (update here p { here p with own := own }) pool
      (own ∪ total.without (here p).own) := by
  refine htogether.turn p ?_ hrep (fun _ => htogether.inv_of_free) (fun _ _ _ _ => rfl)
    (htogether.away p) (htogether.peek p) (htogether.blind p) ?_ ?_ (htogether.nodup p)
  · rw [own_update]
    exact htogether.splits.replace (.inl p) hdisj
  · exact fun lock hmem => ⟨htogether.alone p p lock hmem, fun _ => htogether.others_of_held hmem⟩
  · exact fun lock hread q _ hmem => htogether.alone q p lock hmem hread

theorem io (p : P)
    {hopeless : sig.Answer op → Prop} (hmay : protocol.MayIo actor op (here p) accepted hopeless) :
    hopeless (protocol.exec actor op state).1 ∨
    ∃ own total', accepted (protocol.exec actor op state).1 { here p with own := own } ∧
      Together protocol (protocol.exec actor op state).2
        (update here p { here p with own := own }) pool total' := by
  have hsplits := htogether.splits
  have hunion : (here p).own ∪ total.without (here p).own = total :=
    union_without (hsplits.sub (.inl p))
  have hpeek : Sub (here p).peek (total.without (here p).own) := by
    cases hreading : (here p).reading with
    | none =>
      rw [htogether.blind p hreading]
      exact empty_sub _
    | some lock =>
      rw [htogether.peek p lock hreading]
      exact hsplits.sub_without (i := .inl p) (j := .inr lock) (by simp)
  rcases hmay (total.without (here p).own) state
      (disjoint_without _ _) hpeek (by rw [hunion]; exact htogether.rep) with
    hhopeless | ⟨own, haccepted, hdisj, hrep⟩
  · exact .inl hhopeless
  · exact .inr ⟨own, _, haccepted, htogether.reown p hdisj hrep⟩

theorem write (p : P) (hmay : protocol.MayWrite actor op lock (here p) accepted)
    (hfree : ∀ q, q ≠ p → lock ∉ (here q).held ∧ (here q).reading ≠ some lock)
    (hassume : lock ∉ (here p).taken → protocol.assume actor lock (pool lock))
    (answer : sig.Answer op) :
    ∃ next, accepted answer next ∧ next.reply = (here p).reply ∧
      next.held = lock :: (here p).held ∧ next.reading = (here p).reading ∧
      next.taken = lock :: (here p).taken ∧ Together protocol state (update here p next)
        (update pool lock empty) total := by
  obtain ⟨hreading, hnotheld, haccepted⟩ := hmay
  refine ⟨_, haccepted answer (pool lock)
    (htogether.splits.disjoint (.inl p) (.inr lock) (by simp))
    (htogether.inv_of_free hnotheld fun q hq => (hfree q hq).1) hassume, rfl, rfl, rfl, rfl, ?_⟩
  have hunread : ∀ other, (here p).reading ≠ some other := by
    intro other hread
    rw [hreading] at hread
    cases hread
  refine htogether.turn p ?_ htogether.rep ?_ ?_ ?_
    (fun other hread => absurd hread (hunread other)) (htogether.blind p) ?_
    (fun other hread => absurd hread (hunread other))
    (List.nodup_cons.mpr ⟨hnotheld, htogether.nodup p⟩)
  case refine_1 =>
    rw [own_update, pool_update]
    exact htogether.splits.give (i := .inl p) (j := .inr lock) (by simp)
  case refine_2 =>
    intro other hother hothers
    obtain ⟨hne, hself⟩ := not_or.mp fun hmem => hother (List.mem_cons.mpr hmem)
    rw [update_of_ne hne]
    exact htogether.inv_of_free hself hothers
  case refine_3 =>
    intro q other hq huses
    refine update_of_ne ?_ ..
    rintro rfl
    exact huses.elim (hfree q hq).1 (hfree q hq).2
  case refine_4 =>
    intro other hmem
    rcases List.mem_cons.mp hmem with rfl | hmem
    · exact update_self ..
    · have hne : other ≠ lock := fun heq => hnotheld (heq ▸ hmem)
      rw [update_of_ne hne]
      exact htogether.away p other hmem
  case refine_5 =>
    intro other hmem
    refine ⟨hunread other, fun q hq => ?_⟩
    rcases List.mem_cons.mp hmem with rfl | hmem
    · exact hfree q hq
    · exact htogether.others_of_held hmem hq

theorem read (p : P) {actor : Actor} {op : sig.Op} {lock : Lock}
    {accepted : sig.Answer op → Local Cell Val Lock Reply → Prop}
    (hmay : protocol.MayRead actor op lock (here p) accepted)
    (hfree : ∀ q, q ≠ p → lock ∉ (here q).held)
    (hassume : lock ∉ (here p).taken → protocol.assume actor lock (pool lock))
    (answer : sig.Answer op) :
    ∃ next, accepted answer next ∧ next.reply = (here p).reply ∧
      next.held = (here p).held ∧ next.reading = some lock ∧ next.taken = lock :: (here p).taken ∧
      Together protocol state (update here p next) pool total := by
  obtain ⟨_, hnotheld, haccepted⟩ := hmay
  refine ⟨_, haccepted answer (pool lock)
    (htogether.splits.disjoint (.inl p) (.inr lock) (by simp))
    (htogether.inv_of_free hnotheld hfree) hassume, rfl, rfl, rfl, rfl, ?_⟩
  refine htogether.turn p ?_ htogether.rep (fun _ => htogether.inv_of_free) (fun _ _ _ _ => rfl)
    (htogether.away p) ?_ (fun hread => nomatch hread) ?_ ?_ (htogether.nodup p)
  case refine_1 =>
    rw [own_update]
    exact (update_eq_self (Sum.inl p) (Sum.elim (fun q => (here q).own) pool)).symm ▸
      htogether.splits
  case refine_2 =>
    rintro _ ⟨⟩
    rfl
  case refine_3 =>
    intro other hmem
    refine ⟨?_, fun _ => htogether.others_of_held hmem⟩
    rintro ⟨⟩
    exact hnotheld hmem
  case refine_4 =>
    rintro _ ⟨⟩
    exact hfree

theorem handBack (p : P) {rest : List Lock} {new total' : Heap Cell Val}
    (hheld : (here p).held = lock :: rest) (hnext : next.held = rest)
    (hreading : next.reading = none) (hpeek : next.peek = empty) (hinv : protocol.inv lock new)
    (hrep : protocol.rep state' total') (hsplits : Splits (update (update
      (Sum.elim (fun q => (here q).own) pool) (.inl p) next.own) (.inr lock) new) total') :
    Together protocol state' (update here p next) (update pool lock new) total' := by
  have hmem : lock ∈ (here p).held := by
    rw [hheld]
    exact List.mem_cons_self
  have hnodup := htogether.nodup p
  rw [hheld, List.nodup_cons] at hnodup
  have hunread : ∀ other, next.reading ≠ some other := by
    intro other hread
    rw [hreading] at hread
    cases hread
  have hkept : ∀ other ∈ next.held, other ∈ (here p).held ∧ other ≠ lock := by
    intro other hother
    rw [hnext] at hother
    refine ⟨by rw [hheld]; exact List.mem_cons_of_mem _ hother, ?_⟩
    rintro rfl
    exact hnodup.1 hother
  refine htogether.turn p ?_ hrep ?_ ?_ ?_ (fun other hread => absurd hread (hunread other))
    (fun _ => hpeek) ?_ (fun other hread => absurd hread (hunread other)) (hnext ▸ hnodup.2)
  case refine_1 =>
    rw [own_update, pool_update]
    simpa only [← pool_update, ← own_update] using hsplits
  case refine_2 =>
    intro other hother hothers
    by_cases hne : other = lock
    · rw [hne, update_self]
      exact hinv
    · rw [update_of_ne hne]
      refine htogether.inv_of_free (fun hself => ?_) hothers
      rw [hheld, List.mem_cons] at hself
      exact hother (hnext ▸ hself.resolve_left hne)
  case refine_3 =>
    intro q other hq huses
    refine update_of_ne ?_ ..
    rintro rfl
    exact huses.elim (htogether.others_of_held hmem hq).1 (htogether.others_of_held hmem hq).2
  case refine_4 =>
    intro other hother
    rw [update_of_ne (hkept other hother).2]
    exact htogether.away p other (hkept other hother).1
  case refine_5 =>
    intro other hother
    exact ⟨hunread other, fun q hq => htogether.others_of_held (hkept other hother).1 hq⟩

theorem stopReading (p : P) (hown : next.own = (here p).own) (hheld : next.held = (here p).held)
    (hreading : next.reading = none) (hpeek : next.peek = empty) (hrep : protocol.rep state' total)
    : Together protocol state' (update here p next) pool total := by
  have hunread : ∀ other, next.reading ≠ some other := by
    intro other hread
    rw [hreading] at hread
    cases hread
  refine htogether.turn p ?_ hrep ?_ (fun _ _ _ _ => rfl) (hheld ▸ htogether.away p)
    (fun other hread => absurd hread (hunread other)) (fun _ => hpeek) ?_
    (fun other hread => absurd hread (hunread other)) (hheld ▸ htogether.nodup p)
  · rw [own_update, hown]
    exact (update_eq_self (Sum.inl p) (Sum.elim (fun q => (here q).own) pool)).symm ▸
      htogether.splits
  · exact fun other hother => htogether.inv_of_free (hheld ▸ hother)
  · intro other hother
    exact ⟨hunread other, fun q hq => htogether.others_of_held (hheld ▸ hother) hq⟩

/-- Releasing a lock returns its cells to the pool.  The state changes only
when the reply is announced. -/
theorem release (p : P)
    (hmay : protocol.MayReleaseWrite actor op lock (here p) accepted ∨
      protocol.MayReleaseRead actor op lock (here p) accepted) (answer : sig.Answer op) :
    ∃ next pool' total', accepted answer next ∧
      next.held = (here p).held.erase lock ∧ next.reading = none ∧ next.taken = (here p).taken ∧
      (∀ other, other ≠ lock → pool' other = pool other) ∧
      (lock ∈ (here p).held ∨ (here p).reading = some lock) ∧
      ((next.reply = (here p).reply ∧
        Together protocol state (update here p next) pool' total') ∨
      ∃ reply, next.reply = some reply ∧ Together protocol (protocol.finish actor reply state)
          (update here p next) pool' total') := by
  have hsplits := htogether.splits
  rcases hmay with hwrite | hread
  · obtain ⟨rest, kept, part, hnoread, hheld, hown, hdisj, hways⟩ := hwrite
    have hmem : lock ∈ (here p).held := by
      rw [hheld]
      exact List.mem_cons_self
    have hrest : (here p).held.erase lock = rest := by
      rw [hheld]
      simp
    have haway := htogether.away p lock hmem
    have hblind := htogether.blind p hnoread
    have hlend := hsplits.lend (i := .inl p) (j := .inr lock) (by simp) haway hown hdisj
    rcases hways with ⟨hinv, haccepted⟩ | ⟨new, reply, hinv, hrep, haccepted⟩
    · refine ⟨_, update pool lock part, total, haccepted answer,
        hrest.symm, hnoread, rfl, fun other hne => update_of_ne hne ..,
        .inl hmem, .inl ⟨rfl, ?_⟩⟩
      exact htogether.handBack p hheld rfl hnoread hblind hinv htogether.rep hlend
    · have hunion : (here p).own ∪ total.without (here p).own = total :=
        union_without (hsplits.sub (.inl p))
      obtain ⟨hnew, hframe, hrep'⟩ := hrep (total.without (here p).own) state
        (disjoint_without _ _) (by rw [hunion]; exact htogether.rep)
      refine ⟨_, update pool lock new,
        kept ∪ new ∪ total.without (here p).own, haccepted answer, hrest.symm,
        hnoread, rfl, fun other hne => update_of_ne hne ..,
        .inl hmem, .inr ⟨reply, rfl, ?_⟩⟩
      refine htogether.handBack p hheld rfl hnoread hblind hinv hrep' ?_
      have hreplace := hsplits.replace (.inl p) hframe
      have hempty : update (Sum.elim (fun q => (here q).own) pool)
          (.inl p) (kept ∪ new) (.inr lock) = empty := by
        rw [update_of_ne (by simp)]
        exact haway
      have hlend' := hreplace.lend (i := .inl p) (j := .inr lock) (by simp)
        hempty (update_self ..) hnew
      simpa only [update_idem, Sum.elim_inl] using hlend'
  · obtain ⟨hreading, hways⟩ := hread
    have hnotheld : ∀ q, lock ∉ (here q).held :=
      fun q hmem => htogether.alone q p lock hmem hreading
    have herase : (here p).held.erase lock = (here p).held :=
      List.erase_of_not_mem (hnotheld p)
    rcases hways with haccepted | ⟨reply, hrep, haccepted⟩
    · refine ⟨_, pool, total, haccepted answer, herase.symm, rfl,
        rfl, fun _ _ => rfl, .inr hreading, .inl ⟨rfl, ?_⟩⟩
      exact htogether.stopReading p rfl rfl rfl rfl htogether.rep
    · have hunion : (here p).own ∪ total.without (here p).own = total :=
        union_without (hsplits.sub (.inl p))
      have hpeek : Sub (here p).peek (total.without (here p).own) := by
        rw [htogether.peek p lock hreading]
        exact hsplits.sub_without (i := .inl p) (j := .inr lock) (by simp)
      refine ⟨_, pool, total, haccepted answer, herase.symm, rfl,
        rfl, fun _ _ => rfl, .inr hreading, .inr ⟨reply, rfl, ?_⟩⟩
      refine htogether.stopReading p rfl rfl rfl rfl ?_
      have hdone := hrep (total.without (here p).own) state
        (disjoint_without _ _) hpeek (by rw [hunion]; exact htogether.rep)
      rwa [hunion] at hdone

end Together

end Protocol

end ApueFormal.Program
