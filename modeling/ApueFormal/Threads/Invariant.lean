import ApueFormal.Threads.Ghost
import Mathlib.Algebra.BigOperators.Group.Finset.Piecewise

/-!
# What holds between the steps

The invariant ties the memory to the state of the object and to what each thread has.  It
is made of parts, and each part is about the fields of the memory and of the ghost state
that it names, so that it is not touched by a step that leaves these alone.
-/

namespace ApueFormal.Threads

open Function Program

section Views

variable {A T β : Type}

def Mem.view (part : Foo A T → β) (mem : Mem A T) (fp : A) : Option β :=
  match mem.cell fp with
  | .live foo => some (part foo)
  | _ => none

def Mem.look (mem : Mem A T) : Look A Int := mem.view fun foo => (foo.fId, foo.fNext)

def Mem.count (mem : Mem A T) : A → Option Int := mem.view Foo.fCount

def Mem.mutex (mem : Mem A T) : A → Option (Option (Option T)) := mem.view Foo.fLock

def Mem.Live (mem : Mem A T) (fp : A) : Prop := ∃ foo, mem.cell fp = .live foo

def Mem.Given (mem : Mem A T) (fp : A) : Prop := mem.cell fp ≠ .fresh

variable {part : Foo A T → β} {mem : Mem A T} {fp : A} {foo foo' : Foo A T}
variable (hcell : mem.cell fp = .live foo)
include hcell

theorem Mem.view_live : mem.view part fp = some (part foo) := by
  unfold Mem.view
  rw [hcell]

omit hcell in
theorem Mem.view_eq_some {value : β} (hview : mem.view part fp = some value) :
    ∃ foo, mem.cell fp = .live foo ∧ part foo = value := by
  unfold Mem.view at hview
  split at hview
  · exact ⟨_, ‹_›, Option.some.inj hview⟩
  · cases hview

theorem Mem.onFoo_live {γ : Type} {access : Foo A T → Outcome γ} :
    mem.onFoo fp access = access foo := by
  unfold Mem.onFoo
  rw [hcell]

variable [DecidableEq A]

omit hcell in
theorem Mem.view_put : (mem.put fp foo).view part =
    update (mem.view part) fp (some (part foo)) := by
  funext ptr
  unfold Mem.view Mem.put
  by_cases hptr : ptr = fp
  · subst hptr
    simp
  · simp [hptr]

theorem Mem.view_put_same (hpart : part foo' = part foo) :
    (mem.put fp foo').view part = mem.view part := by
  rw [Mem.view_put, hpart, ← Mem.view_live hcell, update_eq_self]

theorem Mem.live_put : (mem.put fp foo').Live = mem.Live := by
  funext ptr
  unfold Mem.Live Mem.put
  by_cases hptr : ptr = fp
  · subst hptr
    simp [hcell]
  · simp [hptr]

theorem Mem.given_put : (mem.put fp foo').Given = mem.Given := by
  funext ptr
  unfold Mem.Given Mem.put
  by_cases hptr : ptr = fp
  · subst hptr
    simp [hcell]
  · simp [hptr]

end Views

section Parts

variable {A T : Type}

/-- The objects that no other thread can reach. -/
def mine (priv : T → Option (A × Draft A)) (t : T) : Option A := (priv t).map Prod.fst

structure Linked (look : Look A Int) (fh : Fin 29 → Option A) (table : Table A) : Prop where
  chain : ∀ idx, Chain look (fh idx) (table idx)
  hashed : ∀ idx fp id, (fp, id) ∈ table idx → hash id = idx
  nodup : ∀ idx, ((table idx).map Prod.fst).Nodup

/-- A thread has an object locked as the memory says. -/
structure Locked (mutex : A → Option (Option (Option T))) (table : Table A)
    (held : T → Option A) : Prop where
  held : ∀ t fp, held t = some fp ↔ mutex fp = some (some (some t))
  inited : ∀ fp, InTable table fp → mutex fp ≠ some none

/-- An object is in the table, or it is one thread's own. -/
structure Placed (live : A → Prop) (table : Table A) (owned : T → A → Nat)
    (inCall held mine : T → Option A) : Prop where
  apart : ∀ t t' fp, mine t = some fp → mine t' = some fp → t = t'
  outside : ∀ t fp, mine t = some fp → ¬ InTable table fp
  live : ∀ fp, live fp → InTable table fp ∨ ∃ t, mine t = some fp
  held : ∀ t fp, held t = some fp → InTable table fp ∨ mine t = some fp
  owned : ∀ t fp, 0 < owned t fp → InTable table fp
  inCall : ∀ t fp, inCall t = some fp → InTable table fp ∨ mine t = some fp

structure Drafted (cell : A → Cell A T) (inCall : T → Option A)
    (priv : T → Option (A × Draft A)) : Prop where
  describes : ∀ t fp draft, priv t = some (fp, draft) →
    ∃ foo, cell fp = .live foo ∧ draft.Describes foo
  count : ∀ t fp draft, priv t = some (fp, draft) → inCall t = some fp → draft.count = 1

/-- The call that has an object of its own, and its reference to the object. -/
inductive Making (guard : Guard) (fp : A) : Status A → Option A → Prop where
  /-- The count is not set yet. -/
  | fresh {id : Int} : Making guard fp (some (.fooAlloc id, .pending)) none
  | made {id : Int} : Making guard fp (some (.fooAlloc id, .pending)) (some fp)
  | failed {id : Int} : Making guard fp (some (.fooAlloc id, .freeing fp none)) (some fp)
  | unlinked {inCall : Option A} (hguard : guard = .own → inCall = some fp) :
      Making guard fp (some (.fooRele fp, .freeing fp none)) inCall

/-- Without the lock of the object, the count is protected by the lock of the table.  Then
only a thread with a reference locks the object. -/
def Holds (guard : Guard) (inCall held : T → Option A) : Prop :=
  guard = .hash → ∀ t fp, held t = some fp → inCall t = some fp

/-- A thread has the lock that protects the count of an object. -/
def Protects (guard : Guard) (hashlock : Option T) (held : T → Option A) (t : T) (fp : A) : Prop :=
  match guard with
  | .own => held t = some fp
  | .hash => hashlock = some t

/-- A thread knows a count only under the lock that protects it. -/
structure Knows (guard : Guard) (count : A → Option Int) (hashlock : Option T) (table : Table A)
    (held : T → Option A) (known : T → Option (A × Int)) (pend : T → Option A) : Prop where
  known : ∀ t fp value, known t = some (fp, value) →
    InTable table fp ∧ Protects guard hashlock held t fp ∧ count fp = some value
  pend : ∀ t fp, pend t = some fp → guard = .hash ∧ hashlock = some t

/-- An address is used up when the object has been given out to more than its maker. -/
def Used (given : A → Prop) (mine : T → Option A) (status : T → Status A) (used : A → Prop) :
    Prop :=
  ∀ fp, used fp ↔ given fp ∧ ∀ t call, mine t = some fp → status t ≠ some (call, .pending)

variable [DecidableEq A]

/-- The references of a call are those that its status says. -/
def Referred (status : T → Status A) (inCall pend mine : T → Option A) : Prop :=
  ∀ t fp, mine t ≠ some fp → refs (status t) fp = one (inCall t) fp + one (pend t) fp

variable [Fintype T]

def outstanding (owned : T → A → Nat) (inCall : T → Option A) (fp : A) : Nat :=
  ∑ t, (owned t fp + one (inCall t) fp)

def Counted (count : A → Option Int) (table : Table A) (owned : T → A → Nat)
    (inCall : T → Option A) : Prop :=
  ∀ fp, InTable table fp → count fp = some (outstanding owned inCall fp : Int)

/-- An object of the table has a reference, if its last one is released when it is freed. -/
def Positive (guard : Guard) (table : Table A) (owned : T → A → Nat) (inCall : T → Option A) :
    Prop :=
  guard = .own → ∀ fp, InTable table fp → 0 < outstanding owned inCall fp

structure Inv (guard : Guard) (mem : Mem A T) (gh : Ghost A T) : Prop where
  linked : Linked mem.look mem.fh gh.table
  locked : Locked mem.mutex gh.table gh.held
  placed : Placed mem.Live gh.table gh.owned gh.inCall gh.held (mine gh.priv)
  drafted : Drafted mem.cell gh.inCall gh.priv
  making : ∀ t fp draft, gh.priv t = some (fp, draft) → Making guard fp (gh.status t) (gh.inCall t)
  holds : Holds guard gh.inCall gh.held
  counted : Counted mem.count gh.table gh.owned gh.inCall
  positive : Positive guard gh.table gh.owned gh.inCall
  knows : Knows guard mem.count mem.hashlock gh.table gh.held gh.known gh.pend
  used : Used mem.Given (mine gh.priv) gh.status gh.used
  referred : Referred gh.status gh.inCall gh.pend (mine gh.priv)

end Parts

section Chains

variable {A T : Type} {look : Look A Int} {fh : Fin 29 → Option A} {table : Table A}
  {idx idx' : Fin 29} {fp : A} {id id' : Int} {before rest : List (A × Int)}

namespace Linked

variable (hlinked : Linked look fh table)
include hlinked

theorem get (hmem : (fp, id) ∈ table idx) : ∃ next, look fp = some (id, next) :=
  (hlinked.chain idx).get_mem hmem

theorem unique (hmem : (fp, id) ∈ table idx) (hmem' : (fp, id') ∈ table idx') : idx = idx' := by
  obtain ⟨next, hlook⟩ := hlinked.get hmem
  obtain ⟨next', hlook'⟩ := hlinked.get hmem'
  cases hlook.symm.trans hlook'
  rw [← hlinked.hashed _ _ _ hmem, ← hlinked.hashed _ _ _ hmem']

theorem looked (hin : InTable table fp) : look fp ≠ none := by
  obtain ⟨idx, id, hmem⟩ := hin
  obtain ⟨next, hlook⟩ := hlinked.get hmem
  simp [hlook]

theorem insert (hout : ¬ InTable table fp) (hlook : look fp = some (id, headOf (table (hash id)))) :
    Linked look (update fh (hash id) (some fp)) (Threads.insert table fp id) := by
  unfold Threads.insert
  constructor
  case chain =>
    intro idx
    rcases eq_or_ne idx (hash id) with rfl | hidx
    · rw [update_self, update_self]
      refine ⟨rfl, _, hlook, ?_⟩
      rw [← (hlinked.chain _).head_eq]
      exact hlinked.chain _
    · rw [update_of_ne hidx, update_of_ne hidx]
      exact hlinked.chain idx
  case hashed =>
    intro idx ptr id' hmem
    rcases eq_or_ne idx (hash id) with rfl | hidx
    · rw [update_self] at hmem
      rcases List.mem_cons.mp hmem with heq | hmem
      · cases heq
        rfl
      · exact hlinked.hashed _ _ _ hmem
    · rw [update_of_ne hidx] at hmem
      exact hlinked.hashed _ _ _ hmem
  case nodup =>
    intro idx
    rcases eq_or_ne idx (hash id) with rfl | hidx
    · rw [update_self]
      refine List.nodup_cons.mpr ⟨fun hmem => ?_, hlinked.nodup _⟩
      obtain ⟨entry, hentry, heq⟩ := List.mem_map.mp hmem
      cases heq
      exact hout ⟨_, entry.2, hentry⟩
    · rw [update_of_ne hidx]
      exact hlinked.nodup idx

variable [DecidableEq A]

theorem outside (hout : ¬ InTable table fp)
    (value : Option (Int × Option A)) : Linked (update look fp value) fh table where
  chain idx := (hlinked.chain idx).congr fun node hnode => by
    refine update_of_ne ?_ _ _
    rintro rfl
    exact hout ⟨idx, node.2, hnode⟩
  hashed := hlinked.hashed
  nodup := hlinked.nodup

theorem remove_eq (hchain : table idx = before ++ (fp, id) :: rest) :
    remove table fp = update table idx (before ++ rest) := by
  funext idx'
  rcases eq_or_ne idx' idx with rfl | hidx
  · rw [update_self, remove, hchain]
    have hnodup := hlinked.nodup idx'
    rw [hchain, List.map_append, List.map_cons, List.nodup_middle, List.nodup_cons,
      ← List.map_append] at hnodup
    have hkeep : ∀ entry ∈ before ++ rest, entry.1 ≠ fp := by
      rintro entry hentry rfl
      exact hnodup.1 (List.mem_map.mpr ⟨entry, hentry, rfl⟩)
    have hfilter := List.filter_eq_self.mpr fun entry hentry =>
      decide_eq_true (hkeep entry hentry)
    simpa using hfilter
  · rw [update_of_ne hidx, remove, List.filter_eq_self]
    rintro ⟨ptr, id'⟩ hmem
    refine decide_eq_true ?_
    rintro rfl
    have hmem' : (ptr, id) ∈ table idx := by
      rw [hchain]
      simp
    exact hidx (hlinked.unique hmem hmem')

theorem removed {look' : Look A Int} {fh' : Fin 29 → Option A}
    (hchain : ∀ idx, Chain look' (fh' idx) (remove table fp idx)) :
    Linked look' fh' (remove table fp) where
  chain := hchain
  hashed _ _ _ hmem := hlinked.hashed _ _ _ (List.mem_of_mem_filter hmem)
  nodup idx := (hlinked.nodup idx).sublist (List.filter_sublist.map _)

theorem removeHead (hchain : table idx = (fp, id) :: rest) :
    Linked look (update fh idx (headOf rest)) (remove table fp) := by
  have hsplit : table idx = [] ++ (fp, id) :: rest := hchain
  refine hlinked.removed fun idx' => ?_
  rw [hlinked.remove_eq hsplit]
  rcases eq_or_ne idx' idx with rfl | hidx
  · rw [update_self, update_self]
    exact (hchain ▸ hlinked.chain idx').tail
  · rw [update_of_ne hidx, update_of_ne hidx]
    exact hlinked.chain idx'

theorem removeNext {prev : A} {prevId : Int}
    (hchain : table idx = before ++ (prev, prevId) :: (fp, id) :: rest) :
    Linked (update look prev (some (prevId, headOf rest))) fh (remove table fp) := by
  have hsplit : table idx = (before ++ [(prev, prevId)]) ++ (fp, id) :: rest := by
    rw [hchain]
    simp
  have hprev : (prev, prevId) ∈ table idx := by
    rw [hchain]
    simp
  refine hlinked.removed fun idx' => ?_
  rw [hlinked.remove_eq hsplit]
  rcases eq_or_ne idx' idx with rfl | hidx
  · rw [update_self, List.append_assoc]
    refine (hchain ▸ hlinked.chain idx').unlink (update_self ..) fun node hnode => ?_
    refine update_of_ne ?_ _ _
    rintro rfl
    have hnodup := hlinked.nodup idx'
    rw [hchain, List.map_append, List.map_cons, List.nodup_middle, List.nodup_cons] at hnodup
    refine hnodup.1 ?_
    rw [← List.map_append]
    refine List.mem_map.mpr ⟨node, ?_, rfl⟩
    rcases List.mem_append.mp hnode with hmem | hmem
    · exact List.mem_append_left _ hmem
    · exact List.mem_append_right _ (List.mem_cons_of_mem _ hmem)
  · rw [update_of_ne hidx]
    refine (hlinked.chain idx').congr fun node hnode => update_of_ne ?_ _ _
    rintro rfl
    exact hidx (hlinked.unique hnode hprev)

end Linked

end Chains

section References

variable {A T : Type} [DecidableEq A] [Fintype T]
  {owned : T → A → Nat} {inCall : T → Option A} {t : T} {ptr : Option A} {fp : A}

theorem outstanding_eq (howned : ∀ t', owned t' fp = 0) (hinCall : ∀ t' ≠ t, inCall t' ≠ some fp) :
    outstanding owned inCall fp = one (inCall t) fp := by
  unfold outstanding
  rw [Finset.sum_eq_single t]
  · rw [howned, Nat.zero_add]
  · intro t' _ ht
    rw [howned, one_of_ne (hinCall t' ht), Nat.zero_add]
  · exact fun hmem => absurd (Finset.mem_univ t) hmem

variable [DecidableEq T]

theorem outstanding_update (owned : T → A → Nat) (inCall : T → Option A) (t : T) (ptr : Option A)
    (fp : A) : outstanding owned (update inCall t ptr) fp + one (inCall t) fp =
      outstanding owned inCall fp + one ptr fp := by
  unfold outstanding
  rw [← Finset.add_sum_erase _ _ (Finset.mem_univ t),
    ← Finset.add_sum_erase _ (fun t => owned t fp + one (inCall t) fp) (Finset.mem_univ t),
    update_self]
  have hrest : ∀ t' ∈ Finset.univ.erase t, owned t' fp + one (update inCall t ptr t') fp =
        owned t' fp + one (inCall t') fp := by
    intro t' ht'
    rw [update_of_ne (Finset.ne_of_mem_erase ht')]
  rw [Finset.sum_congr rfl hrest]
  omega

theorem outstanding_alone (heq : outstanding owned inCall fp = one (inCall t) fp) (t' : T) :
    owned t' fp = 0 ∧ (inCall t' = some fp → t' = t) := by
  unfold outstanding at heq
  rw [← Finset.add_sum_erase _ _ (Finset.mem_univ t)] at heq
  have hrest : ∑ t' ∈ Finset.univ.erase t, (owned t' fp + one (inCall t') fp) = 0 := by omega
  rcases eq_or_ne t' t with rfl | ht
  · exact ⟨by omega, fun _ => rfl⟩
  · have hzero := Finset.sum_eq_zero_iff.mp hrest t' (Finset.mem_erase.mpr ⟨ht, Finset.mem_univ _⟩)
    refine ⟨by omega, fun hinCall => ?_⟩
    rw [hinCall, one_self] at hzero
    omega

end References

end ApueFormal.Threads
