import ApueFormal.Threads.Model
import Mathlib.Algebra.BigOperators.Group.Finset.Basic
import Mathlib.Data.Fintype.Basic

/-!
# The reference counts as an atomic object

Each call takes effect at one moment between its start and its end.  An object is freed
at a later moment than the one at which its last reference is released, and that moment
is seen as well.
-/

namespace ApueFormal.Threads

open Function Program

/-- The objects of each hash chain, with their identifiers. -/
abbrev Table (A : Type) := Fin 29 → List (A × Int)

inductive Phase (A : Type) where
  | pending
  /-- The call has taken effect, but it still has to free an object. -/
  | freeing (fp : A) (value : Option A)
  | finished (value : Option A)

abbrev Status (A : Type) := Option (Call A × Phase A)

section Tables

variable {A : Type}

def InTable (table : Table A) (fp : A) : Prop := ∃ idx id, (fp, id) ∈ table idx

def lookup (table : Table A) (id : Int) : Option A :=
  ((table (hash id)).find? fun entry => entry.2 = id).map Prod.fst

def insert (table : Table A) (fp : A) (id : Int) : Table A :=
  Function.update table (hash id) ((fp, id) :: table (hash id))

variable {table : Table A} {fp ptr : A} {id : Int}

theorem InTable.ne (hin : InTable table ptr) (hout : ¬ InTable table fp) : ptr ≠ fp :=
  fun heq => hout (heq ▸ hin)

theorem inTable_insert : InTable (insert table fp id) ptr ↔ ptr = fp ∨ InTable table ptr := by
  constructor
  · rintro ⟨idx, id', hmem⟩
    by_cases hidx : idx = hash id
    · subst hidx
      rw [insert, update_self] at hmem
      rcases List.mem_cons.mp hmem with heq | hmem
      · exact .inl (congrArg Prod.fst heq)
      · exact .inr ⟨_, _, hmem⟩
    · rw [insert, update_of_ne hidx] at hmem
      exact .inr ⟨_, _, hmem⟩
  · rintro (rfl | ⟨idx, id', hmem⟩)
    · refine ⟨hash id, id, ?_⟩
      rw [insert, update_self]
      exact List.mem_cons_self
    · refine ⟨idx, id', ?_⟩
      by_cases hidx : idx = hash id
      · subst hidx
        rw [insert, update_self]
        exact List.mem_cons_of_mem _ hmem
      · rwa [insert, update_of_ne hidx]

variable [DecidableEq A]

def remove (table : Table A) (fp : A) : Table A :=
  fun idx => (table idx).filter fun entry => entry.1 ≠ fp

def refs : Status A → A → Nat
  | some (.fooRele fp, .pending), ptr => one (some fp) ptr
  | some (call, .finished value), ptr => one (call.gains value) ptr
  | _, _ => 0

@[simp] theorem refs_finished (call : Call A) (value : Option A) (ptr : A) :
    refs (some (call, .finished value)) ptr = one (call.gains value) ptr := by
  cases call <;> rfl

@[simp] theorem refs_freeing (call : Call A) (value : Option A) (ptr : A) :
    refs (some (call, .freeing fp value)) ptr = 0 := by
  cases call <;> rfl

theorem inTable_remove : InTable (remove table fp) ptr ↔ ptr ≠ fp ∧ InTable table ptr := by
  simp only [InTable, remove, List.mem_filter, decide_eq_true_eq]
  constructor
  · rintro ⟨idx, id', hmem, hne⟩
    exact ⟨hne, idx, id', hmem⟩
  · rintro ⟨hne, idx, id', hmem⟩
    exact ⟨idx, id', hmem, hne⟩

end Tables

structure Spec (A T : Type) where
  table : Table A
  /-- The addresses that have been given out. -/
  used : A → Prop
  status : T → Status A
  owned : T → A → Nat

section Object

variable {A T : Type} [DecidableEq A]

def Spec.total [Fintype T] (spec : Spec A T) (fp : A) : Nat :=
  ∑ t, (spec.owned t fp + refs (spec.status t) fp)

def Spec.Effect [Fintype T] (spec : Spec A T) : Call A → Phase A → Prop
  | .fooAlloc _, .finished none => True
  | .fooAlloc _, .finished (some fp) => ¬ spec.used fp
  -- There is memory, but the mutex cannot be initialised.
  | .fooAlloc _, .freeing fp none => ¬ spec.used fp
  | .fooHold _, .finished none => True
  | .fooFind id, .finished value => value = lookup spec.table id
  | .fooRele fp, .finished none => spec.total fp ≠ 1
  | .fooRele fp, .freeing ptr none => ptr = fp ∧ spec.total fp = 1
  | _, _ => False

theorem Spec.Effect.unique [Fintype T] {spec : Spec A T} {call : Call A} {phase phase' : Phase A}
    (heffect : spec.Effect call phase) (heffect' : spec.Effect call phase')
    (halloc : ∀ id, call ≠ .fooAlloc id) : phase = phase' := by
  unfold Spec.Effect at heffect heffect'
  cases call with
  | fooAlloc id => exact absurd rfl (halloc id)
  | fooHold fp =>
    split at heffect <;> first | contradiction | skip
    split at heffect' <;> first | contradiction | rfl
  | fooFind id =>
    split at heffect <;> first | contradiction | skip
    split at heffect' <;> first | contradiction | skip
    simp_all
  | fooRele fp =>
    split at heffect <;> first | contradiction | skip
    all_goals split at heffect' <;> first | contradiction | simp_all

variable [DecidableEq T]

def Spec.withStatus (spec : Spec A T) (t : T) (status : Status A) : Spec A T :=
  { spec with status := Function.update spec.status t status }

/-- The state after a call of a thread has taken effect. -/
def Spec.after (spec : Spec A T) (t : T) (call : Call A) (phase : Phase A) : Spec A T :=
  match call, phase with
  | .fooAlloc id, .finished (some fp) =>
    { spec with
      table := insert spec.table fp id
      used := Function.update spec.used fp True }.withStatus t (some (call, phase))
  | .fooAlloc _, .freeing fp _ =>
    { spec with used := Function.update spec.used fp True }.withStatus t (some (call, phase))
  | .fooRele fp, .freeing _ _ =>
    { spec with table := remove spec.table fp }.withStatus t (some (call, phase))
  | _, _ => spec.withStatus t (some (call, phase))

def Commit [Fintype T] (t : T) (spec spec' : Spec A T) : Prop :=
  ∃ call phase, spec.status t = some (call, .pending) ∧ spec.Effect call phase ∧
    spec' = spec.after t call phase

def Spec.initial (A T : Type) : Spec A T where
  table _ := []
  used _ := False
  status _ := none
  owned _ _ := 0

/-- A run of the object, with what is seen of it. -/
inductive SpecTrace [Fintype T] : List (Event A T) → Spec A T → Prop where
  | start : SpecTrace [] (.initial A T)
  | invoke {trace : List (Event A T)} {spec : Spec A T} {t : T} {call : Call A}
      (htrace : SpecTrace trace spec) (hidle : spec.status t = none)
      (hmay : mayCall (spec.owned t) call) :
      SpecTrace (trace ++ [.invoke t call])
        ({ spec with
          owned := Function.update spec.owned t fun fp =>
            spec.owned t fp - one call.takes fp }.withStatus t (some (call, .pending)))
  | commit {trace : List (Event A T)} {spec spec' : Spec A T} {t : T}
      (htrace : SpecTrace trace spec) (hcommit : Commit t spec spec') : SpecTrace trace spec'
  | free {trace : List (Event A T)} {spec : Spec A T} {t : T} {call : Call A} {fp : A}
      {value : Option A} (htrace : SpecTrace trace spec)
      (hstatus : spec.status t = some (call, .freeing fp value)) :
      SpecTrace (trace ++ [.free t fp]) (spec.withStatus t (some (call, .finished value)))
  | result {trace : List (Event A T)} {spec : Spec A T} {t : T} {call : Call A} {value : Option A}
      (htrace : SpecTrace trace spec) (hstatus : spec.status t = some (call, .finished value)) :
      SpecTrace (trace ++ [.result t value])
        ({ spec with
          owned := Function.update spec.owned t fun fp =>
            spec.owned t fp + one (call.gains value) fp }.withStatus t none)

variable {t : T} {spec spec' spec'' : Spec A T}

theorem Spec.after_status (spec : Spec A T) (t : T) (call : Call A) (phase : Phase A) :
    (spec.after t call phase).status t = some (call, phase) := by
  unfold Spec.after
  split <;> exact update_self ..

variable [Fintype T]

variable (hcommit : Commit t spec spec')
include hcommit

theorem Commit.not_pending (call : Call A) : spec'.status t ≠ some (call, .pending) := by
  obtain ⟨call', phase, _, heffect, rfl⟩ := hcommit
  rw [Spec.after_status]
  intro heq
  cases heq
  cases call <;> exact heffect

theorem Commit.pending : ∃ call, spec.status t = some (call, .pending) := by
  obtain ⟨call, _, hstatus, _⟩ := hcommit
  exact ⟨call, hstatus⟩

/-- What a call does is determined by the state, and for `foo_alloc` by its phase. -/
theorem Commit.unique (hcommit' : Commit t spec spec'')
    (halloc : ∀ id phase, spec'.status t = some (.fooAlloc id, phase) →
      spec''.status t = some (.fooAlloc id, phase)) : spec' = spec'' := by
  obtain ⟨call, phase, hstatus, heffect, rfl⟩ := hcommit
  obtain ⟨call', phase', hstatus', heffect', rfl⟩ := hcommit'
  cases hstatus.symm.trans hstatus'
  rw [Spec.after_status, Spec.after_status] at halloc
  by_cases hcall : ∃ id, call = .fooAlloc id
  · obtain ⟨id, rfl⟩ := hcall
    cases halloc id phase rfl
    rfl
  · rw [heffect.unique heffect' fun id heq => hcall ⟨id, heq⟩]

end Object

end ApueFormal.Threads
