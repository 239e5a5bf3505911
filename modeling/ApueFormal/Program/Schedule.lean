import ApueFormal.Program.System
import Mathlib.Algebra.BigOperators.Fin

/-!
# Interleavings

The events of a schedule happen one after the other.  Each makes a step where one is
possible, so that a schedule is a run in the monad of partial functions.
-/

namespace ApueFormal.Program

open Function

universe u v

section Schedule

variable {σ : Type u} {ε : Type v} {next : σ → ε → Option σ} {inv : σ → Prop}
  {events : List ε} {state after : σ}

theorem schedule_cons {event : ε} (hrun : (event :: events).foldlM next state = some after) :
    ∃ middle, next state event = some middle ∧ events.foldlM next middle = some after :=
  Option.bind_eq_some_iff.mp hrun

theorem schedule_invariant
    (hstep : ∀ event ∈ events, ∀ state after, inv state → next state event = some after → inv after)
    (hinv : inv state) (hrun : events.foldlM next state = some after) : inv after := by
  induction events generalizing state with
  | nil =>
    cases hrun
    exact hinv
  | cons event events ih =>
    obtain ⟨hevent, hevents⟩ := List.forall_mem_cons.mp hstep
    obtain ⟨middle, hnext, hrest⟩ := schedule_cons hrun
    exact ih hevents (hevent state middle hinv hnext) hrest

/-- A schedule of steps of a system is a run of it. -/
theorem reaches_schedule {init : σ → Prop} {step : σ → σ → Prop}
    (hstep : ∀ state event after, next state event = some after → step state after)
    (hreaches : Reaches init step state) (hrun : events.foldlM next state = some after) :
    Reaches init step after :=
  schedule_invariant (fun event _ before middle hbefore hnext =>
    .step hbefore (hstep before event middle hnext)) hreaches hrun

/-- A measure that every event makes smaller bounds the schedule. -/
theorem schedule_length_le (measure : σ → Nat)
    (hstep : ∀ event ∈ events, ∀ state after, inv state → next state event = some after →
      inv after ∧ measure after < measure state)
    (hinv : inv state) (hrun : events.foldlM next state = some after) :
    events.length + measure after ≤ measure state := by
  induction events generalizing state with
  | nil =>
    cases hrun
    exact Nat.le_of_eq (Nat.zero_add _)
  | cons event events ih =>
    obtain ⟨hevent, hevents⟩ := List.forall_mem_cons.mp hstep
    obtain ⟨middle, hnext, hrest⟩ := schedule_cons hrun
    obtain ⟨hmiddle, hless⟩ := hevent state middle hinv hnext
    have hle := ih hevents hmiddle hrest
    rw [List.length_cons]
    omega

/-- When the good events make a measure smaller, some of them lead to where none is possible. -/
theorem exists_exhausted {good : ε → Prop} (measure : σ → Nat)
    (hstep : ∀ event, good event → ∀ state after, inv state → next state event = some after →
      inv after ∧ measure after < measure state) (hinv : inv state) :
    ∃ (events : List ε) (after : σ), (∀ event ∈ events, good event) ∧
      events.foldlM next state = some after ∧ ∀ event, good event → next after event = none := by
  induction hsize : measure state using Nat.strong_induction_on generalizing state with
  | _ size ih =>
    by_cases hend : ∀ event, good event → next state event = none
    · exact ⟨[], state, List.forall_mem_nil _, rfl, hend⟩
    · push Not at hend
      obtain ⟨event, hgood, hsome⟩ := hend
      obtain ⟨middle, hnext⟩ := Option.ne_none_iff_exists'.mp hsome
      obtain ⟨hmiddle, hless⟩ := hstep event hgood state middle hinv hnext
      obtain ⟨events, after, hall, hrun, hend⟩ := ih _ (hsize ▸ hless) hmiddle rfl
      refine ⟨event :: events, after, List.forall_mem_cons.mpr ⟨hgood, hall⟩, ?_, hend⟩
      rw [List.foldlM_cons, hnext]
      exact hrun

end Schedule

theorem update_related {ι : Type u} {α β : Type v} [DecidableEq ι] {rel : α → β → Prop}
    {left : ι → α} {right : ι → β} (hrel : ∀ j, rel (left j) (right j)) (i : ι) {a : α} {b : β}
    (hab : rel a b) (j : ι) :
    rel (update left i a j) (update right i b j) := by
  by_cases hj : j = i
  · subst hj
    rw [update_self, update_self]
    exact hab
  · rw [update_of_ne hj, update_of_ne hj]
    exact hrel j

theorem sum_update {ι : Type u} {α : Type v} [Fintype ι] [DecidableEq ι] (weight : α → Nat)
    (family : ι → α) (i : ι) (a : α) :
    ∑ j, weight (update family i a j) + weight (family i) = ∑ j, weight (family j) + weight a := by
  have hfun : (fun j => weight (update family i a j)) =
      update (fun j => weight (family j)) i (weight a) :=
    Function.comp_update weight family i a
  have hsplit := Finset.add_sum_erase Finset.univ (fun j => weight (family j)) (Finset.mem_univ i)
  rw [hfun, Finset.sum_update_of_mem (Finset.mem_univ i), Finset.sdiff_singleton_eq_erase]
  omega

section Scan

variable {n : Nat} {ready : Fin n → Prop} [DecidablePred ready] {rest i : Nat}

/-- A bound of the steps of a scan over several places, which goes on at the first place
that is ready.  A scan that finds none is followed by some more steps. -/
def scanCost (ready : Fin n → Prop) [DecidablePred ready] (rest i : Nat) : Nat :=
  if ∃ j : Fin n, i ≤ j ∧ ready j then n - i else rest + (n - i)

theorem scanCost_le : scanCost ready rest i ≤ rest + (n - i) := by
  unfold scanCost
  split
  · exact Nat.le_add_left _ _
  · exact Nat.le_refl _

theorem scanCost_ready {j : Fin n} (hle : i ≤ j) (hready : ready j) :
    scanCost ready rest i = n - i := if_pos ⟨j, hle, hready⟩

theorem scanCost_end (hge : n ≤ i) : scanCost ready rest i = rest := by
  unfold scanCost
  rw [if_neg]
  · omega
  · rintro ⟨j, hle, _⟩
    omega

theorem scanCost_skip (hlt : i < n) (hready : ¬ready ⟨i, hlt⟩) :
    scanCost ready rest (i + 1) < scanCost ready rest i := by
  have hiff : (∃ j : Fin n, i + 1 ≤ j ∧ ready j) ↔ ∃ j : Fin n, i ≤ j ∧ ready j := by
    constructor
    · rintro ⟨j, hle, hj⟩
      exact ⟨j, Nat.le_of_succ_le hle, hj⟩
    · rintro ⟨j, hle, hj⟩
      refine ⟨j, Nat.lt_of_le_of_ne hle ?_, hj⟩
      rintro rfl
      exact hready hj
  simp only [scanCost, hiff]
  split
  · omega
  · omega

end Scan

end ApueFormal.Program
