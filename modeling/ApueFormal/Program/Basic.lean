import Mathlib.Logic.Basic

/-!
# Sequential programs over atomic operations

A program is a finite tree of atomic operations, early exits and loops.  The
operations are described by a signature: the requests a program can make and
the type of the answer to each request.  Loops are nodes of the tree, so a
program needs no bound on the number of its iterations; only the evaluator
takes fuel.
-/

namespace ApueFormal.Program

/-- The atomic requests of a program and the type of their answers. -/
structure Signature where
  Op : Type
  Answer : Op → Type

/-- Programs that return a value, stop with a fault, perform one operation, or
repeat a body until it yields a final value. -/
inductive Prog (sig : Signature) (Fault : Type) : Type → Type 1 where
  | ret {α : Type} (value : α) : Prog sig Fault α
  | fail {α : Type} (fault : Fault) : Prog sig Fault α
  | call {α : Type} (op : sig.Op) (next : sig.Answer op → Prog sig Fault α) :
      Prog sig Fault α
  | loop {α σ β : Type} (body : σ → Prog sig Fault (σ ⊕ β)) (start : σ)
      (next : β → Prog sig Fault α) : Prog sig Fault α

namespace Prog

variable {sig : Signature} {Fault : Type} {α β γ σ : Type}

/-- Sequential composition; a fault discards the continuation. -/
def bind : Prog sig Fault α → (α → Prog sig Fault β) → Prog sig Fault β
  | .ret value, next => next value
  | .fail fault, _ => .fail fault
  | .call op rest, next => .call op fun answer => (rest answer).bind next
  | .loop body start rest, next =>
    .loop body start fun value => (rest value).bind next

instance : Monad (Prog sig Fault) where
  pure := .ret
  bind := .bind

@[simp] theorem pure_eq (value : α) : (pure value : Prog sig Fault α) = .ret value := rfl

@[simp] theorem bind_eq (first : Prog sig Fault α)
    (next : α → Prog sig Fault β) : first >>= next = first.bind next := rfl

@[simp] theorem ret_bind (value : α) (next : α → Prog sig Fault β) :
    (Prog.ret value).bind next = next value := rfl

@[simp] theorem fail_bind (fault : Fault) (next : α → Prog sig Fault β) :
    (Prog.fail fault).bind next = .fail fault := rfl

@[simp] theorem call_bind (op : sig.Op)
    (rest : sig.Answer op → Prog sig Fault α) (next : α → Prog sig Fault β) :
    (Prog.call op rest).bind next = .call op fun answer => (rest answer).bind next := rfl

@[simp] theorem loop_bind (body : σ → Prog sig Fault (σ ⊕ γ)) (start : σ)
    (rest : γ → Prog sig Fault α) (next : α → Prog sig Fault β) :
    (Prog.loop body start rest).bind next =
      .loop body start fun value => (rest value).bind next := rfl

theorem bind_assoc (first : Prog sig Fault α)
    (second : α → Prog sig Fault β) (third : β → Prog sig Fault γ) :
    (first.bind second).bind third = first.bind fun value => (second value).bind third := by
  induction first with
  | ret value => rfl
  | fail fault => rfl
  | call op rest ih =>
    simp only [call_bind]
    congr 1
    funext answer
    exact ih answer second
  | loop body start rest _ ih =>
    simp only [loop_bind]
    congr 1
    funext value
    exact ih value second

def op (request : sig.Op) : Prog sig Fault (sig.Answer request) :=
  .call request .ret

/-- Repeat `body` from `start` until it yields a final value. -/
def iterate (body : σ → Prog sig Fault (σ ⊕ β)) (start : σ) : Prog sig Fault β :=
  .loop body start .ret

def resume (body : σ → Prog sig Fault (σ ⊕ β)) (next : β → Prog sig Fault α) :
    σ ⊕ β → Prog sig Fault α
  | .inl again => .loop body again next
  | .inr value => next value

/-- One iteration of a loop, followed by the rest of the loop. -/
def unroll (body : σ → Prog sig Fault (σ ⊕ β)) (start : σ)
    (next : β → Prog sig Fault α) : Prog sig Fault α :=
  (body start).bind (resume body next)

theorem unroll_bind (body : σ → Prog sig Fault (σ ⊕ γ)) (start : σ)
    (rest : γ → Prog sig Fault α) (next : α → Prog sig Fault β) :
    (unroll body start rest).bind next = unroll body start fun value => (rest value).bind next := by
  unfold unroll
  rw [bind_assoc]
  congr 1
  funext outcome
  cases outcome <;> rfl

end Prog

/-! ## Evaluation on one machine -/

/-- A machine answers every request and moves to a new state. -/
abbrev Machine (sig : Signature) (σ : Type) :=
  (op : sig.Op) → σ → sig.Answer op × σ

section Evaluation

variable {sig : Signature} {Fault α β σ : Type} (machine : Machine sig σ)

/-- Evaluate a program; one unit of fuel is spent on each operation and on
each unrolling of a loop. -/
def run : Nat → Prog sig Fault α → σ → Option (Except Fault α × σ)
  | _, .ret value, state => some (.ok value, state)
  | _, .fail fault, state => some (.error fault, state)
  | 0, .call _ _, _ => none
  | 0, .loop _ _ _, _ => none
  | fuel + 1, .call op next, state =>
    run fuel (next (machine op state).1) (machine op state).2
  | fuel + 1, .loop body start next, state =>
    run fuel (Prog.unroll body start next) state

/-- The program stops on the machine with this outcome and final state. -/
def Runs (program : Prog sig Fault α) (state : σ) (outcome : Except Fault α) (final : σ) : Prop :=
  ∃ fuel, run machine fuel program state = some (outcome, final)

/-- The state after so many steps of an evaluation, or at its end. -/
def advance : Nat → Prog sig Fault α → σ → σ
  | 0, _, state => state
  | _ + 1, .ret _, state => state
  | _ + 1, .fail _, state => state
  | steps + 1, .call op next, state =>
    advance steps (next (machine op state).1) (machine op state).2
  | steps + 1, .loop body start next, state =>
    advance steps (Prog.unroll body start next) state

variable {machine}

@[simp] theorem run_ret (fuel : Nat) (value : α) (state : σ) :
    run machine fuel (.ret value : Prog sig Fault α) state = some (.ok value, state) := by
  cases fuel <;> rfl

@[simp] theorem run_fail (fuel : Nat) (fault : Fault) (state : σ) :
    run machine fuel (.fail fault : Prog sig Fault α) state = some (.error fault, state) := by
  cases fuel <;> rfl

@[simp] theorem run_call (fuel : Nat) (op : sig.Op)
    (next : sig.Answer op → Prog sig Fault α) (state : σ) :
    run machine (fuel + 1) (.call op next) state =
      run machine fuel (next (machine op state).1) (machine op state).2 := rfl

@[simp] theorem run_loop {τ : Type} (fuel : Nat) (body : τ → Prog sig Fault (τ ⊕ β)) (start : τ)
    (next : β → Prog sig Fault α) (state : σ) :
    run machine (fuel + 1) (.loop body start next) state =
      run machine fuel (Prog.unroll body start next) state := rfl

variable {program : Prog sig Fault α} {state : σ} {result : Except Fault α × σ}

/-- More fuel never changes an outcome. -/
theorem run_succ {fuel : Nat} (hrun : run machine fuel program state = some result) :
    run machine (fuel + 1) program state = some result := by
  induction fuel generalizing program state with
  | zero =>
    cases program with
    | ret value | fail fault => simpa using hrun
    | call op next | loop body start next => cases hrun
  | succ fuel ih =>
    cases program with
    | ret value | fail fault => simpa using hrun
    | call op next | loop body start next => exact ih hrun

theorem run_le {fuel more : Nat} (hle : fuel ≤ more)
    (hrun : run machine fuel program state = some result) :
    run machine more program state = some result := by
  induction hle with
  | refl => exact hrun
  | step _ ih => exact run_succ ih

namespace Runs

/-- The machine is deterministic: all evaluations that stop agree. -/
theorem unique {first second : Except Fault α} {firstState secondState : σ}
    (hfirst : Runs machine program state first firstState)
    (hsecond : Runs machine program state second secondState) :
    first = second ∧ firstState = secondState := by
  obtain ⟨fuel, hfuel⟩ := hfirst
  obtain ⟨more, hmore⟩ := hsecond
  have hone := run_le (Nat.le_max_left fuel more) hfuel
  have htwo := run_le (Nat.le_max_right fuel more) hmore
  rw [hone] at htwo
  exact Prod.mk.inj (Option.some.inj htwo)

theorem ret (value : α) (state : σ) :
    Runs machine (.ret value : Prog sig Fault α) state (.ok value) state :=
  ⟨0, rfl⟩

theorem fail (fault : Fault) (state : σ) :
    Runs machine (.fail fault : Prog sig Fault α) state (.error fault) state :=
  ⟨0, rfl⟩

theorem call {op : sig.Op} {next : sig.Answer op → Prog sig Fault α} {state final : σ}
    {outcome : Except Fault α}
    (hnext : Runs machine (next (machine op state).1) (machine op state).2 outcome final) :
    Runs machine (.call op next) state outcome final := by
  obtain ⟨fuel, hfuel⟩ := hnext
  exact ⟨fuel + 1, hfuel⟩

theorem loop {τ : Type} {body : τ → Prog sig Fault (τ ⊕ β)} {start : τ}
    {next : β → Prog sig Fault α} {state final : σ} {outcome : Except Fault α}
    (hnext : Runs machine (Prog.unroll body start next) state outcome final) :
    Runs machine (.loop body start next) state outcome final := by
  obtain ⟨fuel, hfuel⟩ := hnext
  exact ⟨fuel + 1, hfuel⟩

/-- Induction along an evaluation, from its end to its start. -/
theorem induct {motive : Prog sig Fault α → σ → Prop} {outcome : Except Fault α} {final : σ}
    (hret : ∀ value, outcome = .ok value → motive (.ret value) final)
    (hfail : ∀ fault, outcome = .error fault → motive (.fail fault) final)
    (hcall : ∀ op next state, motive (next (machine op state).1) (machine op state).2 →
      motive (.call op next) state)
    (hloop : ∀ (σ' τ : Type) (body : σ' → Prog sig Fault (σ' ⊕ τ)) start next state,
      motive (Prog.unroll body start next) state → motive (.loop body start next) state)
    (hruns : Runs machine program state outcome final) : motive program state := by
  obtain ⟨fuel, hfuel⟩ := hruns
  induction fuel generalizing program state with
  | zero =>
    cases program with
    | ret value =>
      cases hfuel
      exact hret value rfl
    | fail fault =>
      cases hfuel
      exact hfail fault rfl
    | call op next => cases hfuel
    | loop body start next => cases hfuel
  | succ fuel ih =>
    cases program with
    | ret value =>
      cases hfuel
      exact hret value rfl
    | fail fault =>
      cases hfuel
      exact hfail fault rfl
    | call op next => exact hcall op next state (ih hfuel)
    | loop body start next => exact hloop _ _ body start next state (ih hfuel)

theorem invariant (inv : σ → Prop) (hstep : ∀ op state, inv state → inv (machine op state).2)
    {program : Prog sig Fault α} {state final : σ} {outcome : Except Fault α}
    (hruns : Runs machine program state outcome final) (hinv : inv state) :
    inv final := by
  refine hruns.induct (motive := fun _ state => inv state → inv final) ?_ ?_ ?_ ?_ hinv
  · exact fun _ _ hfinal => hfinal
  · exact fun _ _ hfinal => hfinal
  · exact fun op _ state ih hstate => ih (hstep op state hstate)
  · exact fun _ _ _ _ _ _ ih => ih

end Runs

end Evaluation

end ApueFormal.Program
