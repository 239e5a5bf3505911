import ApueFormal.Program.Basic

/-!
# Total correctness over an abstract theory of operations

A theory says, for every operation and every local state, which answers and
successor states the environment can produce.  `Wp` is the least predicate
that follows a program through every such answer to a `ret` or a `fail`, so a
proof of `Wp` is also a proof that the program stops.
-/

namespace ApueFormal.Program

/-- `may op state accepted hopeless` says that `op` can be performed in the
local `state`, and that each possible answer either reaches a state in
`accepted` or belongs to `hopeless`.  Nothing is promised after a hopeless
answer, so a program may only give up on it.  A loop can be entered only in a
`live` state. -/
structure Theory (sig : Signature) (S : Type) where
  may : (op : sig.Op) → S → (sig.Answer op → S → Prop) → (sig.Answer op → Prop) → Prop
  live : S → Prop

section Logic

variable {sig : Signature} {Fault S α β γ : Type}

/-- The program stops from the local state with an outcome in `post`, or gives
up with a fault in `doom` on a hopeless answer. -/
inductive Wp (theory : Theory sig S) (doom : Fault → Prop)
    (post : Except Fault α → S → Prop) : Prog sig Fault α → S → Prop where
  | ret {value : α} {state : S} (hpost : post (.ok value) state) :
      Wp theory doom post (.ret value) state
  | fail {fault : Fault} {state : S} (hpost : post (.error fault) state) :
      Wp theory doom post (.fail fault) state
  | call {op : sig.Op} {next : sig.Answer op → Prog sig Fault α} {state : S}
      (accepted : sig.Answer op → S → Prop) (hopeless : sig.Answer op → Prop)
      (hmay : theory.may op state accepted hopeless)
      (hnext : ∀ answer after, accepted answer after →
        Wp theory doom post (next answer) after)
      (hgive : ∀ answer, hopeless answer →
        ∃ fault, next answer = .fail fault ∧ doom fault) :
      Wp theory doom post (.call op next) state
  | loop {σ τ : Type} {body : σ → Prog sig Fault (σ ⊕ τ)} {start : σ}
      {next : τ → Prog sig Fault α} {state : S} (hlive : theory.live state)
      (hunroll : Wp theory doom post (Prog.unroll body start next) state) :
      Wp theory doom post (.loop body start next) state

variable {theory : Theory sig S} {doom : Fault → Prop} {state : S}
variable {program : Prog sig Fault α} {after : S}

namespace Wp

variable {first : Prog sig Fault α}

/-- Sequential composition: the first program establishes what the second
needs, and its faults already satisfy the final postcondition. -/
theorem bind {middle : Except Fault α → S → Prop} {post : Except Fault β → S → Prop}
    {next : α → Prog sig Fault β} (hfirst : Wp theory doom middle first state)
    (hnext : ∀ value after, middle (.ok value) after → Wp theory doom post (next value) after)
    (hfault : ∀ fault after, middle (.error fault) after → post (.error fault) after) :
    Wp theory doom post (first.bind next) state := by
  induction hfirst with
  | ret hpost => exact hnext _ _ hpost
  | fail hpost => exact .fail (hfault _ _ hpost)
  | call accepted hopeless hmay _ hgive ih =>
    refine .call accepted hopeless hmay ih ?_
    intro answer hhopeless
    obtain ⟨fault, heq, hdoom⟩ := hgive answer hhopeless
    exact ⟨fault, by rw [heq]; rfl, hdoom⟩
  | loop hlive _ ih =>
    refine .loop hlive ?_
    rw [← Prog.unroll_bind]
    exact ih

section Rules

variable {post : Except Fault α → S → Prop}

theorem imp {post' : Except Fault α → S → Prop} (hwp : Wp theory doom post program state)
    (himp : ∀ outcome after, post outcome after → post' outcome after) :
    Wp theory doom post' program state := by
  induction hwp with
  | ret hpost => exact .ret (himp _ _ hpost)
  | fail hpost => exact .fail (himp _ _ hpost)
  | call accepted hopeless hmay _ hgive ih => exact .call accepted hopeless hmay ih hgive
  | loop hlive _ ih => exact .loop hlive ih

variable {condition : Prop} [Decidable condition] {second : Prog sig Fault α}

theorem ifPos (hcondition : condition) (hfirst : Wp theory doom post first state) :
    Wp theory doom post (if condition then first else second) state := by
  rwa [if_pos hcondition]

theorem ifNeg (hcondition : ¬ condition) (hsecond : Wp theory doom post second state) :
    Wp theory doom post (if condition then first else second) state := by
  rwa [if_neg hcondition]

end Rules

/-- The postcondition of the first part of a sequence: a value leads on to the
rest, and a fault ends the whole program. -/
def Follow (theory : Theory sig S) (doom : Fault → Prop)
    (post : Except Fault β → S → Prop) (next : α → Prog sig Fault β) :
    Except Fault α → S → Prop
  | .ok value, after => Wp theory doom post (next value) after
  | .error fault, after => post (.error fault) after

variable {post : Except Fault β → S → Prop} {next : α → Prog sig Fault β}

@[simp] theorem follow_ok {value : α} : Follow theory doom post next (.ok value) after ↔
      Wp theory doom post (next value) after := Iff.rfl

@[simp] theorem follow_error {fault : Fault} :
    Follow theory doom post next (.error fault) after ↔ post (.error fault) after := Iff.rfl

theorem seq (hfirst : Wp theory doom (Follow theory doom post next) first state) :
    Wp theory doom post (first.bind next) state :=
  bind hfirst (fun _ _ hnext => hnext) (fun _ _ hpost => hpost)

theorem iteration {σ τ : Type} {post : Except Fault α → S → Prop}
    {body : σ → Prog sig Fault (σ ⊕ τ)} {start : σ} {next : τ → Prog sig Fault α}
    (hlive : theory.live state)
    (hbody : Wp theory doom (Follow theory doom post (Prog.resume body next)) (body start) state) :
    Wp theory doom post (.loop body start next) state :=
  .loop hlive (seq hbody)

end Wp

/-! ## Operations with a known answer -/

/-- In this local state the operation has exactly one answer and successor. -/
def Theory.Gives (theory : Theory sig S) (op : sig.Op) (state : S)
    (answer : sig.Answer op) (after : S) : Prop :=
  theory.may op state (fun value next => value = answer ∧ next = after) (fun _ => False)

theorem Wp.gives {post : Except Fault α → S → Prop} {op : sig.Op}
    {next : sig.Answer op → Prog sig Fault α} {answer : sig.Answer op}
    (hgives : theory.Gives op state answer after)
    (hnext : Wp theory doom post (next answer) after) :
    Wp theory doom post (.call op next) state := by
  refine .call _ _ hgives ?_ (fun _ impossible => impossible.elim)
  rintro value following ⟨rfl, rfl⟩
  exact hnext

/-! ## The theory of one machine -/

/-- The theory in which the local state is the whole state of a machine. -/
def exactly {σ : Type} (machine : Machine sig σ) : Theory sig σ where
  may op state accepted _ :=
    accepted (machine op state).1 (machine op state).2
  live _ := True

theorem exactly_gives {σ : Type} (machine : Machine sig σ) (op : sig.Op) (state : σ) :
    (exactly machine).Gives op state (machine op state).1 (machine op state).2 :=
  ⟨rfl, rfl⟩

/-- Over the theory of a machine, a specification is a statement about the
evaluation on that machine. -/
theorem Wp.runs {σ : Type} {machine : Machine sig σ} {post : Except Fault α → σ → Prop} {state : σ}
    (hwp : Wp (exactly machine) doom post program state) :
    ∃ outcome final, Runs machine program state outcome final ∧ post outcome final := by
  induction hwp with
  | ret hpost => exact ⟨_, _, .ret _ _, hpost⟩
  | fail hpost => exact ⟨_, _, .fail _ _, hpost⟩
  | call accepted hopeless hmay _ _ ih =>
    obtain ⟨outcome, final, hruns, hpost⟩ := ih _ _ hmay
    exact ⟨outcome, final, .call hruns, hpost⟩
  | loop _ _ ih =>
    obtain ⟨outcome, final, hruns, hpost⟩ := ih
    exact ⟨outcome, final, .loop hruns, hpost⟩

end Logic

end ApueFormal.Program
