import ApueFormal.Program.Basic

/-!
# Programs that keep a discipline

A discipline says which operations a program may perform at a stage, and to
which stage they lead.  Nothing is known of the answers of the operations, and
the program need not stop.
-/

namespace ApueFormal.Program

/-- The stage that an operation leads to, when it is allowed. -/
abbrev Discipline (sig : Signature) (S : Type) := sig.Op → S → Option S

section Discipline

variable {sig : Signature} {Fault S α β : Type}

/-- Whatever the answers are, the program performs only operations that are
allowed, and a value that it returns satisfies the postcondition.  A loop keeps
its stage and a property of its state. -/
inductive Obeys (rule : Discipline sig S) :
    {α : Type} → (α → S → Prop) → Prog sig Fault α → S → Prop where
  | ret {α : Type} {post : α → S → Prop} {value : α} {stage : S}
      (hpost : post value stage) : Obeys rule post (.ret value) stage
  | fail {α : Type} {post : α → S → Prop} {fault : Fault} {stage : S} :
      Obeys rule post (.fail fault) stage
  | call {α : Type} {post : α → S → Prop} {op : sig.Op}
      {next : sig.Answer op → Prog sig Fault α} {stage stage' : S}
      (hrule : rule op stage = some stage')
      (hnext : ∀ answer, Obeys rule post (next answer) stage') :
      Obeys rule post (.call op next) stage
  | loop {α σ τ : Type} {post : α → S → Prop} {body : σ → Prog sig Fault (σ ⊕ τ)}
      {start : σ} {next : τ → Prog sig Fault α} {stage : S} (inv : σ ⊕ τ → Prop)
      (hstart : inv (.inl start))
      (hbody : ∀ state, inv (.inl state) →
        Obeys rule (fun result after => inv result ∧ after = stage) (body state) stage)
      (hnext : ∀ value, inv (.inr value) → Obeys rule post (next value) stage) :
      Obeys rule post (.loop body start next) stage

namespace Obeys

variable {rule : Discipline sig S}

theorem bind {middle : α → S → Prop} {post : β → S → Prop} {first : Prog sig Fault α}
    {next : α → Prog sig Fault β} {stage : S} (hfirst : Obeys rule middle first stage)
    (hnext : ∀ value after, middle value after → Obeys rule post (next value) after) :
    Obeys rule post (first.bind next) stage := by
  induction hfirst with
  | ret hpost => exact hnext _ _ hpost
  | fail => exact .fail
  | call hrule _ ih => exact .call hrule fun answer => ih answer hnext
  | loop inv hstart hbody _ _ ih =>
    exact .loop inv hstart hbody fun value hvalue => ih value hvalue hnext

variable {post : α → S → Prop} {stage : S}

theorem mono {weaker : α → S → Prop} {program : Prog sig Fault α}
    (hobeys : Obeys rule post program stage)
    (hweaker : ∀ value after, post value after → weaker value after) :
    Obeys rule weaker program stage := by
  induction hobeys with
  | ret hpost => exact .ret (hweaker _ _ hpost)
  | fail => exact .fail
  | call hrule _ ih => exact .call hrule fun answer => ih answer hweaker
  | loop inv hstart hbody _ _ ih =>
    exact .loop inv hstart hbody fun value hvalue => ih value hvalue hweaker

theorem of_call {op : sig.Op} {next : sig.Answer op → Prog sig Fault α}
    (hobeys : Obeys rule post (.call op next) stage) :
    ∃ stage', rule op stage = some stage' ∧ ∀ answer, Obeys rule post (next answer) stage' := by
  cases hobeys with
  | call hrule hnext => exact ⟨_, hrule, hnext⟩

theorem of_ret {value : α} (hobeys : Obeys rule post (.ret value : Prog sig Fault α) stage) :
    post value stage := by
  cases hobeys with
  | ret hpost => exact hpost

theorem of_loop {σ τ : Type} {body : σ → Prog sig Fault (σ ⊕ τ)} {start : σ}
    {next : τ → Prog sig Fault α} (hobeys : Obeys rule post (.loop body start next) stage) :
    Obeys rule post (Prog.unroll body start next) stage := by
  cases hobeys with
  | loop inv hstart hbody hnext =>
    apply (hbody start hstart).bind
    rintro (again | value) _ ⟨hresult, rfl⟩
    · exact .loop inv hresult hbody hnext
    · exact hnext value hresult

end Obeys

end Discipline

end ApueFormal.Program
