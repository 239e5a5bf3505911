import ApueFormal.Program.Resource

/-!
# Proof rules for parties that share locks

One rule for each way in which an operation can use the locks.
-/

namespace ApueFormal.Program

def Local.view {Cell Val Lock Reply : Type} (here : Local Cell Val Lock Reply) : Heap Cell Val :=
  here.own ∪ here.peek

def Local.owning {Cell Val Lock Reply : Type} (here : Local Cell Val Lock Reply)
    (own : Heap Cell Val) : Local Cell Val Lock Reply :=
  { here with own := own }

section Views

variable {Cell Val Lock Reply : Type} (here : Local Cell Val Lock Reply)

@[simp] theorem Local.owning_own (own : Heap Cell Val) : (here.owning own).own = own := rfl

@[simp] theorem Local.owning_owning (own own' : Heap Cell Val) :
    (here.owning own).owning own' = here.owning own' := rfl

theorem Local.view_owning {own : Heap Cell Val} {cell : Cell} {value : Val}
    (hown : own cell = some value) : (here.owning own).view cell = some value :=
  Heap.sub_union_left own here.peek cell value hown

/-- The party with other cells, after it has taken other locks. -/
def Local.having {Cell Val Lock Reply : Type} (here : Local Cell Val Lock Reply)
    (own : Heap Cell Val) (taken : List Lock) : Local Cell Val Lock Reply :=
  { here with own := own, taken := taken }

variable (own : Heap Cell Val) (taken : List Lock)

@[simp] theorem Local.having_own :
    (here.having own taken).own = own := rfl

@[simp] theorem Local.having_taken :
    (here.having own taken).taken = taken := rfl

end Views

/-- The party after it has taken a lock for writing. -/
def Local.take {Cell Val Lock Reply : Type} (here : Local Cell Val Lock Reply)
    (lock : Lock) (part : Heap Cell Val) : Local Cell Val Lock Reply :=
  { here with
    own := here.own ∪ part
    held := lock :: here.held
    taken := lock :: here.taken }

/-- The party after it has taken a lock for reading. -/
def Local.look {Cell Val Lock Reply : Type} (here : Local Cell Val Lock Reply)
    (lock : Lock) (part : Heap Cell Val) : Local Cell Val Lock Reply :=
  { here with
    peek := part
    reading := some lock
    taken := lock :: here.taken }

namespace Protocol

variable {sig : Signature} {σ Cell Val Lock Actor Reply Fault α : Type}
variable {protocol : Protocol sig σ Cell Val Lock Actor Reply}
variable {actor : Actor} {doom : Fault → Prop}
variable {post : Except Fault α → Local Cell Val Lock Reply → Prop}
variable {op : sig.Op} {next : sig.Answer op → Prog sig Fault α}
variable {here : Local Cell Val Lock Reply} {lock : Lock}

open Heap

theorem view_sub {frame : Heap Cell Val} (hdisj : Disjoint here.own frame)
    (hpeek : Sub here.peek frame) : Sub here.view (here.own ∪ frame) := by
  intro cell value hcell
  rw [Local.view, union_apply] at hcell
  cases hown : here.own cell with
  | none =>
    rw [hown, Option.none_or] at hcell
    exact sub_union_right hdisj cell value (hpeek cell value hcell)
  | some old =>
    rw [hown, Option.some_or] at hcell
    rw [union_apply, hown, Option.some_or]
    exact hcell

variable {answer : sig.Answer op}

theorem gives_look (huse : protocol.lockUse op = .io) (hreply : here.reply = none)
    (hlook : ∀ state total, Sub here.view total → protocol.rep state total →
      (protocol.exec actor op state).1 = answer ∧
        (protocol.exec actor op state).2 = state) :
    (protocol.theory actor).Gives op here answer here := by
  refine ⟨hreply, ?_⟩
  rw [huse]
  intro frame state hdisj hpeek hrep
  obtain ⟨hanswer, hsame⟩ := hlook state _ (view_sub hdisj hpeek) hrep
  refine .inr ⟨here.own, ⟨hanswer, rfl⟩, hdisj, ?_⟩
  rw [hsame]
  exact hrep

theorem gives_set [DecidableEq Cell] (huse : protocol.lockUse op = .io) (hreply : here.reply = none)
    {cell : Cell} {old new : Val} (hown : here.own cell = some old)
    (hset : ∀ state total, Sub here.own total → protocol.rep state total →
      (protocol.exec actor op state).1 = answer ∧
        protocol.rep (protocol.exec actor op state).2 (total.set cell new)) :
    (protocol.theory actor).Gives op here answer (here.owning (here.own.set cell new)) := by
  refine ⟨hreply, ?_⟩
  rw [huse]
  intro frame state hdisj _ hrep
  obtain ⟨hanswer, hnew⟩ := hset state _ (sub_union_left _ _) hrep
  refine .inr ⟨here.own.set cell new, ⟨hanswer, rfl⟩,
    hdisj.set (hdisj.right_none hown) new, ?_⟩
  rw [set_union]
  exact hnew

theorem wp_call (hmay : (protocol.theory actor).may op here
      (fun answer => Wp (protocol.theory actor) doom post (next answer)) fun _ => False) :
    Wp (protocol.theory actor) doom post (.call op next) here :=
  .call _ _ hmay (fun _ _ hwp => hwp) fun _ impossible => impossible.elim

theorem wp_io (huse : protocol.lockUse op = .io) (hreply : here.reply = none)
    (hstep : ∀ frame state, Disjoint here.own frame → Sub here.peek frame →
      protocol.rep state (here.own ∪ frame) → ∃ own, Disjoint own frame ∧
        protocol.rep (protocol.exec actor op state).2 (own ∪ frame) ∧
        Wp (protocol.theory actor) doom post
          (next (protocol.exec actor op state).1) (here.owning own)) :
    Wp (protocol.theory actor) doom post (.call op next) here := by
  refine wp_call ⟨hreply, ?_⟩
  rw [huse]
  intro frame state hdisj hpeek hrep
  obtain ⟨own, hown, hafter, hwp⟩ := hstep frame state hdisj hpeek hrep
  exact .inr ⟨own, hwp, hown, hafter⟩

theorem wp_write (huse : protocol.lockUse op = .write lock) (hreply : here.reply = none)
    (hreading : here.reading = none) (hheld : lock ∉ here.held)
    (hnext : ∀ answer part, Disjoint here.own part → protocol.inv lock part →
      (lock ∉ here.taken → protocol.assume actor lock part) →
      Wp (protocol.theory actor) doom post (next answer) (here.take lock part)) :
    Wp (protocol.theory actor) doom post (.call op next) here := by
  refine wp_call ⟨hreply, ?_⟩
  rw [huse]
  exact ⟨hreading, hheld, hnext⟩

theorem wp_read (huse : protocol.lockUse op = .read lock) (hreply : here.reply = none)
    (hreading : here.reading = none) (hheld : lock ∉ here.held)
    (hnext : ∀ answer part, Disjoint here.own part → protocol.inv lock part →
      (lock ∉ here.taken → protocol.assume actor lock part) →
      Wp (protocol.theory actor) doom post (next answer) (here.look lock part)) :
    Wp (protocol.theory actor) doom post (.call op next) here := by
  refine wp_call ⟨hreply, ?_⟩
  rw [huse]
  exact ⟨hreading, hheld, hnext⟩

variable (huse : protocol.lockUse op = .release lock)
include huse

theorem wp_release (hreply : here.reply = none) (hreading : here.reading = none) {rest : List Lock}
    (hheld : here.held = lock :: rest) {kept part : Heap Cell Val} (hown : here.own = kept ∪ part)
    (hdisj : Disjoint kept part) (hinv : protocol.inv lock part)
    (hnext : ∀ answer, Wp (protocol.theory actor) doom post (next answer)
      { here with own := kept, held := rest }) :
    Wp (protocol.theory actor) doom post (.call op next) here := by
  refine wp_call ⟨hreply, ?_⟩
  rw [huse]
  exact .inl ⟨rest, kept, part, hreading, hheld, hown, hdisj, .inl ⟨hinv, hnext⟩⟩

theorem wp_release_reply (hreply : here.reply = none) (hreading : here.reading = none)
    {rest : List Lock} (hheld : here.held = lock :: rest) {kept part new : Heap Cell Val}
    (hown : here.own = kept ∪ part) (hdisj : Disjoint kept part) {reply : Reply}
    (hinv : protocol.inv lock new)
    (hfinish : ∀ frame state, Disjoint here.own frame →
      protocol.rep state (here.own ∪ frame) → Disjoint kept new ∧ Disjoint (kept ∪ new) frame ∧
        protocol.rep (protocol.finish actor reply state) (kept ∪ new ∪ frame))
    (hnext : ∀ answer, Wp (protocol.theory actor) doom post (next answer)
      { here with own := kept, held := rest, reply := some reply }) :
    Wp (protocol.theory actor) doom post (.call op next) here := by
  refine wp_call ⟨hreply, ?_⟩
  rw [huse]
  exact .inl ⟨rest, kept, part, hreading, hheld, hown, hdisj,
    .inr ⟨new, reply, hinv, hfinish, hnext⟩⟩

theorem wp_endRead_reply (hreply : here.reply = none) (hreading : here.reading = some lock)
    {reply : Reply}
    (hfinish : ∀ frame state, Disjoint here.own frame → Sub here.peek frame →
      protocol.rep state (here.own ∪ frame) →
      protocol.rep (protocol.finish actor reply state) (here.own ∪ frame))
    (hnext : ∀ answer, Wp (protocol.theory actor) doom post (next answer)
      { here with peek := empty, reading := none, reply := some reply }) :
    Wp (protocol.theory actor) doom post (.call op next) here := by
  refine wp_call ⟨hreply, ?_⟩
  rw [huse]
  exact .inr ⟨hreading, .inr ⟨reply, hfinish, hnext⟩⟩

end Protocol

end ApueFormal.Program
