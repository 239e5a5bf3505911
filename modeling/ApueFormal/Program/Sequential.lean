import ApueFormal.Program.Resource

/-!
# One party alone

When a single party owns everything outside the locks, a proof in its theory
describes the evaluation of its program on the machine of the protocol.
-/

namespace ApueFormal.Program

section Projection

variable {sig : Signature} {Fault α σ τ : Type}

theorem Runs.map {machine : Machine sig σ} {image : Machine sig τ} (project : σ → τ)
    (hanswer : ∀ op state, (image op (project state)).1 = (machine op state).1)
    (hstate : ∀ op state, (image op (project state)).2 = project (machine op state).2)
    {program : Prog sig Fault α} {state final : σ} {outcome : Except Fault α}
    (hruns : Runs machine program state outcome final) :
    Runs image program (project state) outcome (project final) := by
  refine hruns.induct (motive := fun program state =>
    Runs image program (project state) outcome (project final)) ?_ ?_ ?_ ?_
  · rintro value rfl
    exact .ret value _
  · rintro fault rfl
    exact .fail fault _
  · intro op next state ih
    refine .call ?_
    rw [hanswer, hstate]
    exact ih
  · intro _ _ body start next state ih
    exact .loop ih

end Projection

namespace Protocol

variable {sig : Signature} {σ Cell Val Lock Actor Reply Fault α : Type}
variable {protocol : Protocol sig σ Cell Val Lock Actor Reply}
variable {post : Except Fault α → Local Cell Val Lock Reply → Prop}
  {here : Local Cell Val Lock Reply} {doom : Fault → Prop}

theorem done_of_reply {actor : Actor} {program : Prog sig Fault α}
    (hwp : Wp (protocol.theory actor) doom post program here) (hreply : here.reply ≠ none) :
    (∃ value, program = .ret value ∧ post (.ok value) here) ∨
      ∃ fault, program = .fail fault ∧ post (.error fault) here := by
  cases hwp with
  | ret hpost => exact .inl ⟨_, rfl, hpost⟩
  | fail hpost => exact .inr ⟨_, rfl, hpost⟩
  | call accepted hopeless hmay hnext hgive => exact absurd hmay.1 hreply
  | loop hlive hunroll => exact absurd hlive hreply

/-- The state with the announced reply on record. -/
def settled (protocol : Protocol sig σ Cell Val Lock Actor Reply)
    (actor : Actor) (state : σ) : Option Reply → σ
  | none => state
  | some reply => protocol.finish actor reply state

/-- A lock that the party holds was taken in its current task, and what the
task may assume holds of the locks that it has not taken yet. -/
structure Fresh (protocol : Protocol sig σ Cell Val Lock Actor Reply)
    (actor : Actor) (here : Local Cell Val Lock Reply) (pool : Lock → Heap Cell Val) : Prop where
  assume : ∀ lock, lock ∉ here.taken → protocol.assume actor lock (pool lock)
  held : ∀ lock, lock ∈ here.held → lock ∈ here.taken
  reading : ∀ lock, here.reading = some lock → lock ∈ here.taken

namespace Fresh

variable {actor : Actor} {next : Local Cell Val Lock Reply} {pool : Lock → Heap Cell Val}
variable {lock : Lock}
variable (hfresh : protocol.Fresh actor here pool)
include hfresh

theorem write [DecidableEq Lock]
    (hheld : next.held = lock :: here.held) (hreading : next.reading = here.reading)
    (htaken : next.taken = lock :: here.taken) (part : Heap Cell Val) :
    protocol.Fresh actor next (Function.update pool lock part) where
  assume other hother := by
    rw [htaken, List.mem_cons, not_or] at hother
    rw [Function.update_of_ne hother.1]
    exact hfresh.assume other hother.2
  held other hother := by
    rw [hheld, List.mem_cons] at hother
    rw [htaken, List.mem_cons]
    exact hother.imp id (hfresh.held other)
  reading other hother := by
    rw [hreading] at hother
    rw [htaken]
    exact List.mem_cons_of_mem _ (hfresh.reading other hother)

theorem read (hheld : next.held = here.held)
    (hreading : next.reading = some lock) (htaken : next.taken = lock :: here.taken) :
    protocol.Fresh actor next pool where
  assume other hother := by
    rw [htaken, List.mem_cons, not_or] at hother
    exact hfresh.assume other hother.2
  held other hother := by
    rw [hheld] at hother
    rw [htaken]
    exact List.mem_cons_of_mem _ (hfresh.held other hother)
  reading other hother := by
    rw [hreading, Option.some.injEq] at hother
    rw [htaken, hother]
    exact List.mem_cons_self

theorem release [DecidableEq Lock] {pool' : Lock → Heap Cell Val}
    (hheld : next.held = here.held.erase lock) (hreading : next.reading = none)
    (htaken : next.taken = here.taken) (hpool : ∀ other, other ≠ lock → pool' other = pool other)
    (hmine : lock ∈ here.held ∨ here.reading = some lock) : protocol.Fresh actor next pool' where
  assume other hother := by
    rw [htaken] at hother
    have hne : other ≠ lock := by
      rintro rfl
      exact hother (hmine.elim (hfresh.held other) (hfresh.reading other))
    rw [hpool other hne]
    exact hfresh.assume other hother
  held other hother := by
    rw [hheld] at hother
    rw [htaken]
    exact hfresh.held other (List.mem_of_mem_erase hother)
  reading other hother := by
    rw [hreading] at hother
    cases hother

end Fresh

theorem update_unit {β : Type} (first second : β) :
    Function.update (fun _ : Unit => first) () second = fun _ => second := by
  funext only
  simp

/-- A proof in the theory of a party describes its run alone. -/
theorem runs_alone [DecidableEq Lock] {actor : Actor} {program : Prog sig Fault α}
    (hwp : Wp (protocol.theory actor) doom post program here) (hreply : here.reply = none)
    {state : σ} {pool : Lock → Heap Cell Val} {total : Heap Cell Val}
    (htogether : Together protocol state (fun _ : Unit => here) pool total)
    (hfresh : protocol.Fresh actor here pool) :
    ∃ outcome final, Runs (protocol.exec actor) program state outcome final ∧
      ((∃ fault, outcome = .error fault ∧ doom fault) ∨
        ∃ here' pool' total', post outcome here' ∧
          Together protocol (protocol.settled actor final here'.reply)
            (fun _ : Unit => here') pool' total') := by
  induction hwp generalizing state pool total with
  | @ret value here hpost =>
    refine ⟨_, _, .ret value state, .inr ⟨here, pool, total, hpost, ?_⟩⟩
    rw [hreply]
    exact htogether
  | @fail fault here hpost =>
    refine ⟨_, _, .fail fault state, .inr ⟨here, pool, total, hpost, ?_⟩⟩
    rw [hreply]
    exact htogether
  | @loop _ _ _ _ _ here hlive _ ih =>
    obtain ⟨outcome, final, hruns, hrest⟩ := ih hreply htogether hfresh
    exact ⟨outcome, final, .loop hruns, hrest⟩
  | @call op next here accepted hopeless hmay hnext hgive ih =>
    obtain ⟨_, hmay⟩ := hmay
    -- It is enough to finish from the state after the operation.
    suffices hafter : ∃ outcome final, Runs (protocol.exec actor)
        (next (protocol.exec actor op state).1) (protocol.exec actor op state).2
        outcome final ∧ ((∃ fault, outcome = .error fault ∧ doom fault) ∨
          ∃ here' pool' total', post outcome here' ∧
            Together protocol (protocol.settled actor final here'.reply)
              (fun _ : Unit => here') pool' total') by
      obtain ⟨outcome, final, hruns, hrest⟩ := hafter
      exact ⟨outcome, final, .call hruns, hrest⟩
    have hsame : protocol.lockUse op ≠ .io → (protocol.exec actor op state).2 = state :=
      protocol.exec_lock actor op state
    cases huse : protocol.lockUse op with
    | io =>
      rw [huse] at hmay
      rcases htogether.io () hmay with hhopeless | ⟨own, total', hacc, hafter⟩
      · obtain ⟨fault, heq, hdoom⟩ := hgive _ hhopeless
        rw [heq]
        exact ⟨_, _, .fail fault _, .inl ⟨fault, rfl, hdoom⟩⟩
      · rw [update_unit] at hafter
        exact ih _ _ hacc hreply hafter ⟨hfresh.assume, hfresh.held, hfresh.reading⟩
    | write lock =>
      rw [huse] at hmay hsame
      rw [hsame (by simp)]
      obtain ⟨after, hacc, hrep, hheld, hreading, htaken, hafter⟩ :=
        htogether.write () hmay (fun q hq => absurd rfl hq)
          (hfresh.assume lock) (protocol.exec actor op state).1
      rw [update_unit] at hafter
      exact ih _ _ hacc (hrep.trans hreply) hafter (hfresh.write hheld hreading htaken _)
    | read lock =>
      rw [huse] at hmay hsame
      rw [hsame (by simp)]
      obtain ⟨after, hacc, hrep, hheld, hreading, htaken, hafter⟩ :=
        htogether.read () hmay (fun q hq => absurd rfl hq)
          (hfresh.assume lock) (protocol.exec actor op state).1
      rw [update_unit] at hafter
      exact ih _ _ hacc (hrep.trans hreply) hafter (hfresh.read hheld hreading htaken)
    | release lock =>
      rw [huse] at hmay hsame
      rw [hsame (by simp)]
      obtain ⟨after, pool', total', hacc, hheld, hreading, htaken, hpool,
        hmine, hways⟩ := htogether.release () hmay
          (protocol.exec actor op state).1
      rcases hways with ⟨hrep, hafter⟩ | ⟨reply, hrep, hafter⟩
      · rw [update_unit] at hafter
        exact ih _ _ hacc (hrep.trans hreply) hafter
          (hfresh.release hheld hreading htaken hpool hmine)
      · rw [update_unit] at hafter
        have hsettled : protocol.settled actor state after.reply =
            protocol.finish actor reply state := by
          rw [hrep]
          rfl
        rcases done_of_reply (hnext _ _ hacc) (by rw [hrep]; simp) with
          ⟨value, heq, hpost⟩ | ⟨fault, heq, hpost⟩
        · rw [heq]
          refine ⟨_, _, .ret value state, .inr ⟨after, pool', total', hpost, ?_⟩⟩
          rw [hsettled]
          exact hafter
        · rw [heq]
          refine ⟨_, _, .fail fault state, .inr ⟨after, pool', total', hpost, ?_⟩⟩
          rw [hsettled]
          exact hafter
    | stray =>
      rw [huse] at hmay
      exact hmay.elim

end Protocol

end ApueFormal.Program
