import ApueFormal.Printer.Queue

/-!
# The list of pending jobs

`add_job`, `replace_job` and `remove_job` in any order.  A job that was removed
keeps its links, and it may come back with them.
-/

namespace ApueFormal.Printer

open Program

variable {Req : Type}

inductive ListCall (Req : Type) where
  /-- `add_job`, with the pointer from `malloc` and what its memory held. -/
  | add (jp : Nat) (prev : Option Nat) (job : Job Req)
  | replace (jp : Nat) (job : Job Req)
  | remove (jp : Nat)
  /-- The printer thread frees a job that it is done with. -/
  | free (jp : Nat)

namespace ListCall

/-- What the code does; it fails at a pointer that leads to no job. -/
def run (queue : JobQueue Req) : ListCall Req → Option (JobQueue Req)
  | add jp prev job => (queue.newJob jp prev job).addJob jp
  | replace jp _ => queue.replaceJob jp
  | remove jp => queue.removeJob jp
  | free jp => some { queue with store := queue.store.free jp }

def effect (jobs : List (Nat × Job Req)) : ListCall Req → List (Nat × Job Req)
  | add jp _ job => jobs ++ [(jp, job)]
  | replace jp job => (jp, job) :: jobs
  | remove jp => without jp jobs
  | free _ => jobs

/-- When the call may be made: `malloc` returns memory that is not in use, a job
that is replaced or freed is not in the list, and a job that is removed is. -/
def Allowed (queue : JobQueue Req) (jobs : List (Nat × Job Req)) : ListCall Req → Prop
  | add jp _ _ => queue.store jp = none
  | replace jp job => jp ∉ jobs.map Prod.fst ∧ ∃ next prev, queue.store jp = some ⟨next, prev, job⟩
  | remove jp => jp ∈ jobs.map Prod.fst
  | free jp => jp ∉ jobs.map Prod.fst

end ListCall

/-- The variables of the program next to the list they stand for. -/
structure Pending (Req : Type) where
  queue : JobQueue Req
  jobs : List (Nat × Job Req)

def Pending.Start (pending : Pending Req) : Prop :=
  pending.queue.jobhead = none ∧ pending.queue.jobtail = none ∧ pending.jobs = []

def Pending.Step (pending pending' : Pending Req) : Prop :=
  ∃ call : ListCall Req, call.Allowed pending.queue pending.jobs ∧
    call.run pending.queue = some pending'.queue ∧ pending'.jobs = call.effect pending.jobs

theorem ListCall.run_holds {queue : JobQueue Req} {jobs : List (Nat × Job Req)}
    (hholds : queue.Holds jobs) {call : ListCall Req} (hallowed : call.Allowed queue jobs) :
    ∃ queue', call.run queue = some queue' ∧ queue'.Holds (call.effect jobs) := by
  cases call with
  | add jp prev job =>
    have hfresh := hholds.not_mem hallowed
    obtain ⟨queue', hrun, hholds', _⟩ :=
      (hholds.newJob hfresh prev job).addJob hfresh (Store.put_self ..)
    exact ⟨queue', hrun, hholds'⟩
  | replace jp job =>
    obtain ⟨hout, next, prev, hnode⟩ := hallowed
    obtain ⟨queue', hrun, hholds', _⟩ := hholds.replaceJob hout hnode
    exact ⟨queue', hrun, hholds'⟩
  | remove jp =>
    obtain ⟨⟨_, job⟩, hmem, rfl⟩ := List.mem_map.mp hallowed
    obtain ⟨before, after, rfl⟩ := List.append_of_mem hmem
    obtain ⟨queue', hrun, hholds', _⟩ := hholds.removeJob
    refine ⟨queue', hrun, ?_⟩
    rwa [effect, without_middle hholds.listed.nodup]
  | free jp => exact ⟨_, rfl, hholds.free hallowed⟩

variable {pending : Pending Req}

theorem Pending.holds (hreaches : Reaches Pending.Start Pending.Step pending) :
    pending.queue.Holds pending.jobs := by
  refine @Reaches.invariant _ _ _ (fun pending => pending.queue.Holds pending.jobs) ?_ ?_ _ hreaches
  · rintro ⟨queue, jobs⟩ ⟨hhead, htail, rfl⟩
    exact ⟨hhead, htail, listed_nil queue.store⟩
  · rintro ⟨queue, jobs⟩ ⟨queue', jobs'⟩ hholds ⟨call, hallowed, hrun, rfl⟩
    obtain ⟨queue'', hrun', hholds'⟩ := call.run_holds hholds hallowed
    cases hrun.symm.trans hrun'
    exact hholds'

theorem Pending.next (hreaches : Reaches Pending.Start Pending.Step pending) (call : ListCall Req)
    (hallowed : call.Allowed pending.queue pending.jobs) {queue' : JobQueue Req}
    (hrun : call.run pending.queue = some queue') :
    Reaches Pending.Start Pending.Step ⟨queue', call.effect pending.jobs⟩ :=
  .step hreaches ⟨call, hallowed, hrun, rfl⟩

/-- The list of pending jobs is the list under append at the end, insertion at
the front and removal, read from both ends; no call meets a bad pointer. -/
theorem pending_list_faithful {pending : Pending Req}
    (hreaches : Reaches Pending.Start Pending.Step pending) :
    (∀ fuel, pending.jobs.length < fuel →
      pending.queue.store.follow Node.next fuel pending.queue.jobhead = some pending.jobs ∧
        pending.queue.store.follow Node.prev fuel pending.queue.jobtail =
          some pending.jobs.reverse) ∧
      (pending.queue.jobhead = none ↔ pending.queue.jobtail = none) ∧
      (pending.queue.jobhead = none ↔ pending.jobs = []) ∧ (pending.jobs.map Prod.fst).Nodup ∧
      ∀ call : ListCall Req, call.Allowed pending.queue pending.jobs →
        ∃ queue', call.run pending.queue = some queue' := by
  have hholds := Pending.holds hreaches
  refine ⟨fun fuel hfuel => ⟨?_, ?_⟩, ?_, hholds.head_eq_none, hholds.listed.nodup, ?_⟩
  · rw [hholds.head]
    exact hholds.listed.segment.follow_next hfuel
  · rw [hholds.tail]
    exact hholds.listed.segment.follow_prev hfuel
  · rw [hholds.head, hholds.tail, firstOf, lastOf, List.head?_eq_none_iff,
      List.getLast?_eq_none_iff]
  · intro call hallowed
    obtain ⟨queue', hrun, _⟩ := call.run_holds hholds hallowed
    exact ⟨queue', hrun⟩

/-- Job 1 is removed while job 2 is behind it, and comes back with its stale links. -/
theorem pending_list_faithful_stale : ∃ pending : Pending Unit,
    Reaches Pending.Start Pending.Step pending ∧ pending.jobs.map Prod.fst = [1, 2] ∧
      pending.queue.store.follow Node.prev 3 pending.queue.jobtail =
        some [(2, ⟨20, ()⟩), (1, ⟨10, ()⟩)] := by
  let start : Pending Unit := ⟨⟨fun _ => none, none, none⟩, []⟩
  have hstart : Reaches Pending.Start Pending.Step start := .start ⟨rfl, rfl, rfl⟩
  have hfirst := Pending.next hstart (.add 1 none ⟨10, ()⟩) rfl rfl
  have hsecond := Pending.next hfirst (.add 2 none ⟨20, ()⟩) rfl rfl
  have hremoved := Pending.next hsecond (.remove 1) List.mem_cons_self rfl
  have hback := Pending.next hremoved (.replace 1 ⟨10, ()⟩) ⟨by decide, some 2, none, rfl⟩ rfl
  exact ⟨_, hback, rfl, ((pending_list_faithful hback).1 3 (by decide)).2⟩

end ApueFormal.Printer
