import ApueFormal.Program.Links
import ApueFormal.Program.System

/-!
# The queue of print jobs

`add_job` appends a job to the list of pending jobs and signals the printer
thread.  The printer thread takes the first job off the list, and a job that it
cannot print goes back to the front.  The list is only touched under `joblock`.
-/

namespace ApueFormal.Printer

open Function Program

/-- What a `struct job` says about the job. -/
structure Job (Req : Type) where
  jobid : Int
  req : Req
  deriving DecidableEq

structure JobQueue (Req : Type) where
  store : Store Nat (Job Req)
  jobhead : Option Nat
  jobtail : Option Nat

variable {Req : Type}

namespace JobQueue

/-- The part of `add_job` before the lock, with the pointer that `malloc` has
returned and what its memory held in the place of `prev`. -/
def newJob (jp : Nat) (prev : Option Nat) (job : Job Req) (queue : JobQueue Req) : JobQueue Req :=
  { queue with store := queue.store.put jp ⟨none, prev, job⟩ }

/-- The part of `add_job` under the lock. -/
def addJob (jp : Nat) (queue : JobQueue Req) : Option (JobQueue Req) := do
  let store ← queue.store.setPrev jp queue.jobtail
  match queue.jobtail with
  | none => some ⟨store, some jp, some jp⟩
  | some tail =>
    let store ← store.setNext tail (some jp)
    some ⟨store, queue.jobhead, some jp⟩

/-- The part of `replace_job` under the lock. -/
def replaceJob (jp : Nat) (queue : JobQueue Req) : Option (JobQueue Req) := do
  let store ← queue.store.setPrev jp none
  let store ← store.setNext jp queue.jobhead
  match queue.jobhead with
  | none => some ⟨store, some jp, some jp⟩
  | some head =>
    let store ← store.setPrev head (some jp)
    some ⟨store, some jp, queue.jobtail⟩

def removeJob (target : Nat) (queue : JobQueue Req) : Option (JobQueue Req) := do
  let node ← queue.store target
  let store ← queue.store.unlink target
  let jobtail := if node.next = none then node.prev else queue.jobtail
  let jobhead := if node.prev = none then node.next else queue.jobhead
  some ⟨store, jobhead, jobtail⟩

structure Holds (queue : JobQueue Req) (nodes : List (Nat × Job Req)) : Prop where
  head : queue.jobhead = firstOf nodes
  tail : queue.jobtail = lastOf nodes
  listed : Listed queue.store nodes

variable {queue : JobQueue Req} {nodes : List (Nat × Job Req)} {jp : Nat}

section

variable (hholds : queue.Holds nodes)
include hholds

theorem Holds.newJob (hfresh : jp ∉ nodes.map Prod.fst)
    (prev : Option Nat) (job : Job Req) : (queue.newJob jp prev job).Holds nodes :=
  ⟨hholds.head, hholds.tail, hholds.listed.segment.put hfresh _, hholds.listed.nodup⟩

theorem Holds.head_eq_none : queue.jobhead = none ↔ nodes = [] := by
  rw [hholds.head]
  cases nodes <;> simp

theorem Holds.not_mem (hfresh : queue.store jp = none) : jp ∉ nodes.map Prod.fst := by
  intro hmem
  obtain ⟨⟨_, job⟩, hnode, rfl⟩ := List.mem_map.mp hmem
  obtain ⟨before, after, rfl⟩ := List.append_of_mem hnode
  rw [hholds.listed.segment.get] at hfresh
  cases hfresh

variable (hout : jp ∉ nodes.map Prod.fst)
include hout

theorem Holds.free : Holds { queue with store := queue.store.free jp } nodes :=
  ⟨hholds.head, hholds.tail, hholds.listed.segment.free hout, hholds.listed.nodup⟩

theorem Holds.addJob
    {prev : Option Nat} {job : Job Req} (hnode : queue.store jp = some ⟨none, prev, job⟩) :
    ∃ queue', queue.addJob jp = some queue' ∧ queue'.Holds (nodes ++ [(jp, job)]) ∧
      ∀ other, other ∉ (nodes ++ [(jp, job)]).map Prod.fst →
        queue'.store other = queue.store other := by
  have hset : queue.store.setPrev jp queue.jobtail =
      some (queue.store.put jp ⟨none, lastOf nodes, job⟩) := by
    rw [Store.setPrev, hnode, hholds.tail]
    rfl
  have hlisted : Listed (queue.store.put jp ⟨none, lastOf nodes, job⟩) nodes :=
    ⟨hholds.listed.segment.put hout _, hholds.listed.nodup⟩
  obtain ⟨store', hlink, hlisted', hsame⟩ := hlisted.linkOn (Store.put_self ..) hout
  have hframe : ∀ other, other ∉ (nodes ++ [(jp, job)]).map Prod.fst →
      store' other = queue.store other := by
    intro other hother
    rw [List.map_append, List.mem_append, not_or] at hother
    rw [hsame other hother.1]
    exact Store.put_of_ne _ (fun heq => hother.2 (List.mem_singleton.mpr heq)) _
  refine ⟨⟨store', firstOf (nodes ++ [(jp, job)]), some jp⟩, ?_,
    ⟨rfl, (lastOf_snoc nodes (jp, job)).symm, hlisted'⟩, hframe⟩
  unfold JobQueue.addJob
  rw [hset, hholds.tail, hholds.head, firstOf_append]
  simp only [Option.bind_eq_bind, Option.bind_some]
  rcases List.eq_nil_or_concat nodes with rfl | ⟨front, last, rfl⟩
  · cases hlink
    rfl
  · rw [List.concat_eq_append] at hlink ⊢
    rw [lastOf_snoc] at hlink ⊢
    have hfirst : (firstOf (front ++ [last])).or (some jp) = firstOf (front ++ [last]) := by
      cases front <;> rfl
    simp only [firstOf_cons, hfirst]
    exact congrArg (Option.bind · _) hlink

theorem Holds.replaceJob {next prev : Option Nat} {job : Job Req}
    (hnode : queue.store jp = some ⟨next, prev, job⟩) :
    ∃ queue', queue.replaceJob jp = some queue' ∧ queue'.Holds ((jp, job) :: nodes) ∧
      ∀ other, other ∉ ((jp, job) :: nodes).map Prod.fst →
        queue'.store other = queue.store other := by
  have hset : (queue.store.setPrev jp none).bind (·.setNext jp queue.jobhead) =
      some ((queue.store.put jp ⟨next, none, job⟩).put jp ⟨firstOf nodes, none, job⟩) := by
    rw [Store.setPrev, hnode, Option.map_some, Option.bind_some, Store.setNext, Store.put_self,
      hholds.head]
    rfl
  have hlisted : Listed ((queue.store.put jp ⟨next, none, job⟩).put jp
      ⟨firstOf nodes, none, job⟩) nodes :=
    ⟨(hholds.listed.segment.put hout _).put hout _, hholds.listed.nodup⟩
  obtain ⟨store', hlink, hlisted', hsame⟩ := hlisted.linkBack (Store.put_self ..) hout
  have hframe : ∀ other, other ∉ ((jp, job) :: nodes).map Prod.fst →
      store' other = queue.store other := by
    intro other hother
    rw [List.map_cons, List.mem_cons, not_or] at hother
    rw [hsame other hother.2, Store.put_of_ne _ hother.1, Store.put_of_ne _ hother.1]
  refine ⟨⟨store', some jp, lastOf ((jp, job) :: nodes)⟩, ?_, ⟨rfl, rfl, hlisted'⟩, hframe⟩
  unfold JobQueue.replaceJob
  simp only [Option.bind_eq_bind]
  rw [← Option.bind_assoc, hset, Option.bind_some, hholds.head, hholds.tail]
  cases nodes with
  | nil =>
    cases hlink
    rfl
  | cons node rest =>
    have hlast : lastOf ((jp, job) :: node :: rest) = lastOf (node :: rest) := by
      simp [lastOf]
    rw [hlast]
    exact congrArg (Option.bind · _) hlink

end

theorem Holds.removeJob {before after : List (Nat × Job Req)} {job : Job Req}
    (hholds : queue.Holds (before ++ (jp, job) :: after)) :
    ∃ queue', queue.removeJob jp = some queue' ∧ queue'.Holds (before ++ after) ∧
      (∃ node, queue'.store jp = some node ∧ node.value = job) ∧
      ∀ other, other ∉ (before ++ after).map Prod.fst → queue'.store other = queue.store other := by
  have hnode := hholds.listed.segment.get
  rw [Option.or_none, Option.or_none] at hnode
  obtain ⟨store', hunlink, hlisted, hremoved, hsame⟩ := hholds.listed.unlink
  refine ⟨⟨store', firstOf (before ++ after), lastOf (before ++ after)⟩, ?_,
    ⟨rfl, rfl, hlisted⟩, ⟨_, hremoved, rfl⟩, hsame⟩
  unfold JobQueue.removeJob
  simp only [Option.bind_eq_bind, hnode, hunlink, Option.bind_some, hholds.head, hholds.tail]
  rw [firstOf_middle, lastOf_middle]

end JobQueue

/-- The printer thread, and the threads that call `add_job`. -/
inductive Thread where
  | printer
  | client (tid : Nat)
  deriving DecidableEq

inductive Phase where
  /-- A client thread is not in `add_job`. -/
  | idle
  /-- `add_job` takes the lock. -/
  | adding (jp : Nat)
  /-- `add_job` has the lock and appends the job. -/
  | linking (jp : Nat)
  /-- `add_job` has appended the job and releases the lock. -/
  | linked
  /-- `add_job` signals the printer thread. -/
  | signalling
  /-- The printer thread takes the lock at the start of its loop. -/
  | starting
  /-- The printer thread has the lock and tests `jobhead`. -/
  | testing
  /-- The list was empty, and the printer thread calls `pthread_cond_wait`. -/
  | empty
  /-- The printer thread is blocked in `pthread_cond_wait`. -/
  | waiting
  /-- The printer thread takes the lock again in `pthread_cond_wait`. -/
  | woken
  /-- The list was not empty, and the printer thread takes the first job. -/
  | picking
  /-- The printer thread releases the lock. -/
  | picked (jp : Nat)
  /-- The printer thread works on the job. -/
  | printing (jp : Nat)
  /-- `replace_job` takes the lock. -/
  | deferring (jp : Nat)
  /-- `replace_job` has the lock and puts the job back. -/
  | replacing (jp : Nat)
  /-- `replace_job` releases the lock. -/
  | replaced
  deriving DecidableEq

namespace Phase

/-- The thread has `joblock`. -/
def holds : Phase → Bool
  | linking _ | linked | testing | empty | picking | picked _ | replacing _ | replaced => true
  | _ => false

/-- The job that a client thread is about to append. -/
def adds : Phase → Option Nat
  | adding jp | linking jp => some jp
  | _ => none

/-- The job in the hand of the printer thread. -/
def hand : Phase → Option Nat
  | picked jp | printing jp | deferring jp | replacing jp => some jp
  | _ => none

/-- The thread has appended a job and has its signal to send. -/
def signals : Phase → Bool
  | linked | signalling => true
  | _ => false

/-- What a thread does when it has taken the lock. -/
def lock : Phase → Option Phase
  | adding jp => some (linking jp)
  | starting => some testing
  | woken => some testing
  | deferring jp => some (replacing jp)
  | _ => none

/-- What a thread does when it has released the lock. -/
def unlock : Phase → Option Phase
  | linked => some signalling
  | empty => some waiting
  | picked jp => some (printing jp)
  | replaced => some starting
  | _ => none

/-- The effect of `pthread_cond_signal` on the printer thread. -/
def wake : Phase → Phase
  | waiting => woken
  | phase => phase

variable {phase next : Phase}

theorem wake_holds (phase : Phase) : phase.wake.holds = phase.holds := by
  cases phase <;> rfl

theorem wake_ne_waiting (phase : Phase) : phase.wake ≠ waiting := by
  cases phase <;> rintro ⟨⟩

theorem eq_empty_of_wake (hwake : phase.wake = empty) : phase = empty := by
  cases phase <;> cases hwake
  rfl

theorem eq_picking_of_wake (hwake : phase.wake = picking) : phase = picking := by
  cases phase <;> cases hwake
  rfl

theorem lock_spec (hlock : phase.lock = some next) :
    (next ≠ empty ∧ next ≠ picking ∧ next ≠ waiting) ∧ next.holds = true ∧
      phase.signals = false := by
  cases phase <;> cases hlock <;> simp [holds, signals]

theorem lock_jobs (hlock : phase.lock = some next) :
    next.adds = phase.adds ∧ next.hand = phase.hand := by
  cases phase <;> cases hlock <;> exact ⟨rfl, rfl⟩

theorem unlock_jobs (hunlock : phase.unlock = some next) :
    next.adds = phase.adds ∧ next.hand = phase.hand := by
  cases phase <;> cases hunlock <;> exact ⟨rfl, rfl⟩

theorem wake_jobs (phase : Phase) :
    phase.wake.adds = phase.adds ∧ phase.wake.hand = phase.hand := by
  cases phase <;> exact ⟨rfl, rfl⟩

theorem unlock_spec (hunlock : phase.unlock = some next) :
    phase.holds = true ∧ next.holds = false ∧ (next ≠ empty ∧ next ≠ picking) ∧
      (next = waiting → phase = empty) ∧ (phase.signals = true → next.signals = true) := by
  cases phase <;> cases hunlock <;> simp [holds, signals]

end Phase

/-- The queue, the owner of `joblock` and what the threads do, with the jobs in
the order in which they were appended and in which they were finished. -/
structure Printing (Req : Type) where
  queue : JobQueue Req
  joblock : Option Thread
  phase : Thread → Phase
  added : List (Job Req)
  finished : List (Job Req)

namespace Printing

def goto (state : Printing Req) (thread : Thread) (phase : Phase) : Printing Req :=
  { state with phase := Function.update state.phase thread phase }

/-- The job in the hand of the printer thread. -/
def hand (state : Printing Req) : List (Job Req) :=
  (((state.phase .printer).hand.bind state.queue.store).map Node.value).toList

end Printing

/-- Before the first job; the printer thread has been started. -/
def noPrinting : Printing Req where
  queue := ⟨fun _ => none, none, none⟩
  joblock := none
  phase := fun thread => if thread = .printer then .starting else .idle
  added := []
  finished := []

inductive QueueStep : Printing Req → Printing Req → Prop where
  | call {state : Printing Req} {tid jp : Nat} {prev : Option Nat} {job : Job Req}
      (hphase : state.phase (.client tid) = .idle) (hfresh : state.queue.store jp = none) :
      QueueStep state
        { state.goto (.client tid) (.adding jp) with queue := state.queue.newJob jp prev job }
  | lock {state : Printing Req} {thread : Thread} {phase : Phase}
      (hphase : (state.phase thread).lock = some phase) (hfree : state.joblock = none) :
      QueueStep state { state.goto thread phase with joblock := some thread }
  | unlock {state : Printing Req} {thread : Thread} {phase : Phase}
      (hphase : (state.phase thread).unlock = some phase) :
      QueueStep state { state.goto thread phase with joblock := none }
  | add {state : Printing Req} {tid jp : Nat} {node : Node Nat (Job Req)}
      {queue : JobQueue Req} (hphase : state.phase (.client tid) = .linking jp)
      (hnode : state.queue.store jp = some node) (hcall : state.queue.addJob jp = some queue) :
      QueueStep state
        { state.goto (.client tid) .linked with
          queue := queue
          added := state.added ++ [node.value] }
  | signal {state : Printing Req} {tid : Nat} (hphase : state.phase (.client tid) = .signalling) :
      QueueStep state ((state.goto .printer (state.phase .printer).wake).goto (.client tid) .idle)
  /-- A wakeup without a signal. -/
  | wakeup {state : Printing Req} (hphase : state.phase .printer = .waiting) :
      QueueStep state (state.goto .printer .woken)
  | test {state : Printing Req} (hphase : state.phase .printer = .testing) :
      QueueStep state
        (state.goto .printer (if state.queue.jobhead = none then .empty else .picking))
  | pick {state : Printing Req} {jp : Nat} {queue : JobQueue Req}
      (hphase : state.phase .printer = .picking) (hhead : state.queue.jobhead = some jp)
      (hcall : state.queue.removeJob jp = some queue) :
      QueueStep state { state.goto .printer (.picked jp) with queue := queue }
  /-- The job is cancelled or printed, and freed. -/
  | finish {state : Printing Req} {jp : Nat} {node : Node Nat (Job Req)}
      (hphase : state.phase .printer = .printing jp) (hnode : state.queue.store jp = some node) :
      QueueStep state
        { state.goto .printer .starting with
          queue := { state.queue with store := state.queue.store.free jp }
          finished := state.finished ++ [node.value] }
  | defer {state : Printing Req} {jp : Nat} (hphase : state.phase .printer = .printing jp) :
      QueueStep state (state.goto .printer (.deferring jp))
  | replace {state : Printing Req} {jp : Nat} {queue : JobQueue Req}
      (hphase : state.phase .printer = .replacing jp)
      (hcall : state.queue.replaceJob jp = some queue) :
      QueueStep state { state.goto .printer .replaced with queue := queue }

abbrev QueueReaches : Printing Req → Prop :=
  Reaches (fun state => state = noPrinting) QueueStep

/-! ## The lock and the signal -/

/-- One thread at a time has the lock, what the printer thread has seen of the
list is still true, and it does not wait for a signal that nobody sends. -/
structure Synced (phase : Thread → Phase) (joblock : Option Thread) (pending : Prop) : Prop where
  lock : ∀ thread, (phase thread).holds = true ↔ joblock = some thread
  empty : phase .printer = .empty → ¬ pending
  picking : phase .printer = .picking → pending
  wakeup : phase .printer = .waiting → pending → ∃ thread, (phase thread).signals = true

variable {next : Phase} {thread : Thread}

namespace Synced

variable {phase : Thread → Phase} {joblock : Option Thread} {pending pending' : Prop}
variable (hsynced : Synced phase joblock pending)
include hsynced

theorem lock_update (hholds : next.holds = (phase thread).holds) (other : Thread) :
    (update phase thread next other).holds = true ↔ joblock = some other := by
  rw [← hsynced.lock other, update_apply]
  split
  next heq => rw [heq, hholds]
  next => rfl

theorem printer (hholds : next.holds = (phase .printer).holds) (hempty : next = .empty → ¬ pending')
    (hpicking : next = .picking → pending') (hwaiting : next ≠ .waiting) :
    Synced (update phase .printer next) joblock pending' where
  lock := hsynced.lock_update hholds
  empty := by rwa [update_self]
  picking := by rwa [update_self]
  wakeup := by
    rw [update_self]
    exact fun hwait => absurd hwait hwaiting

theorem client {tid : Nat} (hholds : next.holds = (phase (.client tid)).holds)
    (hsignals : phase .printer = .waiting → (phase (.client tid)).signals = false) :
    Synced (update phase (.client tid) next) joblock pending where
  lock := hsynced.lock_update hholds
  empty := hsynced.empty
  picking := hsynced.picking
  wakeup := by
    intro hwait hpending
    obtain ⟨thread, hthread⟩ := hsynced.wakeup hwait hpending
    refine ⟨thread, ?_⟩
    rw [update_of_ne]
    · exact hthread
    · rintro rfl
      rw [hsignals hwait] at hthread
      cases hthread

theorem add {tid jp : Nat} (hphase : phase (.client tid) = .linking jp) :
    Synced (update phase (.client tid) .linked) joblock pending' := by
  have hlock : joblock = some (.client tid) := (hsynced.lock _).mp (congrArg Phase.holds hphase)
  have hprinter : (phase .printer).holds = false := by
    rw [← Bool.not_eq_true, hsynced.lock, hlock]
    simp
  refine ⟨hsynced.lock_update (congrArg Phase.holds hphase).symm, ?_, ?_, ?_⟩
  · exact fun hempty => absurd ((congrArg Phase.holds hempty).symm.trans hprinter) nofun
  · exact fun hpicking => absurd ((congrArg Phase.holds hpicking).symm.trans hprinter) nofun
  · intro _ _
    refine ⟨.client tid, ?_⟩
    rw [update_self]
    rfl

theorem wake : Synced (update phase .printer (phase .printer).wake) joblock pending :=
  hsynced.printer (phase .printer).wake_holds
    (fun hempty => hsynced.empty (Phase.eq_empty_of_wake hempty))
    (fun hpicking => hsynced.picking (Phase.eq_picking_of_wake hpicking))
    (phase .printer).wake_ne_waiting

/-- A thread goes on that knows nothing about the list, except that it is empty when the
thread starts to wait. -/
theorem pass {joblock' : Option Thread}
    (hlock : ∀ other, (update phase thread next other).holds = true ↔ joblock' = some other)
    (hkind : next ≠ .empty ∧ next ≠ .picking)
    (hwaiting : thread = .printer → next = .waiting → ¬ pending)
    (hsignals : (phase thread).signals = true → next.signals = true) :
    Synced (update phase thread next) joblock' pending := by
  refine ⟨hlock, ?_, ?_, ?_⟩ <;> rw [update_apply]
  · split
    · exact fun hempty => absurd hempty hkind.1
    · exact hsynced.empty
  · split
    · exact fun hpicking => absurd hpicking hkind.2
    · exact hsynced.picking
  · split
    next heq => exact fun hwait hpending => absurd hpending (hwaiting heq.symm hwait)
    next =>
      intro hwait hpending
      obtain ⟨other, hother⟩ := hsynced.wakeup hwait hpending
      refine ⟨other, ?_⟩
      rw [update_apply]
      split
      next heq => exact hsignals (heq ▸ hother)
      next => exact hother

theorem takeLock (hfree : joblock = none) (hphase : (phase thread).lock = some next) :
    Synced (update phase thread next) (some thread) pending := by
  obtain ⟨⟨hempty, hpicking, hwaiting⟩, hholds, hsignals⟩ := Phase.lock_spec hphase
  refine hsynced.pass ?_ ⟨hempty, hpicking⟩ (fun _ hwait => absurd hwait hwaiting) ?_
  · intro other
    rw [update_apply]
    split
    next heq => simp [heq, hholds]
    next hne => simp [hsynced.lock, hfree, Ne.symm hne]
  · rw [hsignals]
    exact nofun

theorem releaseLock (hphase : (phase thread).unlock = some next) :
    Synced (update phase thread next) none pending := by
  obtain ⟨hheld, hholds, hkind, hwaiting, hsignals⟩ := Phase.unlock_spec hphase
  have hlock : joblock = some thread := (hsynced.lock thread).mp hheld
  refine hsynced.pass ?_ hkind ?_ hsignals
  · intro other
    rw [update_apply]
    split
    next => simp [hholds]
    next hne => simp [hsynced.lock, hlock, Ne.symm hne]
  · -- The printer thread has seen an empty list and still has the lock.
    rintro rfl hwait
    exact hsynced.empty (hwaiting hwait)

end Synced

/-! ## Jobs outside the list -/

/-- The jobs in the hands of threads are not on the list, and each is in the
hands of one thread. -/
structure Owned (phase : Thread → Phase) (store : Store Nat (Job Req))
    (nodes : List (Nat × Job Req)) : Prop where
  adds : ∀ thread jp, (phase thread).adds = some jp → jp ∉ nodes.map Prod.fst ∧
    ∃ prev job, store jp = some ⟨none, prev, job⟩
  hand : ∀ jp, (phase .printer).hand = some jp → jp ∉ nodes.map Prod.fst ∧
    ∃ node, store jp = some node
  apart : ∀ thread jp, (phase thread).adds = some jp → (phase .printer).hand ≠ some jp
  distinct : ∀ thread other jp, (phase thread).adds = some jp →
    (phase other).adds = some jp → thread = other

namespace Owned

variable {phase phase' : Thread → Phase} {store store' : Store Nat (Job Req)}
  {nodes nodes' : List (Nat × Job Req)}

section

variable (howned : Owned phase store nodes)
include howned

/-- Threads may let go of jobs; nothing happens to the jobs that they keep. -/
theorem change
    (hadds : ∀ thread jp, (phase' thread).adds = some jp → (phase thread).adds = some jp ∧
      jp ∉ nodes'.map Prod.fst ∧ store' jp = store jp)
    (hhand : ∀ jp, (phase' .printer).hand = some jp → (phase .printer).hand = some jp ∧
      jp ∉ nodes'.map Prod.fst ∧ store' jp = store jp) :
    Owned phase' store' nodes' where
  adds := by
    intro thread jp hjp
    obtain ⟨hold, hout, hsame⟩ := hadds thread jp hjp
    rw [hsame]
    exact ⟨hout, (howned.adds thread jp hold).2⟩
  hand := by
    intro jp hjp
    obtain ⟨hold, hout, hsame⟩ := hhand jp hjp
    rw [hsame]
    exact ⟨hout, (howned.hand jp hold).2⟩
  apart := by
    intro thread jp hjp hhand'
    exact howned.apart thread jp (hadds thread jp hjp).1 (hhand jp hhand').1
  distinct := by
    intro thread other jp hjp hjp'
    exact howned.distinct thread other jp (hadds thread jp hjp).1 (hadds other jp hjp').1

theorem move (hsame : next.adds = (phase thread).adds ∧ next.hand = (phase thread).hand) :
    Owned (update phase thread next) store nodes := by
  apply howned.change
  · intro other jp hjp
    have hold : (phase other).adds = some jp := by
      rw [update_apply] at hjp
      split at hjp
      next heq => rw [heq, ← hsame.1, hjp]
      next => exact hjp
    exact ⟨hold, (howned.adds other jp hold).1, rfl⟩
  · intro jp hjp
    have hold : (phase .printer).hand = some jp := by
      rw [update_apply] at hjp
      split at hjp
      next heq => rw [heq, ← hsame.2, hjp]
      next => exact hjp
    exact ⟨hold, (howned.hand jp hold).1, rfl⟩

theorem call {tid jp : Nat} (hfresh : store jp = none)
    (hout : jp ∉ nodes.map Prod.fst) (prev : Option Nat) (job : Job Req) :
    Owned (update phase (.client tid) (.adding jp)) (store.put jp ⟨none, prev, job⟩) nodes := by
  have hne : ∀ {other node}, store other = some node → other ≠ jp := by
    rintro _ _ hother rfl
    cases hfresh.symm.trans hother
  have hadds : ∀ thread other, (update phase (.client tid) (.adding jp) thread).adds = some other →
      thread = .client tid ∧ other = jp ∨ (phase thread).adds = some other ∧ other ≠ jp := by
    intro thread other hother
    rw [update_apply] at hother
    split at hother
    next heq => exact .inl ⟨heq, (Option.some.inj hother).symm⟩
    next =>
      obtain ⟨_, _, _, hnode⟩ := howned.adds thread other hother
      exact .inr ⟨hother, hne hnode⟩
  refine ⟨?_, ?_, ?_, ?_⟩
  · intro thread other hother
    rcases hadds thread other hother with ⟨_, rfl⟩ | ⟨hold, hneq⟩
    · exact ⟨hout, prev, job, Store.put_self ..⟩
    · rw [Store.put_of_ne _ hneq]
      exact howned.adds thread other hold
  · intro other hother
    obtain ⟨hout', node, hnode⟩ := howned.hand other hother
    refine ⟨hout', node, ?_⟩
    rw [Store.put_of_ne _ (hne hnode), hnode]
  · intro thread other hother hhand
    rcases hadds thread other hother with ⟨_, rfl⟩ | ⟨hold, _⟩
    · obtain ⟨_, node, hnode⟩ := howned.hand other hhand
      exact hne hnode rfl
    · exact howned.apart thread other hold hhand
  · intro thread thread' other hother hother'
    rcases hadds thread other hother with ⟨hthread, rfl⟩ | ⟨hold, hneq⟩
    · rcases hadds thread' other hother' with ⟨hthread', _⟩ | ⟨_, hneq⟩
      · rw [hthread, hthread']
      · exact absurd rfl hneq
    · rcases hadds thread' other hother' with ⟨_, heq⟩ | ⟨hold', _⟩
      · exact absurd heq hneq
      · exact howned.distinct thread thread' other hold hold'

theorem letGo {jp : Nat}
    (hjp : (phase thread).adds = some jp ∨ thread = .printer ∧ (phase thread).hand = some jp)
    (hadds : next.adds = none) (hhand : next.hand = none)
    (hkeep : ∀ other, other ≠ jp → other ∉ nodes.map Prod.fst →
      other ∉ nodes'.map Prod.fst ∧ store' other = store other) :
    Owned (update phase thread next) store' nodes' := by
  apply howned.change
  · intro thread' other hother
    rw [update_apply] at hother
    split at hother
    next =>
      rw [hadds] at hother
      cases hother
    next hne =>
      refine ⟨hother, hkeep other ?_ (howned.adds thread' other hother).1⟩
      rintro rfl
      rcases hjp with hclient | ⟨rfl, hprinter⟩
      · exact hne (howned.distinct thread' thread other hother hclient)
      · exact howned.apart thread' other hother hprinter
  · intro other hother
    rw [update_apply] at hother
    split at hother
    next =>
      rw [hhand] at hother
      cases hother
    next hne =>
      refine ⟨hother, hkeep other ?_ (howned.hand other hother).1⟩
      rintro rfl
      rcases hjp with hclient | ⟨rfl, _⟩
      · exact howned.apart thread other hclient hother
      · exact hne rfl

end

theorem pick {rest : List (Nat × Job Req)} {jp : Nat} {job : Job Req}
    (howned : Owned phase store ((jp, job) :: rest))
    (hnodup : (((jp, job) :: rest).map Prod.fst).Nodup)
    {node : Node Nat (Job Req)} (hnode : store' jp = some node)
    (hsame : ∀ other, other ∉ rest.map Prod.fst → store' other = store other) :
    Owned (update phase .printer (.picked jp)) store' rest := by
  have hadds : ∀ thread other, (update phase .printer (.picked jp) thread).adds = some other →
      (phase thread).adds = some other := by
    intro thread other hother
    rw [update_apply] at hother
    split at hother
    · cases hother
    · exact hother
  have hhand : (update phase .printer (.picked jp) .printer).hand = some jp := by
    rw [update_self]
    rfl
  have hout : ∀ thread other, (phase thread).adds = some other →
      other ≠ jp ∧ other ∉ rest.map Prod.fst := by
    intro thread other hother
    exact not_or.mp fun hmem => (howned.adds thread other hother).1 (List.mem_cons.mpr hmem)
  refine ⟨?_, ?_, ?_, ?_⟩
  · intro thread other hother
    have hold := hadds thread other hother
    rw [hsame other (hout thread other hold).2]
    exact ⟨(hout thread other hold).2, (howned.adds thread other hold).2⟩
  · intro other hother
    cases hhand.symm.trans hother
    exact ⟨(List.nodup_cons.mp hnodup).1, node, hnode⟩
  · intro thread other hother hhand'
    cases hhand.symm.trans hhand'
    exact (hout thread jp (hadds thread jp hother)).1 rfl
  · intro thread other jp' hjp hjp'
    exact howned.distinct thread other jp' (hadds thread jp' hjp) (hadds other jp' hjp')

end Owned

namespace Printing

variable {state : Printing Req} {nodes : List (Nat × Job Req)} {jp : Nat}

theorem goto_self (state : Printing Req) (thread : Thread) (phase : Phase) :
    (state.goto thread phase).phase thread = phase := update_self ..

theorem goto_client (state : Printing Req) (tid : Nat) (phase : Phase) :
    (state.goto .printer phase).phase (.client tid) = state.phase (.client tid) :=
  update_of_ne (show Thread.client tid ≠ .printer by rintro ⟨⟩) phase state.phase

theorem hand_of_some {node : Node Nat (Job Req)} (hhand : (state.phase .printer).hand = some jp)
    (hnode : state.queue.store jp = some node) : state.hand = [node.value] := by
  rw [hand, hhand, Option.bind_some, hnode]
  rfl

theorem hand_of_none (hhand : (state.phase .printer).hand = none) : state.hand = [] := by
  rw [hand, hhand]
  rfl

theorem hand_congr {state' : Printing Req}
    (hhand : (state'.phase .printer).hand = (state.phase .printer).hand)
    (hsame : ∀ jp, (state.phase .printer).hand = some jp →
      state'.queue.store jp = state.queue.store jp) : state'.hand = state.hand := by
  rw [hand, hand, hhand]
  cases hjp : (state.phase .printer).hand with
  | none => rfl
  | some jp => rw [Option.bind_some, Option.bind_some, hsame jp hjp]

/-- The list holds the jobs that have been appended and are neither finished nor
in the hand of the printer thread, in their order. -/
structure Inv (state : Printing Req) (nodes : List (Nat × Job Req)) : Prop where
  holds : state.queue.Holds nodes
  owned : Owned state.phase state.queue.store nodes
  synced : Synced state.phase state.joblock (nodes ≠ [])
  order : state.added = state.finished ++ state.hand ++ nodes.map Prod.snd

namespace Inv

theorem start : (noPrinting : Printing Req).Inv [] where
  holds := ⟨rfl, rfl, listed_nil _⟩
  owned := by
    have hphase : ∀ thread, ((noPrinting : Printing Req).phase thread).adds = none := by
      intro thread
      cases thread <;> rfl
    refine ⟨by simp [hphase], by rintro _ ⟨⟩, by simp [hphase], by simp [hphase]⟩
  synced := by
    refine ⟨fun thread => ?_, nofun, nofun, nofun⟩
    cases thread <;> simp [noPrinting, Phase.holds]
  order := rfl

section

variable (hinv : state.Inv nodes)
include hinv

theorem move {joblock : Option Thread}
    (hsame : next.adds = (state.phase thread).adds ∧ next.hand = (state.phase thread).hand)
    (hsynced : Synced (update state.phase thread next) joblock (nodes ≠ [])) :
    Inv { state.goto thread next with joblock := joblock } nodes := by
  have hhand : (update state.phase thread next .printer).hand = (state.phase .printer).hand := by
    rw [update_apply]
    split
    next heq => rw [heq, hsame.2]
    next => rfl
  refine ⟨hinv.holds, hinv.owned.move hsame, hsynced, ?_⟩
  rw [@hand_congr _ state _ ?_ ?_]
  · exact hinv.order
  · exact hhand
  · exact fun _ _ => rfl

theorem call {tid : Nat} {prev : Option Nat} {job : Job Req}
    (hphase : state.phase (.client tid) = .idle) (hfresh : state.queue.store jp = none) :
    Inv { state.goto (.client tid) (.adding jp) with
      queue := state.queue.newJob jp prev job } nodes := by
  have hout : jp ∉ nodes.map Prod.fst := hinv.holds.not_mem hfresh
  have hsynced : Synced (update state.phase (.client tid) (.adding jp)) state.joblock
      (nodes ≠ []) :=
    hinv.synced.client (congrArg Phase.holds hphase).symm fun _ => congrArg Phase.signals hphase
  refine ⟨hinv.holds.newJob hout prev job, hinv.owned.call hfresh hout prev job, hsynced, ?_⟩
  rw [@hand_congr _ state _ ?_ ?_]
  · exact hinv.order
  · rfl
  · intro other hother
    obtain ⟨_, node, hnode⟩ := hinv.owned.hand other hother
    apply Store.put_of_ne
    rintro rfl
    cases hfresh.symm.trans hnode

theorem add {tid : Nat} (hphase : state.phase (.client tid) = .linking jp) :
    ∃ queue node, state.queue.addJob jp = some queue ∧ state.queue.store jp = some node ∧
      Inv { state.goto (.client tid) .linked with
        queue := queue
        added := state.added ++ [node.value] } (nodes ++ [(jp, node.value)]) := by
  have hadds : (state.phase (.client tid)).adds = some jp := congrArg Phase.adds hphase
  obtain ⟨hout, prev, job, hnode⟩ := hinv.owned.adds _ jp hadds
  obtain ⟨queue, hcall, hholds, hsame⟩ := hinv.holds.addJob hout hnode
  have hkeep : ∀ other, other ≠ jp → other ∉ nodes.map Prod.fst →
      other ∉ (nodes ++ [(jp, job)]).map Prod.fst ∧
        queue.store other = state.queue.store other := by
    intro other hne hother
    have hmem : other ∉ (nodes ++ [(jp, job)]).map Prod.fst := by
      rw [List.map_append, List.mem_append, List.map_singleton, List.mem_singleton]
      exact not_or.mpr ⟨hother, hne⟩
    exact ⟨hmem, hsame other hmem⟩
  refine ⟨queue, _, hcall, hnode, hholds, hinv.owned.letGo (.inl hadds) rfl rfl hkeep,
    hinv.synced.add hphase, ?_⟩
  rw [@hand_congr _ state _ ?_ ?_, List.map_append, ← List.append_assoc]
  · exact congrArg (· ++ [job]) hinv.order
  · rfl
  · intro other hother
    refine (hkeep other ?_ (hinv.owned.hand other hother).1).2
    rintro rfl
    exact hinv.owned.apart _ _ hadds hother

theorem pick (hphase : state.phase .printer = .picking) :
    ∃ jp job rest queue, nodes = (jp, job) :: rest ∧ state.queue.jobhead = some jp ∧
      state.queue.removeJob jp = some queue ∧
      Inv { state.goto .printer (.picked jp) with queue := queue } rest := by
  cases nodes with
  | nil => exact absurd rfl (hinv.synced.picking hphase)
  | cons first rest =>
    obtain ⟨jp, job⟩ := first
    obtain ⟨queue, hcall, hholds, ⟨node, hnode, hvalue⟩, hsame⟩ :=
      @JobQueue.Holds.removeJob _ _ _ [] rest job hinv.holds
    have hsynced : Synced (update state.phase .printer (.picked jp)) state.joblock
        (rest ≠ []) :=
      hinv.synced.printer (congrArg Phase.holds hphase).symm nofun nofun nofun
    refine ⟨jp, job, rest, queue, rfl, hinv.holds.head, hcall, hholds,
      hinv.owned.pick hinv.holds.listed.nodup hnode hsame, hsynced, hinv.order.trans ?_⟩
    rw [hand_of_none (congrArg Phase.hand hphase), @hand_of_some _ _ jp node ?_ hnode, hvalue,
      List.append_nil, List.append_assoc]
    · rfl
    · exact congrArg Phase.hand (state.goto_self .printer (.picked jp))

theorem letGo (hhand : (state.phase .printer).hand = some jp)
    (hnext : next.holds = (state.phase .printer).holds ∧ next.adds = none ∧
      next.hand = none ∧ next ≠ .empty ∧ next ≠ .picking ∧ next ≠ .waiting) {queue : JobQueue Req}
    {nodes' : List (Nat × Job Req)} (hholds : queue.Holds nodes')
    (hkeep : ∀ other, other ≠ jp → other ∉ nodes.map Prod.fst →
      other ∉ nodes'.map Prod.fst ∧ queue.store other = state.queue.store other)
    {finished : List (Job Req)} (horder : state.added = finished ++ nodes'.map Prod.snd) :
    Inv { state.goto .printer next with queue := queue, finished := finished } nodes' := by
  refine ⟨hholds, hinv.owned.letGo (.inr ⟨rfl, hhand⟩) hnext.2.1 hnext.2.2.1 hkeep,
    hinv.synced.printer hnext.1 (fun h => absurd h hnext.2.2.2.1)
      (fun h => absurd h hnext.2.2.2.2.1) hnext.2.2.2.2.2, ?_⟩
  rw [hand_of_none, List.append_nil]
  · exact horder
  · exact (congrArg Phase.hand (state.goto_self .printer next)).trans hnext.2.2.1

theorem finish (hphase : state.phase .printer = .printing jp)
    {node : Node Nat (Job Req)} (hnode : state.queue.store jp = some node) :
    Inv { state.goto .printer .starting with
      queue := { state.queue with store := state.queue.store.free jp }
      finished := state.finished ++ [node.value] } nodes := by
  have hhand : (state.phase .printer).hand = some jp := congrArg Phase.hand hphase
  obtain ⟨hout, _⟩ := hinv.owned.hand jp hhand
  refine hinv.letGo hhand ?_ (hinv.holds.free hout) ?_ ?_
  · rw [hphase]
    exact ⟨rfl, rfl, rfl, by decide⟩
  · exact fun other hne hother => ⟨hother, Store.free_of_ne _ hne⟩
  · rw [← hand_of_some hhand hnode]
    exact hinv.order

theorem replace (hphase : state.phase .printer = .replacing jp) :
    ∃ queue nodes', state.queue.replaceJob jp = some queue ∧
      Inv { state.goto .printer .replaced with queue := queue } nodes' := by
  have hhand : (state.phase .printer).hand = some jp := congrArg Phase.hand hphase
  obtain ⟨hout, ⟨next, prev, job⟩, hnode⟩ := hinv.owned.hand jp hhand
  obtain ⟨queue, hcall, hholds, hsame⟩ := hinv.holds.replaceJob hout hnode
  refine ⟨queue, _, hcall, hinv.letGo hhand ?_ hholds ?_ ?_⟩
  · rw [hphase]
    exact ⟨rfl, rfl, rfl, by decide⟩
  · intro other hne hother
    have hmem : other ∉ ((jp, job) :: nodes).map Prod.fst := by
      rw [List.map_cons, List.mem_cons]
      exact not_or.mpr ⟨hne, hother⟩
    exact ⟨hmem, hsame other hmem⟩
  · refine hinv.order.trans ?_
    rw [hand_of_some hhand hnode, List.append_assoc]
    rfl

theorem step {state' : Printing Req} (hstep : QueueStep state state') :
    ∃ nodes', state'.Inv nodes' := by
  cases hstep with
  | call hphase hfresh => exact ⟨nodes, hinv.call hphase hfresh⟩
  | lock hphase hfree =>
    exact ⟨nodes, hinv.move (Phase.lock_jobs hphase) (hinv.synced.takeLock hfree hphase)⟩
  | unlock hphase =>
    exact ⟨nodes, hinv.move (Phase.unlock_jobs hphase) (hinv.synced.releaseLock hphase)⟩
  | add hphase hnode hcall =>
    obtain ⟨queue, node, hcall', hnode', hinv'⟩ := hinv.add hphase
    cases hcall.symm.trans hcall'
    cases hnode.symm.trans hnode'
    exact ⟨_, hinv'⟩
  | signal hphase =>
    have hwoken := hinv.move (Phase.wake_jobs _) hinv.synced.wake
    have hclient := (state.goto_client _ (state.phase .printer).wake).trans hphase
    refine ⟨nodes, hwoken.move ?_ (hwoken.synced.client ?_ ?_)⟩
    · rw [hclient]
      exact ⟨rfl, rfl⟩
    · exact (congrArg Phase.holds hclient).symm
    · intro hwaiting
      exact absurd ((state.goto_self ..).symm.trans hwaiting) (Phase.wake_ne_waiting _)
  | wakeup hphase =>
    have hwoken := hinv.move (Phase.wake_jobs _) hinv.synced.wake
    rw [hphase] at hwoken
    exact ⟨nodes, hwoken⟩
  | test hphase =>
    refine ⟨nodes, hinv.move ?_ (hinv.synced.printer ?_ ?_ ?_ ?_)⟩
    · rw [hphase]
      split <;> exact ⟨rfl, rfl⟩
    · rw [hphase]
      split <;> rfl
    · intro hempty
      split at hempty
      next hnone => exact not_not.mpr (hinv.holds.head_eq_none.mp hnone)
      next => cases hempty
    · intro hpicking
      split at hpicking
      next => cases hpicking
      next hsome => exact fun hnil => hsome (hinv.holds.head_eq_none.mpr hnil)
    · split <;> rintro ⟨⟩
  | pick hphase hhead hcall =>
    obtain ⟨jp, job, rest, queue, _, hhead', hcall', hinv'⟩ := hinv.pick hphase
    cases hhead.symm.trans hhead'
    cases hcall.symm.trans hcall'
    exact ⟨rest, hinv'⟩
  | finish hphase hnode => exact ⟨nodes, hinv.finish hphase hnode⟩
  | defer hphase =>
    refine ⟨nodes, hinv.move ?_
      (hinv.synced.printer (congrArg Phase.holds hphase).symm nofun nofun nofun)⟩
    rw [hphase]
    exact ⟨rfl, rfl⟩
  | replace hphase hcall =>
    obtain ⟨queue, nodes', hcall', hinv'⟩ := hinv.replace hphase
    cases hcall.symm.trans hcall'
    exact ⟨nodes', hinv'⟩

end

theorem of_reaches (hreaches : QueueReaches state) : ∃ nodes, state.Inv nodes := by
  refine @Reaches.invariant _ _ _ (fun state => ∃ nodes, state.Inv nodes) ?_ ?_ _ hreaches
  · rintro _ rfl
    exact ⟨[], .start⟩
  · rintro state state' ⟨nodes, hinv⟩ hstep
    exact hinv.step hstep

end Inv

end Printing

/-- No thread follows a pointer to a freed job. -/
theorem queue_calls_succeed {state : Printing Req} (hreaches : QueueReaches state) :
    (∀ tid jp, state.phase (.client tid) = .linking jp →
      ∃ queue, state.queue.addJob jp = some queue) ∧
    (state.phase .printer = .picking →
      ∃ jp queue, state.queue.jobhead = some jp ∧ state.queue.removeJob jp = some queue) ∧
    (∀ jp, (state.phase .printer).hand = some jp → ∃ node, state.queue.store jp = some node) ∧
    ∀ jp, state.phase .printer = .replacing jp →
      ∃ queue, state.queue.replaceJob jp = some queue := by
  obtain ⟨nodes, hinv⟩ := Printing.Inv.of_reaches hreaches
  refine ⟨?_, ?_, fun jp hjp => (hinv.owned.hand jp hjp).2, ?_⟩
  · intro tid jp hphase
    obtain ⟨queue, _, hcall, _⟩ := hinv.add hphase
    exact ⟨queue, hcall⟩
  · intro hphase
    obtain ⟨jp, _, _, queue, _, hhead, hcall, _⟩ := hinv.pick hphase
    exact ⟨jp, queue, hhead, hcall⟩
  · intro jp hphase
    obtain ⟨queue, _, hcall, _⟩ := hinv.replace hphase
    exact ⟨queue, hcall⟩

theorem queue_calls_succeed_linking : ∃ state : Printing Unit, QueueReaches state ∧
    state.phase (.client 0) = .linking 0 ∧ ∃ queue, state.queue.addJob 0 = some queue := by
  have hlocked : QueueReaches _ := .step (.step (.start rfl)
    (@QueueStep.call Unit noPrinting 0 0 none ⟨1, ()⟩ rfl rfl))
    (@QueueStep.lock Unit _ (.client 0) (.linking 0) rfl rfl)
  exact ⟨_, hlocked, rfl, (queue_calls_succeed hlocked).1 0 0 rfl⟩

/-- In every reachable state the jobs that have been appended are, in this order,
the finished ones, the one in the hand of the printer thread and the pending
ones.  When the printer thread waits although jobs are pending, some `add_job`
has its signal to send. -/
theorem jobs_kept_in_order {state : Printing Req} (hreaches : QueueReaches state) :
    ∃ nodes, state.queue.Holds nodes ∧
      state.added = state.finished ++ state.hand ++ nodes.map Prod.snd ∧
      (∀ jp, (state.phase .printer).hand = some jp → jp ∉ nodes.map Prod.fst) ∧
      (state.phase .printer = .waiting → state.queue.jobhead ≠ none →
        ∃ thread, (state.phase thread).signals = true) := by
  obtain ⟨nodes, hinv⟩ := Printing.Inv.of_reaches hreaches
  refine ⟨nodes, hinv.holds, hinv.order, fun jp hjp => (hinv.owned.hand jp hjp).1, ?_⟩
  intro hwaiting hpending
  exact hinv.synced.wakeup hwaiting fun hnil => hpending (hinv.holds.head_eq_none.mpr hnil)

/-- The printer thread waits, and `add_job` has appended a first job. -/
theorem jobs_kept_in_order_waiting :
    ∃ state : Printing Unit, QueueReaches state ∧ state.phase .printer = .waiting ∧
      state.queue.jobhead = some 0 ∧ ∃ nodes, state.queue.Holds nodes ∧
      state.added = state.finished ++ state.hand ++ nodes.map Prod.snd ∧
      (∀ jp, (state.phase .printer).hand = some jp → jp ∉ nodes.map Prod.fst) ∧
      (state.phase .printer = .waiting → state.queue.jobhead ≠ none →
        ∃ thread, (state.phase thread).signals = true) := by
  have hwait : QueueReaches _ := .step (.step (.step (.start rfl)
    (@QueueStep.lock Unit noPrinting .printer .testing rfl rfl)) (.test rfl))
    (@QueueStep.unlock Unit _ .printer .waiting rfl)
  have hadd : QueueReaches _ := .step (.step (.step hwait
    (@QueueStep.call Unit _ 0 0 none ⟨1, ()⟩ rfl rfl))
    (@QueueStep.lock Unit _ (.client 0) (.linking 0) rfl rfl))
    (@QueueStep.add Unit _ 0 0 ⟨none, none, ⟨1, ()⟩⟩ _ rfl rfl rfl)
  exact ⟨_, hadd, rfl, rfl, jobs_kept_in_order hadd⟩

end ApueFormal.Printer
