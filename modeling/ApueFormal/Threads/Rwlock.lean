import ApueFormal.Program.Links
import ApueFormal.Program.System

/-!
# The job queue behind a reader-writer lock

`rwlock.c` keeps jobs in a doubly linked queue.  Jobs are put in at both ends and
taken out anywhere; each job says which thread is to handle it.
-/

namespace ApueFormal.Rwlock

open Program

/-- A `pthread_rwlock_t`. -/
inductive RwLock where
  | free
  | shared (readers : Nat)
  | exclusive
  deriving DecidableEq

/-- The number of readers at which the lock refuses another one. -/
def maxReaders : Nat := 0x7ffffffe

def eagain : Int := 11

/-- `pthread_rwlock_rdlock`: what it returns, or nothing while it waits. -/
def RwLock.rdlock : RwLock → Option (Int × RwLock)
  | free => some (0, shared 1)
  | shared readers =>
    if readers = maxReaders then some (eagain, shared readers)
    else some (0, shared (readers + 1))
  | exclusive => none

/-- `pthread_rwlock_wrlock`, which waits until the lock is free. -/
def RwLock.wrlock : RwLock → Option RwLock
  | free => some exclusive
  | shared _ => none
  | exclusive => none

def RwLock.unlock : RwLock → RwLock
  | shared (readers + 2) => shared (readers + 1)
  | _ => free

/-- What a `struct job` says about the job. -/
structure Job (Tid : Type) where
  jId : Tid
  deriving DecidableEq

/-- A `struct queue` and the jobs in memory. -/
structure Queue (Ptr Tid : Type) where
  store : Store Ptr (Job Tid)
  qHead : Option Ptr
  qTail : Option Ptr
  qLock : RwLock

variable {Ptr Tid : Type} [DecidableEq Ptr]

namespace Queue

def queueInit (queue : Queue Ptr Tid) : Queue Ptr Tid :=
  { queue with qHead := none, qTail := none, qLock := .free }

def jobInsert (jp : Ptr) (queue : Queue Ptr Tid) : Option (Queue Ptr Tid) := do
  let lock ← queue.qLock.wrlock
  let store ← queue.store.setNext jp queue.qHead
  let store ← store.setPrev jp none
  match queue.qHead with
  | some head =>
    let store ← store.setPrev head (some jp)
    some ⟨store, some jp, queue.qTail, lock.unlock⟩
  | none => some ⟨store, some jp, some jp, lock.unlock⟩

def jobAppend (jp : Ptr) (queue : Queue Ptr Tid) : Option (Queue Ptr Tid) := do
  let lock ← queue.qLock.wrlock
  let store ← queue.store.setNext jp none
  let store ← store.setPrev jp queue.qTail
  match queue.qTail with
  | some tail =>
    let store ← store.setNext tail (some jp)
    some ⟨store, queue.qHead, some jp, lock.unlock⟩
  | none => some ⟨store, some jp, some jp, lock.unlock⟩

def jobRemove (jp : Ptr) (queue : Queue Ptr Tid) : Option (Queue Ptr Tid) := do
  let lock ← queue.qLock.wrlock
  let node ← queue.store jp
  if queue.qHead = some jp then
    if queue.qTail = some jp then
      some ⟨queue.store, node.next, none, lock.unlock⟩
    else
      let next ← node.next
      let store ← queue.store.setPrev next node.prev
      some ⟨store, node.next, queue.qTail, lock.unlock⟩
  else if queue.qTail = some jp then
    let prev ← node.prev
    let store ← queue.store.setNext prev node.next
    some ⟨store, queue.qHead, node.prev, lock.unlock⟩
  else
    let prev ← node.prev
    let store ← queue.store.setNext prev node.next
    let node ← store jp
    let next ← node.next
    let store ← store.setPrev next node.prev
    some ⟨store, queue.qHead, queue.qTail, lock.unlock⟩

/-- `job_find`: the pointer it returns, and the queue with the lock given back. -/
def jobFind [DecidableEq Tid] (fuel : Nat) (id : Tid) (queue : Queue Ptr Tid) :
    Option (Option Ptr × Queue Ptr Tid) := do
  let (err, lock) ← queue.qLock.rdlock
  if err ≠ 0 then
    some (none, { queue with qLock := lock })
  else
    let jp ← queue.store.find (fun job => job.jId = id) fuel queue.qHead
    some (jp, { queue with qLock := lock.unlock })

/-- The queue holds these jobs, and nobody has the lock. -/
structure Holds (queue : Queue Ptr Tid) (jobs : List (Ptr × Job Tid)) : Prop where
  head : queue.qHead = firstOf jobs
  tail : queue.qTail = lastOf jobs
  lock : queue.qLock = .free
  listed : Listed queue.store jobs

variable {queue : Queue Ptr Tid} {jobs : List (Ptr × Job Tid)} {jp : Ptr}

omit [DecidableEq Ptr] in
theorem holds_queueInit (queue : Queue Ptr Tid) : queue.queueInit.Holds [] :=
  ⟨rfl, rfl, rfl, listed_nil queue.store⟩

variable {store : Store Ptr (Job Tid)}

omit [DecidableEq Ptr] in
theorem Holds.listed_set (hholds : queue.Holds jobs) (hout : jp ∉ jobs.map Prod.fst)
    (hsame : ∀ other, other ≠ jp → store other = queue.store other) : Listed store jobs := by
  refine ⟨hholds.listed.segment.congr fun node hmem => hsame node.1 ?_, hholds.listed.nodup⟩
  rintro rfl
  exact hout (List.mem_map_of_mem hmem)

theorem Holds.outside (hholds : queue.Holds jobs) (hout : jp ∉ jobs.map Prod.fst)
    (node : Option (Node Ptr (Job Tid))) :
    Holds { queue with store := Function.update queue.store jp node } jobs :=
  ⟨hholds.head, hholds.tail, hholds.lock,
    hholds.listed_set hout fun _ hne => Function.update_of_ne hne ..⟩

variable {node : Node Ptr (Job Tid)}

theorem set_links (hnode : store jp = some node) (next prev : Option Ptr) :
    ∃ store', (store.setNext jp next).bind (·.setPrev jp prev) = some store' ∧
      store' jp = some ⟨next, prev, node.value⟩ ∧
      ∀ other, other ≠ jp → store' other = store other := by
  refine ⟨(store.put jp { node with next := next }).put jp ⟨next, prev, node.value⟩, ?_,
    Store.put_self .., fun other hne => ?_⟩
  · rw [Store.setNext, hnode, Option.map_some, Option.bind_some, Store.setPrev, Store.put_self]
    rfl
  · rw [Store.put_of_ne _ hne, Store.put_of_ne _ hne]

theorem Holds.jobInsert (hholds : queue.Holds jobs) (hout : jp ∉ jobs.map Prod.fst)
    (hnode : queue.store jp = some node) :
    ∃ queue', queue.jobInsert jp = some queue' ∧ queue'.Holds ((jp, node.value) :: jobs) := by
  obtain ⟨store₁, hset, hjp, hsame⟩ := set_links hnode (firstOf jobs) none
  have hlisted := hholds.listed_set hout hsame
  obtain ⟨store₂, hlink, hlisted', _⟩ := hlisted.linkBack hjp hout
  refine ⟨⟨store₂, some jp, lastOf ((jp, node.value) :: jobs), .free⟩, ?_,
    ⟨rfl, rfl, rfl, hlisted'⟩⟩
  unfold Queue.jobInsert
  rw [hholds.lock, hholds.head, hholds.tail]
  simp only [RwLock.wrlock, Option.bind_eq_bind, Option.bind_some]
  rw [← Option.bind_assoc, hset, Option.bind_some]
  cases jobs with
  | nil =>
    cases hlink
    rfl
  | cons first rest =>
    have hlast : lastOf ((jp, node.value) :: first :: rest) = lastOf (first :: rest) := by
      simp [lastOf]
    rw [hlast]
    exact congrArg (Option.bind · _) hlink

theorem Holds.jobAppend (hholds : queue.Holds jobs) (hout : jp ∉ jobs.map Prod.fst)
    (hnode : queue.store jp = some node) :
    ∃ queue', queue.jobAppend jp = some queue' ∧ queue'.Holds (jobs ++ [(jp, node.value)]) := by
  obtain ⟨store₁, hset, hjp, hsame⟩ := set_links hnode none (lastOf jobs)
  have hlisted := hholds.listed_set hout hsame
  obtain ⟨store₂, hlink, hlisted', _⟩ := hlisted.linkOn hjp hout
  refine ⟨⟨store₂, firstOf (jobs ++ [(jp, node.value)]), some jp, .free⟩, ?_,
    ⟨rfl, (lastOf_snoc jobs (jp, node.value)).symm, rfl, hlisted'⟩⟩
  unfold Queue.jobAppend
  rw [hholds.lock, hholds.head, hholds.tail]
  simp only [RwLock.wrlock, Option.bind_eq_bind, Option.bind_some]
  rw [← Option.bind_assoc, hset, Option.bind_some, firstOf_append]
  rcases List.eq_nil_or_concat jobs with rfl | ⟨front, last, rfl⟩
  · cases hlink
    rfl
  · rw [List.concat_eq_append] at hlink ⊢
    rw [lastOf_snoc] at hlink ⊢
    have hfirst : (firstOf (front ++ [last])).or (some jp) = firstOf (front ++ [last]) := by
      cases front <;> rfl
    simp only [firstOf_cons, hfirst]
    exact congrArg (Option.bind · _) hlink

variable {job : Job Tid}

omit [DecidableEq Ptr] in
theorem Holds.head_eq_iff {before after : List (Ptr × Job Tid)}
    (hholds : queue.Holds (before ++ (jp, job) :: after)) :
    queue.qHead = some jp ↔ before = [] := by
  rw [hholds.head]
  cases before with
  | nil => simp
  | cons first rest =>
    have hout := hholds.listed.around.2.2.2.1
    rw [List.cons_append, firstOf_cons, Option.some.injEq]
    refine ⟨?_, nofun⟩
    rintro rfl
    exact absurd List.mem_cons_self hout

omit [DecidableEq Ptr] in
theorem Holds.tail_eq_iff {before after : List (Ptr × Job Tid)}
    (hholds : queue.Holds (before ++ (jp, job) :: after)) :
    queue.qTail = some jp ↔ after = [] := by
  rw [hholds.tail]
  rcases List.eq_nil_or_concat after with rfl | ⟨front, last, rfl⟩
  · simp
  · have hout := hholds.listed.around.2.2.2.1
    rw [List.concat_eq_append, ← List.cons_append, ← List.append_assoc, lastOf_snoc,
      Option.some.injEq]
    refine ⟨?_, fun hnil => absurd hnil (by simp)⟩
    rintro rfl
    exact absurd (by simp) hout

theorem Holds.jobRemove {before after : List (Ptr × Job Tid)}
    (hholds : queue.Holds (before ++ (jp, job) :: after)) :
    ∃ queue', queue.jobRemove jp = some queue' ∧ queue'.Holds (before ++ after) := by
  have hfirst := hholds.head_eq_iff
  have hlast := hholds.tail_eq_iff
  obtain ⟨hnode, hbefore, hafter, hout, hnodup⟩ := hholds.listed.around
  rw [List.map_append, List.mem_append, not_or] at hout
  have hparts := List.nodup_append.mp (List.map_append ▸ hnodup)
  unfold Queue.jobRemove
  simp only [hholds.lock, RwLock.wrlock, hnode, Option.bind_eq_bind, Option.bind_some, hfirst,
    hlast]
  rcases List.eq_nil_or_concat before with rfl | ⟨front, last, rfl⟩
  · rw [if_pos rfl]
    cases after with
    | nil => exact ⟨_, rfl, rfl, rfl, rfl, listed_nil _⟩
    | cons first rest =>
      obtain ⟨store', hset, hsegment, _⟩ := hafter.setPrev hparts.2.1 none
      rw [if_neg (by simp), firstOf_cons, Option.bind_some, lastOf_nil, hset, Option.bind_some]
      refine ⟨_, rfl, rfl, ?_, rfl, hsegment, hparts.2.1⟩
      rw [hholds.tail]
      simp [lastOf]
  · rw [List.concat_eq_append] at *
    rw [if_neg (by simp), lastOf_snoc]
    obtain ⟨store₁, hset₁, hsegment₁, hsame₁⟩ := hbefore.setNext hparts.1 (firstOf after)
    have hother : ∀ other, other ∉ (front ++ [last]).map Prod.fst →
        store₁ other = queue.store other := by
      refine fun other hmem => hsame₁ other ?_
      rintro rfl
      exact hmem (by simp)
    have hafter₁ : Segment store₁ none (some jp) after :=
      hafter.congr fun node hmem => hother node.1 fun hmem' =>
        hparts.2.2 _ hmem' _ (List.mem_map_of_mem hmem) rfl
    cases after with
    | nil =>
      rw [if_pos rfl, Option.bind_some, hset₁, Option.bind_some]
      refine ⟨_, rfl, ?_, ?_, rfl, listed_append hsegment₁ trivial hnodup⟩
      · rw [hholds.head]
        cases front <;> rfl
      · simp
    | cons first rest =>
      obtain ⟨store₂, hset₂, hsegment₂, hsame₂⟩ := hafter₁.setPrev hparts.2.1 (some last.1)
      have hbefore₂ : Segment store₂ (firstOf (first :: rest)) none (front ++ [last]) := by
        refine hsegment₁.congr fun node hmem => hsame₂ node.1 ?_
        rintro hnode'
        exact hparts.2.2 _ (List.mem_map_of_mem hmem) _ List.mem_cons_self hnode'
      rw [if_neg (by simp), Option.bind_some, hset₁, Option.bind_some, hother jp hout.1, hnode,
        Option.bind_some, firstOf_cons, Option.bind_some, lastOf_snoc, hset₂, Option.bind_some]
      refine ⟨_, rfl, ?_, ?_, rfl, listed_append hbefore₂ (by rwa [lastOf_snoc]) hnodup⟩
      · rw [hholds.head]
        cases front <;> rfl
      · rw [hholds.tail]
        simp [lastOf]

omit [DecidableEq Ptr] in
theorem Holds.jobFind [DecidableEq Tid] (hholds : queue.Holds jobs) (id : Tid) {fuel : Nat}
    (hfuel : jobs.length < fuel) :
    queue.jobFind fuel id =
      some ((jobs.find? fun entry => entry.2.jId = id).map Prod.fst, queue) := by
  have hfind : queue.store.find (fun job => job.jId = id) fuel queue.qHead =
      some ((jobs.find? fun entry => entry.2.jId = id).map Prod.fst) := by
    rw [hholds.head]
    exact hholds.listed.segment.find_eq _ hfuel
  have hlock := hholds.lock
  obtain ⟨store, qHead, qTail, qLock⟩ := queue
  subst hlock
  simp only [Queue.jobFind, RwLock.rdlock, Option.bind_eq_bind, Option.bind_some]
  rw [if_neg (by simp), hfind]
  rfl

end Queue

/-- One call on the queue, or a change of memory that is not in it. -/
inductive Call (Ptr Tid : Type) where
  | insert (jp : Ptr) (job : Job Tid)
  | append (jp : Ptr) (job : Job Tid)
  | remove (jp : Ptr)
  /-- A job outside the queue is allocated, written or freed. -/
  | outside (jp : Ptr) (node : Option (Node Ptr (Job Tid)))

namespace Call

/-- What the code does; it fails at a pointer that leads to no job. -/
def run (queue : Queue Ptr Tid) : Call Ptr Tid → Option (Queue Ptr Tid)
  | insert jp _ => queue.jobInsert jp
  | append jp _ => queue.jobAppend jp
  | remove jp => queue.jobRemove jp
  | outside jp node => some { queue with store := Function.update queue.store jp node }

def effect (jobs : List (Ptr × Job Tid)) : Call Ptr Tid → List (Ptr × Job Tid)
  | insert jp job => (jp, job) :: jobs
  | append jp job => jobs ++ [(jp, job)]
  | remove jp => without jp jobs
  | outside _ _ => jobs

/-- The job is in memory and not in the queue; only a job of the queue is removed. -/
def Allowed (queue : Queue Ptr Tid) (jobs : List (Ptr × Job Tid)) : Call Ptr Tid → Prop
  | insert jp job | append jp job =>
    jp ∉ jobs.map Prod.fst ∧ ∃ node, queue.store jp = some node ∧ node.value = job
  | remove jp => jp ∈ jobs.map Prod.fst
  | outside jp _ => jp ∉ jobs.map Prod.fst

theorem run_holds {queue : Queue Ptr Tid} {jobs : List (Ptr × Job Tid)}
    (hholds : queue.Holds jobs) {call : Call Ptr Tid} (hallowed : call.Allowed queue jobs) :
    ∃ queue', call.run queue = some queue' ∧ queue'.Holds (call.effect jobs) := by
  cases call with
  | insert jp job =>
    obtain ⟨hout, node, hnode, rfl⟩ := hallowed
    exact hholds.jobInsert hout hnode
  | append jp job =>
    obtain ⟨hout, node, hnode, rfl⟩ := hallowed
    exact hholds.jobAppend hout hnode
  | remove jp =>
    obtain ⟨⟨_, job⟩, hmem, rfl⟩ := List.mem_map.mp hallowed
    obtain ⟨before, after, rfl⟩ := List.append_of_mem hmem
    obtain ⟨queue', hrun, hholds'⟩ := hholds.jobRemove
    refine ⟨queue', hrun, ?_⟩
    rwa [effect, without_middle hholds.listed.nodup]
  | outside jp node => exact ⟨_, rfl, hholds.outside hallowed node⟩

end Call

/-- The queue next to the sequence it stands for. -/
structure Deque (Ptr Tid : Type) where
  queue : Queue Ptr Tid
  jobs : List (Ptr × Job Tid)

namespace Deque

def Start (deque : Deque Ptr Tid) : Prop :=
  ∃ queue : Queue Ptr Tid, deque = ⟨queue.queueInit, []⟩

def Step (deque deque' : Deque Ptr Tid) : Prop :=
  ∃ call : Call Ptr Tid, call.Allowed deque.queue deque.jobs ∧
    call.run deque.queue = some deque'.queue ∧ deque'.jobs = call.effect deque.jobs

variable {deque : Deque Ptr Tid}

theorem next (hreaches : Reaches Start Step deque) (call : Call Ptr Tid)
    (hallowed : call.Allowed deque.queue deque.jobs) {queue' : Queue Ptr Tid}
    (hrun : call.run deque.queue = some queue') :
    Reaches Start Step ⟨queue', call.effect deque.jobs⟩ :=
  .step hreaches ⟨call, hallowed, hrun, rfl⟩

theorem holds (hreaches : Reaches Start Step deque) : deque.queue.Holds deque.jobs := by
  refine @Reaches.invariant _ _ _ (fun deque => deque.queue.Holds deque.jobs) ?_ ?_ _ hreaches
  · rintro _ ⟨queue, rfl⟩
    exact queue.holds_queueInit
  · rintro ⟨queue, jobs⟩ ⟨queue', jobs'⟩ hholds ⟨call, hallowed, hrun, rfl⟩
    obtain ⟨queue'', hrun', hholds'⟩ := call.run_holds hholds hallowed
    cases hrun.symm.trans hrun'
    exact hholds'

end Deque

/-- The queue is the sequence of its jobs under insertion at the front, append and
removal, read from both ends; `job_find` searches it from the front, and no call meets
a bad pointer or waits for the lock. -/
theorem rwlock_queue_faithful [DecidableEq Tid] {deque : Deque Ptr Tid}
    (hreaches : Reaches Deque.Start Deque.Step deque) :
    (∀ fuel, deque.jobs.length < fuel →
      deque.queue.store.follow Node.next fuel deque.queue.qHead = some deque.jobs ∧
        deque.queue.store.follow Node.prev fuel deque.queue.qTail = some deque.jobs.reverse ∧
        ∀ id, deque.queue.jobFind fuel id =
          some ((deque.jobs.find? fun entry => entry.2.jId = id).map Prod.fst, deque.queue)) ∧
      (deque.queue.qHead = none ↔ deque.jobs = []) ∧ (deque.queue.qTail = none ↔ deque.jobs = []) ∧
      (deque.jobs.map Prod.fst).Nodup ∧ ∀ call : Call Ptr Tid, call.Allowed deque.queue deque.jobs →
        ∃ queue', call.run deque.queue = some queue' := by
  have hholds := Deque.holds hreaches
  refine ⟨fun fuel hfuel => ⟨?_, ?_, fun id => hholds.jobFind id hfuel⟩, ?_, ?_,
    hholds.listed.nodup, ?_⟩
  · rw [hholds.head]
    exact hholds.listed.segment.follow_next hfuel
  · rw [hholds.tail]
    exact hholds.listed.segment.follow_prev hfuel
  · rw [hholds.head, firstOf, List.head?_eq_none_iff, List.map_eq_nil_iff]
  · rw [hholds.tail, lastOf, List.getLast?_eq_none_iff, List.map_eq_nil_iff]
  · intro call hallowed
    obtain ⟨queue', hrun, _⟩ := call.run_holds hholds hallowed
    exact ⟨queue', hrun⟩

/-- Two jobs of one thread; the one in front is found. -/
theorem rwlock_queue_faithful_two : ∃ deque : Deque Nat Nat,
    Reaches Deque.Start Deque.Step deque ∧ deque.jobs.map Prod.fst = [2, 1] ∧
      deque.queue.jobFind 3 7 = some (some 2, deque.queue) := by
  let memory : Queue Nat Nat := ⟨fun _ => some ⟨some 5, some 6, ⟨7⟩⟩, some 3, some 4, .free⟩
  have hstart : Reaches Deque.Start Deque.Step ⟨memory.queueInit, []⟩ := .start ⟨memory, rfl⟩
  have hfirst := Deque.next hstart (.append 1 ⟨7⟩) ⟨by decide, _, rfl, rfl⟩ rfl
  have hsecond := Deque.next hfirst (.insert 2 ⟨7⟩) ⟨by decide, _, rfl, rfl⟩ rfl
  have hthird := Deque.next hsecond (.append 3 ⟨7⟩) ⟨by decide, _, rfl, rfl⟩ rfl
  have hfourth := Deque.next hthird (.remove 3) (show 3 ∈ [2, 1, 3] by decide) rfl
  exact ⟨_, hfourth, rfl, ((rwlock_queue_faithful hfourth).1 3 (by decide)).2.2 7⟩

end ApueFormal.Rwlock
