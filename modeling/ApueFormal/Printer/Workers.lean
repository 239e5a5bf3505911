import ApueFormal.Program.Links
import ApueFormal.Program.System

/-!
# The worker threads of the print daemon

`add_worker` puts a client thread on the list of workers, `client_cleanup` takes
it off again and `kill_workers` cancels the threads on the list.  Each of them
works under `workerlock`.
-/

namespace ApueFormal.Printer

open Program

/-- What a `struct worker_thread` says about its thread. -/
structure Worker where
  tid : Nat
  sockfd : Int
  deriving DecidableEq

/-- The allocated entries and the variable `workers`. -/
structure Workers where
  store : Store Nat Worker
  workers : Option Nat

/-- `add_worker`, with the pointer that `malloc` has returned. -/
def addWorker (wtp : Nat) (tid : Nat) (sockfd : Int) (list : Workers) : Option Workers :=
  let store := list.store.put wtp ⟨list.workers, none, ⟨tid, sockfd⟩⟩
  match list.workers with
  | none => some ⟨store, some wtp⟩
  | some head => (store.setPrev head (some wtp)).map fun store => ⟨store, some head⟩

/-- `kill_workers`: the threads that are cancelled. -/
def killWorkers (fuel : Nat) (list : Workers) : Option (List Nat) :=
  (list.store.walk fuel list.workers).map fun workers => workers.map Worker.tid

/-- `client_cleanup`, with the entry that it has freed. -/
def clientCleanup (fuel : Nat) (tid : Nat) (list : Workers) : Option (Workers × Option Worker) := do
  let found ← list.store.find (fun worker => worker.tid == tid) fuel list.workers
  match found with
  | none => some (list, none)
  | some wtp =>
    let node ← list.store wtp
    let store ← list.store.unlink wtp
    let workers := if node.prev = none then node.next else list.workers
    some (⟨store.free wtp, workers⟩, some node.value)

/-- The list, and the threads that have been added and not cleaned up. -/
structure WorkerState where
  list : Workers
  running : List Worker

/-- The calls of client threads, restricted by a condition on the list before a
thread is added. -/
inductive WorkerStep (condition : Workers → Prop) : WorkerState → WorkerState → Prop where
  | add {state : WorkerState} {wtp tid : Nat} {sockfd : Int} {list : Workers}
      (hfresh : state.list.store wtp = none)
      (hnew : tid ∉ state.running.map Worker.tid) (hcondition : condition state.list)
      (hcall : addWorker wtp tid sockfd state.list = some list) :
      WorkerStep condition state ⟨list, ⟨tid, sockfd⟩ :: state.running⟩
  | cleanup {state : WorkerState} {fuel tid : Nat} {list : Workers}
      {freed : Option Worker} (hrunning : tid ∈ state.running.map Worker.tid)
      (hcall : clientCleanup fuel tid state.list = some (list, freed)) :
      WorkerStep condition state ⟨list, state.running.filter fun worker => worker.tid != tid⟩

def noWorkers : WorkerState := ⟨⟨fun _ => none, none⟩, []⟩

abbrev WorkerReaches (condition : Workers → Prop) : WorkerState → Prop :=
  Reaches (fun state => state = noWorkers) (WorkerStep condition)

/-- The list from `workers` on is doubly linked and holds one entry for each
running thread. -/
def Tracks (state : WorkerState) : Prop :=
  ∃ nodes, state.list.workers = firstOf nodes ∧ Listed state.list.store nodes ∧
    (nodes.map Prod.snd).Perm state.running

variable {list : Workers} {worker : Worker}

theorem clientCleanup_listed {before after : List (Nat × Worker)} {wtp : Nat}
    (hhead : list.workers = firstOf (before ++ (wtp, worker) :: after))
    (hlisted : Listed list.store (before ++ (wtp, worker) :: after))
    (hbefore : ∀ node ∈ before, node.2.tid ≠ worker.tid) {fuel : Nat}
    (hfuel : (before ++ (wtp, worker) :: after).length < fuel) :
    ∃ store, clientCleanup fuel worker.tid list =
        some (⟨store, firstOf (before ++ after)⟩, some worker) ∧
      Listed store (before ++ after) := by
  have hfind : list.store.find (fun other => other.tid == worker.tid) fuel
      (firstOf (before ++ (wtp, worker) :: after)) = some (some wtp) := by
    rw [hlisted.segment.find_eq _ hfuel, List.find?_append, List.find?_eq_none.mpr]
    · simp
    · simpa using hbefore
  obtain ⟨hnode, _, _, hout, _⟩ := hlisted.around
  obtain ⟨store, hunlink, hrest, _, _⟩ := hlisted.unlink
  refine ⟨store.free wtp, ?_, hrest.segment.free hout, hrest.nodup⟩
  unfold clientCleanup
  rw [hhead, hfind]
  simp only [Option.bind_eq_bind, Option.bind_some, hnode, hunlink]
  rw [firstOf_middle]

theorem split_running {nodes : List (Nat × Worker)} {running : List Worker}
    (hperm : (nodes.map Prod.snd).Perm running) (hnodup : (running.map Worker.tid).Nodup)
    (hmem : worker ∈ running) :
    ∃ before wtp after, nodes = before ++ (wtp, worker) :: after ∧
      (∀ node ∈ before, node.2.tid ≠ worker.tid) ∧ ((before ++ after).map Prod.snd).Perm
        (running.filter fun other => other.tid != worker.tid) := by
  obtain ⟨⟨wtp, worker⟩, hnode, rfl⟩ := List.mem_map.mp (hperm.mem_iff.mpr hmem)
  obtain ⟨before, after, rfl⟩ := List.append_of_mem hnode
  have htids := (hperm.map Worker.tid).nodup_iff.mpr hnodup
  rw [List.map_append, List.map_append, List.map_cons, List.map_cons, List.nodup_middle,
    List.nodup_cons, ← List.map_append, ← List.map_append, List.map_map] at htids
  have hother : ∀ node ∈ before ++ after, node.2.tid ≠ worker.tid := by
    intro node hmem' heq
    exact htids.1 (List.mem_map.mpr ⟨node, hmem', heq⟩)
  refine ⟨before, wtp, after, rfl, fun node hmem' =>
    hother node (List.mem_append_left _ hmem'), ?_⟩
  have hfilter := hperm.filter fun other => other.tid != worker.tid
  rw [List.map_append, List.map_cons, List.filter_append,
    List.filter_cons_of_neg (by simp), ← List.filter_append, ← List.map_append,
    List.filter_eq_self.mpr] at hfilter
  · exact hfilter
  · intro other hmem'
    obtain ⟨node, hnode', rfl⟩ := List.mem_map.mp hmem'
    simpa using hother node hnode'

theorem clientCleanup_le {tid fuel more : Nat} {result : Workers × Option Worker}
    (hcall : clientCleanup fuel tid list = some result) (hle : fuel ≤ more) :
    clientCleanup more tid list = some result := by
  unfold clientCleanup at hcall ⊢
  obtain ⟨found, hfind, hrest⟩ := Option.bind_eq_some_iff.mp hcall
  rw [list.store.find_le hfind hle]
  exact hrest

variable {state : WorkerState}

theorem Tracks.cleanup (htracks : Tracks state) (hnodup : (state.running.map Worker.tid).Nodup)
    (hmem : worker ∈ state.running) :
    ∃ list, (∃ fuel, clientCleanup fuel worker.tid state.list = some (list, some worker)) ∧
      (∀ fuel result, clientCleanup fuel worker.tid state.list = some result →
        result = (list, some worker)) ∧
      Tracks ⟨list, state.running.filter fun other => other.tid != worker.tid⟩ := by
  obtain ⟨nodes, hhead, hlisted, hperm⟩ := htracks
  obtain ⟨before, wtp, after, rfl, hbefore, hrest⟩ := split_running hperm hnodup hmem
  obtain ⟨store, hcall, hlisted'⟩ := clientCleanup_listed hhead hlisted hbefore (Nat.lt_succ_self _)
  refine ⟨_, ⟨_, hcall⟩, ?_, _, rfl, hlisted', hrest⟩
  intro fuel result hother
  have hmax := clientCleanup_le hcall (Nat.le_max_left _ fuel)
  rw [clientCleanup_le hother (Nat.le_max_right _ fuel)] at hmax
  exact Option.some.inj hmax

theorem Tracks.add (htracks : Tracks state) (hempty : state.list.workers = none) {wtp tid : Nat}
    {sockfd : Int} {list : Workers} (hcall : addWorker wtp tid sockfd state.list = some list) :
    Tracks ⟨list, ⟨tid, sockfd⟩ :: state.running⟩ := by
  obtain ⟨nodes, hhead, hlisted, hperm⟩ := htracks
  rw [hempty] at hhead
  cases nodes with
  | cons node rest => cases hhead
  | nil =>
    rw [List.perm_nil.mp hperm.symm]
    rw [addWorker, hempty] at hcall
    cases hcall
    refine ⟨[(wtp, ⟨tid, sockfd⟩)], rfl, ⟨⟨?_, trivial⟩, List.nodup_singleton _⟩, .refl _⟩
    exact Store.put_self ..

/-- A thread that is added to a list with entries gets lost: `workers` still
points to the old first entry. -/
theorem not_tracks_add {wtp tid head : Nat} (hhead : state.list.workers = some head) {sockfd : Int}
    (hcall : addWorker wtp tid sockfd state.list = some list) (running : List Worker) :
    ¬ Tracks ⟨list, running⟩ := by
  rw [addWorker, hhead] at hcall
  obtain ⟨store, hset, rfl⟩ := Option.map_eq_some_iff.mp hcall
  obtain ⟨node, _, rfl⟩ := Option.map_eq_some_iff.mp hset
  rintro ⟨nodes, hfirst, hlisted, _⟩
  cases nodes with
  | nil => cases hfirst
  | cons first rest =>
    cases Option.some.inj hfirst
    have hprev := congrArg (Option.map Node.prev)
      ((Store.put_self ..).symm.trans hlisted.segment.1)
    cases hprev

/-- While threads are only added to an empty list, the list tracks the running
threads.  Adding a thread to a list with entries breaks it. -/
theorem worker_list_tracks {state : WorkerState}
    (hreaches : WorkerReaches (fun list => list.workers = none) state) :
    Tracks state ∧
    (∃ fuel tids, killWorkers fuel state.list = some tids ∧
      tids.Perm (state.running.map Worker.tid)) ∧
    (∀ worker ∈ state.running, ∃ fuel list,
      clientCleanup fuel worker.tid state.list = some (list, some worker)) ∧
    ∀ wtp tid sockfd list, addWorker wtp tid sockfd state.list = some list →
      (Tracks ⟨list, ⟨tid, sockfd⟩ :: state.running⟩ ↔ state.list.workers = none) := by
  have hinv : Tracks state ∧ (state.running.map Worker.tid).Nodup := by
    refine @Reaches.invariant _ _ _ (fun state => Tracks state ∧
      (state.running.map Worker.tid).Nodup) ?_ ?_ _ hreaches
    · rintro _ rfl
      exact ⟨⟨[], rfl, listed_nil _, .refl _⟩, List.nodup_nil⟩
    · rintro state _ ⟨htracks, hnodup⟩ hstep
      cases hstep with
      | add _ hnew hempty hcall =>
        exact ⟨htracks.add hempty hcall, List.nodup_cons.mpr ⟨hnew, hnodup⟩⟩
      | cleanup hrunning hcall =>
        obtain ⟨worker, hmem, rfl⟩ := List.mem_map.mp hrunning
        obtain ⟨list, _, hunique, htracks'⟩ := htracks.cleanup hnodup hmem
        cases hunique _ _ hcall
        exact ⟨htracks', hnodup.sublist (List.filter_sublist.map _)⟩
  obtain ⟨htracks, hnodup⟩ := hinv
  refine ⟨htracks, ?_, ?_, ?_⟩
  · obtain ⟨nodes, hhead, hlisted, hperm⟩ := htracks
    refine ⟨nodes.length + 1, _, ?_, hperm.map Worker.tid⟩
    rw [killWorkers, hhead, hlisted.segment.walk (Nat.lt_succ_self _)]
    rfl
  · intro worker hmem
    obtain ⟨list, ⟨fuel, hcall⟩, _⟩ := htracks.cleanup hnodup hmem
    exact ⟨fuel, list, hcall⟩
  · intro wtp tid sockfd list hcall
    refine ⟨fun htracks' => ?_, fun hempty => htracks.add hempty hcall⟩
    by_contra hne
    obtain ⟨head, hhead⟩ := Option.ne_none_iff_exists'.mp hne
    exact not_tracks_add hhead hcall _ htracks'

/-- The list after a first thread has been added. -/
def oneWorker : WorkerState :=
  ⟨⟨(noWorkers.list.store.put 0 ⟨none, none, ⟨1, 5⟩⟩), some 0⟩, [⟨1, 5⟩]⟩

theorem oneWorker_reached (condition : Workers → Prop) (hcondition : condition noWorkers.list) :
    WorkerReaches condition oneWorker :=
  .step (.start rfl) (.add rfl List.not_mem_nil hcondition rfl)

theorem worker_list_tracks_one :
    WorkerReaches (fun list => list.workers = none) oneWorker ∧ Tracks oneWorker ∧
    (∃ fuel tids, killWorkers fuel oneWorker.list = some tids ∧
      tids.Perm (oneWorker.running.map Worker.tid)) ∧
    (∀ worker ∈ oneWorker.running, ∃ fuel list,
      clientCleanup fuel worker.tid oneWorker.list = some (list, some worker)) ∧
    ∀ wtp tid sockfd list, addWorker wtp tid sockfd oneWorker.list = some list →
      (Tracks ⟨list, ⟨tid, sockfd⟩ :: oneWorker.running⟩ ↔ oneWorker.list.workers = none) :=
  ⟨oneWorker_reached _ rfl, worker_list_tracks (oneWorker_reached _ rfl)⟩

/-- Two threads, one after the other: `kill_workers` cancels only the first, and
the second does not find its entry. -/
theorem second_worker_lost :
    ∃ state : WorkerState, WorkerReaches (fun _ => True) state ∧ ¬ Tracks state ∧
      state.running = [⟨2, 6⟩, ⟨1, 5⟩] ∧ killWorkers 2 state.list = some [1] ∧
      clientCleanup 2 2 state.list = some (state.list, none) := by
  obtain ⟨list, hcall⟩ : ∃ list, addWorker 1 2 6 oneWorker.list = some list := ⟨_, rfl⟩
  refine ⟨⟨list, _⟩, .step (oneWorker_reached _ trivial) (.add rfl (by decide) trivial hcall),
    not_tracks_add rfl hcall _, rfl, ?_, ?_⟩
  · cases hcall
    rfl
  · cases hcall
    rfl

end ApueFormal.Printer
