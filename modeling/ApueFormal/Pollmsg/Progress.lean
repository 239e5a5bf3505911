import ApueFormal.Pollmsg.Handover

/-!
# Every message is printed once

Without spurious wakeups every run comes to an end, when there are no messages left.
-/

namespace ApueFormal.Pollmsg

open Libc

variable {n : Nat}

/-- The helper has a message that it has not announced. -/
def HelperPc.unannounced : HelperPc → Nat
  | .setLen _ => 1
  | .lock => 1
  | .write => 1
  | _ => 0

/-- A bound of the steps that a helper makes until it blocks. -/
def HelperPc.left : HelperPc → Nat
  | .waiting => 0
  | .condWait => 1
  | .write => 2
  | .lock => 3
  | .setLen _ => 4
  | .msgrcv => 5
  | .memset => 6
  | .unlock => 7
  | .woken => 8

/-- The messages that main has not seen. -/
def Queue.unseen (queue : Queue) : Nat :=
  queue.messages.length + queue.pc.unannounced + queue.sock

def Queue.weight (factor : Nat) (queue : Queue) : Nat := factor * queue.unseen + queue.pc.left

/-- A bound of the steps that main makes until it blocks or reads a byte.  At the end it
has woken a helper. -/
def MainPc.left (revents : Fin n → Bool) : MainPc n → Nat
  | .read _ => 0
  | .check i => Program.scanCost (fun j => revents j = true) (n + 2) i
  | .poll => n + 1
  | .unlock _ => 2 * n + 3
  | .signal _ => 2 * n + 12
  | .lock _ => 2 * n + 13
  | .print _ => 2 * n + 14
  | .endText _ => 2 * n + 15

def State.left (state : State n) : Nat :=
  ∑ i, (state.queues i).weight (2 * n + 16) + state.pc.left state.revents

variable {queue : Queue}

theorem Queue.unseen_helper {after : Queue} (hstep : queue.helper = some after) :
    after.unseen = queue.unseen ∧ after.pc.left < queue.pc.left := by
  cases Queue.helperStep hstep with
  | msgrcv hpc hmessages =>
    simp only [Queue.unseen, hpc, hmessages, HelperPc.unannounced, HelperPc.left,
      List.length_cons]
    exact ⟨trivial, Nat.lt_succ_self 4⟩
  | write hpc =>
    simp only [Queue.unseen, hpc, HelperPc.unannounced, HelperPc.left]
    exact ⟨by omega, Nat.lt_succ_self 1⟩
  | _ => simp_all [Queue.unseen, HelperPc.unannounced, HelperPc.left]

variable {state after : State n} {i : Fin n} {pc : MainPc n}

theorem State.left_set (hless : queue.weight (2 * n + 16) + pc.left state.revents <
      (state.queues i).weight (2 * n + 16) + state.pc.left state.revents) :
    (state.set i queue pc).left < state.left := by
  have hsum := Program.sum_update (Queue.weight (2 * n + 16)) state.queues i queue
  dsimp only [State.left, State.set]
  omega

theorem State.left_helper (hstep : state.next (.helper i) = some after) :
    after.left < state.left := by
  obtain ⟨queue, hqueue, rfl⟩ := Option.map_eq_some_iff.mp hstep
  obtain ⟨hunseen, hleft⟩ := Queue.unseen_helper hqueue
  refine State.left_set ?_
  unfold Queue.weight
  rw [hunseen]
  omega

theorem State.left_move (hless : pc.left state.revents < state.pc.left state.revents) :
    State.left { state with pc } < state.left :=
  Nat.add_lt_add_left hless _

theorem State.left_main_on {pc' : MainPc n} (hpc : state.pc = pc)
    (hweight : queue.weight (2 * n + 16) = (state.queues i).weight (2 * n + 16))
    (hless : pc'.left state.revents < pc.left state.revents) :
    (state.set i queue pc').left < state.left := by
  refine State.left_set ?_
  rw [hweight, hpc]
  exact Nat.add_lt_add_left hless _

theorem State.left_main (hinv : Inv state) (hstep : state.main = some after) :
    after.left < state.left := by
  cases State.mainStep hstep with
  | poll hpc hsock =>
    obtain ⟨i, hi⟩ := hsock
    unfold State.left
    rw [hpc]
    refine Nat.add_lt_add_left ?_ _
    dsimp only [MainPc.left]
    rw [Program.scanCost_ready (Nat.zero_le i) (decide_eq_true hi)]
    omega
  | @found i hpc hlt hrevents =>
    refine State.left_move ?_
    rw [hpc]
    dsimp only [MainPc.left]
    rw [Program.scanCost_ready (j := ⟨i, hlt⟩) (Nat.le_refl _) hrevents]
    omega
  | skip hpc hlt hrevents =>
    refine State.left_move ?_
    rw [hpc]
    exact Program.scanCost_skip hlt hrevents
  | again hpc hge =>
    refine State.left_move ?_
    rw [hpc]
    dsimp only [MainPc.left]
    rw [Program.scanCost_end hge]
    omega
  | read hpc hsock =>
    refine State.left_set ?_
    rw [hpc]
    dsimp only [Queue.weight, Queue.unseen, MainPc.left]
    -- A message that main has seen pays for all that main does with it.
    obtain ⟨sock, hsucc⟩ := Nat.exists_eq_add_of_lt hsock
    rw [hsucc]
    simp only [Nat.zero_add, Nat.add_sub_cancel, ← Nat.add_assoc]
    rw [Nat.mul_succ]
    omega
  | endText hpc | print hpc | lock hpc _ => exact State.left_main_on hpc rfl (Nat.lt_succ_self _)
  | @signal i hpc =>
    have hlinked := hinv.linked_on (hpc ▸ on_signal i)
    cases hlinked with
    | signal hwaiting _ _ _ =>
      refine State.left_set ?_
      rw [hpc]
      dsimp only [Queue.weight, Queue.unseen]
      rw [if_pos hwaiting, hwaiting]
      dsimp only [HelperPc.unannounced, HelperPc.left, MainPc.left]
      omega
  | unlock hpc =>
    refine State.left_main_on hpc rfl (Nat.lt_of_le_of_lt Program.scanCost_le ?_)
    dsimp only [MainPc.left]
    omega

variable {event : Event n}

theorem State.left_next (hinv : Inv state) (hevent : event.IsStep)
    (hstep : state.next event = some after) : after.left < state.left := by
  cases event with
  | helper i => exact State.left_helper hstep
  | main => exact State.left_main hinv hstep
  | spurious i => exact hevent.elim

/-! ## The messages of a queue -/

/-- The messages that have been received, and those that will be. -/
def Queue.all (queue : Queue) : List Bytes :=
  queue.log.received ++ queue.messages.map fun message => message.take maxmsz

theorem Queue.all_helper {after : Queue} (hstep : queue.helper = some after) :
    after.all = queue.all := by
  cases Queue.helperStep hstep with
  | msgrcv _ hmessages =>
    unfold Queue.all
    rw [hmessages, List.map_cons, List.append_assoc]
    rfl
  | _ => rfl

theorem State.all_set (state : State n) (pc : MainPc n) (hall : queue.all = (state.queues i).all)
    (j : Fin n) : ((state.set i queue pc).queues j).all = (state.queues j).all := by
  dsimp only [State.set]
  by_cases heq : j = i
  · subst heq
    rw [Function.update_self, hall]
  · rw [Function.update_of_ne heq]

theorem State.all_next (hstep : state.next event = some after) (j : Fin n) :
    (after.queues j).all = (state.queues j).all := by
  cases event with
  | helper i =>
    obtain ⟨queue, hqueue, rfl⟩ := Option.map_eq_some_iff.mp hstep
    exact state.all_set _ (Queue.all_helper hqueue) j
  | main =>
    cases State.mainStep hstep with
    | poll _ _ | found _ _ _ | skip _ _ _ | again _ _ => rfl
    | _ =>
      refine state.all_set _ ?_ j
      rfl
  | spurious i =>
    simp only [State.next] at hstep
    split at hstep
    · cases hstep
      refine state.all_set _ ?_ j
      rfl
    · cases hstep

/-- No message is lost before it is received. -/
def State.Carries (state : State n) (messages : Fin n → List Bytes) : Prop :=
  ∀ i, (state.queues i).all = (messages i).map fun message => message.take maxmsz

variable {messages : Fin n → List Bytes}

theorem State.Carries.run {after : State n} (hcarries : state.Carries messages)
    {events : List (Event n)} (hrun : state.run events = some after) : after.Carries messages :=
  @Program.schedule_invariant _ _ _ (fun state => state.Carries messages) _ _ _
    (fun _ _ _ _ hcarries hstep i => (State.all_next hstep i).trans (hcarries i)) hcarries hrun

/-! ## The end of a run -/

theorem Queue.Linked.idle (hlinked : queue.Linked .away) (hsock : queue.sock = 0)
    (hstuck : queue.helper = none) :
    queue.pc = .msgrcv ∧ queue.messages = [] ∧ queue.log.AllDone := by
  cases hlinked with
  | msgrcv hpc _ _ hdone _ =>
    refine ⟨hpc, ?_, hdone⟩
    cases hmessages : queue.messages with
    | nil => rfl
    | cons message messages =>
      simp only [Queue.helper, hpc, hmessages] at hstuck
      cases hstuck
  | handed _ hone _ => omega
  | lock hpc _ hmutex _ | woken hpc _ hmutex _ =>
    simp only [Queue.helper, hpc, if_pos hmutex] at hstuck
    cases hstuck
  | memset hpc _ _ _ | setLen hpc _ _ _ | write hpc _ _ _ | unlock hpc _ _ _ =>
    simp only [Queue.helper, hpc] at hstuck; cases hstuck

theorem Queue.Linked.mutex_free (hlinked : queue.Linked .lock) (hstuck : queue.helper = none) :
    queue.mutex = none := by
  cases hlinked with
  | printed hwaits _ _ =>
    rcases hwaits with ⟨hpc, _⟩ | ⟨_, hmutex⟩
    · simp only [Queue.helper, hpc] at hstuck
      cases hstuck
    · exact hmutex

theorem Inv.main_stuck (hinv : Inv state) (hmain : state.main = none)
    (hhelper : ∀ i, (state.queues i).helper = none) :
    state.pc = .poll ∧ ∀ i, (state.queues i).sock = 0 := by
  cases hpc : state.pc with
  | poll =>
    simp only [State.main, hpc] at hmain
    split at hmain
    · cases hmain
    · rename_i hsock
      exact ⟨rfl, fun i => Nat.eq_zero_of_not_pos fun hi => hsock ⟨i, hi⟩⟩
  | check i =>
    simp only [State.main, hpc] at hmain
    repeat' split at hmain
    all_goals cases hmain
  | read i =>
    have hpolled := hinv.polled i
    rw [hpc] at hpolled
    have hsock := hpolled (Nat.le_refl _) (hinv.reading i hpc)
    simp only [State.main, hpc, if_pos hsock] at hmain
    cases hmain
  | lock i =>
    have hmutex := (hinv.linked_on (hpc ▸ on_lock i)).mutex_free (hhelper i)
    simp only [State.main, hpc, if_pos hmutex] at hmain
    cases hmain
  | endText i | print i | signal i | unlock i => simp only [State.main, hpc] at hmain; cases hmain

def State.Stuck (state : State n) : Prop :=
  ∀ event : Event n, event.IsStep → state.next event = none

theorem Inv.stuck (hinv : Inv state) (hstuck : state.Stuck) (i : Fin n) :
    (state.queues i).pc = .msgrcv ∧ (state.queues i).messages = [] ∧
      (state.queues i).log.AllDone := by
  have hhelper : ∀ j, (state.queues j).helper = none := fun j =>
    Option.map_eq_none_iff.mp (hstuck (.helper j) trivial)
  obtain ⟨hpc, hsock⟩ := hinv.main_stuck (hstuck .main trivial) hhelper
  have hlinked := hinv.linked i
  rw [hpc] at hlinked
  exact hlinked.idle (hsock i) (hhelper i)

/-- The messages come in their order, cut to what `msgrcv` returns, and all are printed
once and with their texts except the last, which may still have to be.  A helper that is
blocked has not been signalled for its message. -/
structure Delivering (messages : List Bytes) (queue : Queue) : Prop where
  received : queue.log.received <+: messages.map fun message => message.take maxmsz
  printed : queue.log.printed = queue.log.received ∨
    ∃ text, queue.log.received = queue.log.printed ++ [text]
  signalled : queue.pc = .waiting → queue.log.signals + 1 = queue.log.received.length

namespace Queue.Linked

variable {stage : Stage}

variable (hlinked : queue.Linked stage)
include hlinked

theorem printed_texts :
    queue.log.printed = queue.log.received.map cstr ∨
      ∃ text, queue.log.received.map cstr = queue.log.printed ++ [text] := by
  have hpending : ∀ {mtext len}, Pending queue.log mtext len →
      ∃ text, queue.log.received.map cstr = queue.log.printed ++ [text] := by
    rintro mtext len ⟨text, htext, _⟩
    exact ⟨_, htext.received⟩
  cases hlinked with
  | memset _ _ _ hdone | msgrcv _ _ _ hdone _ | signalled _ _ _ hdone | woken _ _ _ hdone
  | unlock _ _ _ hdone => exact .inl hdone.printed
  | setLen _ _ _ hready | lock _ _ _ hready | write _ _ _ hready | handed _ _ hready
  | endText _ _ hready | print _ _ hready => exact .inr (hpending hready)
  | printed _ _ hprinted | signal _ _ _ hprinted => exact .inl hprinted.printed

theorem unsignalled (hwaiting : queue.pc = .waiting) :
    queue.log.signals + 1 = queue.log.received.length := by
  have hready : queue.Ready → queue.log.signals + 1 = queue.log.received.length := by
    rintro ⟨text, htext, _⟩
    exact htext.signals
  cases hlinked with
  | handed _ _ h | endText _ _ h | print _ _ h => exact hready h
  | printed _ _ hprinted | signal _ _ _ hprinted => exact hprinted.signals
  | _ => simp_all

theorem delivering {messages : List Bytes}
    (hall : queue.all = messages.map fun message => message.take maxmsz)
    (hnul : ∀ message ∈ messages, (0 : Byte) ∉ message) : Delivering messages queue := by
  have hreceived : queue.log.received <+: messages.map fun message => message.take maxmsz :=
    ⟨_, hall⟩
  have htexts : queue.log.received.map cstr = queue.log.received := by
    refine (List.map_congr_left ?_).trans (List.map_id _)
    intro text htext
    obtain ⟨message, hmessage, rfl⟩ := List.mem_map.mp (hreceived.subset htext)
    exact cstr_of_noNul fun hmem => hnul message hmessage (List.mem_of_mem_take hmem)
  have hprinted := hlinked.printed_texts
  rw [htexts] at hprinted
  exact ⟨hreceived, hprinted, hlinked.unsignalled⟩

end Queue.Linked

def runBound (messages : Fin n → List Bytes) : Nat :=
  ∑ i, ((2 * n + 16) * (messages i).length + 6) + (n + 1)

theorem Initial.left_eq (hinitial : Initial messages state) : state.left = runBound messages := by
  have hweight : ∀ i, (state.queues i).weight (2 * n + 16) =
      (2 * n + 16) * (messages i).length + 6 := by
    intro i
    obtain ⟨mtext, len, hqueue⟩ := hinitial.queues i
    rw [hqueue]
    rfl
  unfold State.left runBound
  rw [hinitial.poll, Finset.sum_congr rfl fun i _ => hweight i]
  rfl

theorem Initial.carries (hinitial : Initial messages state) : state.Carries messages := by
  intro i
  obtain ⟨mtext, len, hqueue⟩ := hinitial.queues i
  rw [hqueue]
  rfl

theorem Inv.advances (hevent : event.IsStep) (state after : State n) (hinv : Inv state)
    (hnext : state.next event = some after) :
    Inv after ∧ after.left < state.left :=
  ⟨hinv.next hevent hnext, State.left_next hinv hevent hnext⟩

/-- Without spurious wakeups every interleaving delivers the messages of every queue, is
finite, and ends when all have been printed and every helper waits for the next one. -/
theorem messages_delivered_once {messages : Fin n → List Bytes} {state after : State n}
    {events : List (Event n)} (hnul : ∀ i, ∀ message ∈ messages i, (0 : Byte) ∉ message)
    (hinitial : Initial messages state) (hevents : ∀ event ∈ events, event.IsStep)
    (hrun : state.run events = some after) :
    (∀ i, Delivering (messages i) (after.queues i)) ∧ events.length ≤ runBound messages ∧
      (after.Stuck → ∀ i, (after.queues i).pc = .msgrcv ∧
        (after.queues i).log.printed = (messages i).map fun message => message.take maxmsz) := by
  have hinv : Inv after := hinitial.inv.run hevents hrun
  have hall : after.Carries messages := hinitial.carries.run hrun
  have hdelivering := fun i => (hinv.linked i).delivering (hall i) (hnul i)
  refine ⟨hdelivering, ?_, ?_⟩
  · have hlength := Program.schedule_length_le State.left
      (fun event hmem => Inv.advances (hevents event hmem)) hinitial.inv hrun
    rw [hinitial.left_eq] at hlength
    omega
  · intro hstuck i
    obtain ⟨hpc, hmessages, hdone⟩ := hinv.stuck hstuck i
    have hreceived := hall i
    rw [Queue.all, hmessages, List.map_nil, List.append_nil] at hreceived
    refine ⟨hpc, ?_⟩
    rw [← hreceived]
    rcases (hdelivering i).printed with heq | ⟨text, heq⟩
    · exact heq
    · have hlength := congrArg List.length hdone.printed
      rw [List.length_map, heq, List.length_append, List.length_singleton] at hlength
      omega

def created (messages : Fin n → List Bytes) : State n :=
  ⟨fun i => ⟨messages i, [], 0, 0, none, .memset, ⟨[], [], 0⟩⟩, .poll, fun _ => false⟩

theorem created_initial (messages : Fin n → List Bytes) : Initial messages (created messages) :=
  ⟨rfl, fun _ => ⟨[], 0, rfl⟩⟩

/-- Two messages in each of two queues are received and printed. -/
theorem messages_delivered_once_two : ∃ events after, (∀ event ∈ events, Event.IsStep event) ∧
    (created fun _ : Fin 2 => [[97], [98]]).run events = some after ∧
      ∀ i, (after.queues i).log.printed = [[97], [98]] := by
  have hinitial := created_initial fun _ : Fin 2 => [[97], [98]]
  obtain ⟨events, after, hevents, hrun, hstuck⟩ := Program.exists_exhausted State.left
    (fun _ hevent => Inv.advances hevent) hinitial.inv
  have hdelivered := messages_delivered_once (by decide) hinitial hevents hrun
  exact ⟨events, after, hevents, hrun, fun i => (hdelivered.2.2 hstuck i).2⟩

def announce : List (Event 1) := List.replicate 6 (.helper 0)

def answer : List (Event 1) := List.replicate 8 .main

/-- A spurious wakeup behind the first message: the helper receives the second one into
the buffer before main prints, so that the second is printed twice and the first never. -/
theorem spurious_wakeup_loses_message : ∃ after : State 1, (created fun _ => [[97], [98]]).run
      (announce ++ .spurious 0 :: List.replicate 5 (.helper 0) ++ answer ++
        .main :: List.replicate 3 (.helper 0) ++ answer) = some after ∧
      (after.queues 0).log.received = [[97], [98]] ∧ (after.queues 0).log.printed = [[98], [98]] :=
  ⟨_, rfl, rfl, rfl⟩

end ApueFormal.Pollmsg
