import ApueFormal.Pollmsg.Model
import ApueFormal.Program.Schedule

/-!
# The handover of a buffer

Without spurious wakeups a buffer belongs either to its helper or to main, and the last
message is the only one that may not have been printed.
-/

namespace ApueFormal.Pollmsg

open Function Libc

inductive Stage where
  | away
  | endText
  | print
  | lock
  | signal
  | unlock
  deriving DecidableEq

def MainPc.stage {n : Nat} (pc : MainPc n) (i : Fin n) : Stage :=
  match pc with
  | .poll => .away
  | .check _ => .away
  | .read _ => .away
  | .endText j => if j = i then .endText else .away
  | .print j => if j = i then .print else .away
  | .lock j => if j = i then .lock else .away
  | .signal j => if j = i then .signal else .away
  | .unlock j => if j = i then .unlock else .away

/-- All messages have been printed and signalled. -/
structure Log.AllDone (log : Log) : Prop where
  printed : log.printed = log.received.map cstr
  signals : log.signals = log.received.length

/-- The last message has not been printed. -/
structure Log.Unprinted (log : Log) (text : Bytes) : Prop where
  received : log.received.map cstr = log.printed ++ [cstr text]
  signals : log.signals + 1 = log.received.length

/-- The last message has been printed but not signalled. -/
structure Log.Unsignalled (log : Log) : Prop where
  printed : log.printed = log.received.map cstr
  signals : log.signals + 1 = log.received.length

/-- A buffer that was cleared before a message was received into it. -/
structure Holds (mtext text : Bytes) : Prop where
  short : text.length ≤ maxmsz
  mtext : mtext = text ++ List.replicate (maxmsz + 1 - text.length) 0

/-- The last message is in the buffer and has not been printed. -/
def Pending (log : Log) (mtext : Bytes) (len : Nat) : Prop :=
  ∃ text, log.Unprinted text ∧ Holds mtext text ∧ len = text.length

namespace Queue

def Ready (queue : Queue) : Prop := Pending queue.log queue.mtext queue.len

/-- The helper is at `pthread_cond_wait`, with the mutex, or blocked in it. -/
def Waits (queue : Queue) : Prop :=
  (queue.pc = .condWait ∧ queue.mutex = some .helper) ∨ (queue.pc = .waiting ∧ queue.mutex = none)

/-- How the helper, main and what they share fit together. -/
inductive Linked (queue : Queue) : Stage → Prop where
  | memset (hpc : queue.pc = .memset) (hsock : queue.sock = 0) (hmutex : queue.mutex = none)
      (hdone : queue.log.AllDone) : queue.Linked .away
  | msgrcv (hpc : queue.pc = .msgrcv) (hsock : queue.sock = 0) (hmutex : queue.mutex = none)
      (hdone : queue.log.AllDone) (hmtext : queue.mtext = List.replicate (maxmsz + 1) 0) :
      queue.Linked .away
  | setLen {n : Nat} (hpc : queue.pc = .setLen n) (hsock : queue.sock = 0)
      (hmutex : queue.mutex = none) (hpending : Pending queue.log queue.mtext n) :
      queue.Linked .away
  | lock (hpc : queue.pc = .lock) (hsock : queue.sock = 0) (hmutex : queue.mutex = none)
      (hready : queue.Ready) : queue.Linked .away
  | write (hpc : queue.pc = .write) (hsock : queue.sock = 0)
      (hmutex : queue.mutex = some .helper) (hready : queue.Ready) : queue.Linked .away
  /-- The byte is in the socket. -/
  | handed (hwaits : queue.Waits) (hsock : queue.sock = 1) (hready : queue.Ready) :
      queue.Linked .away
  /-- Main has read the byte. -/
  | endText (hwaits : queue.Waits) (hsock : queue.sock = 0) (hready : queue.Ready) :
      queue.Linked .endText
  | print (hwaits : queue.Waits) (hsock : queue.sock = 0) (hready : queue.Ready) :
      queue.Linked .print
  | printed (hwaits : queue.Waits) (hsock : queue.sock = 0) (hprinted : queue.log.Unsignalled) :
      queue.Linked .lock
  | signal (hpc : queue.pc = .waiting) (hsock : queue.sock = 0)
      (hmutex : queue.mutex = some .main) (hprinted : queue.log.Unsignalled) : queue.Linked .signal
  | signalled (hpc : queue.pc = .woken) (hsock : queue.sock = 0)
      (hmutex : queue.mutex = some .main) (hdone : queue.log.AllDone) : queue.Linked .unlock
  | woken (hpc : queue.pc = .woken) (hsock : queue.sock = 0) (hmutex : queue.mutex = none)
      (hdone : queue.log.AllDone) : queue.Linked .away
  | unlock (hpc : queue.pc = .unlock) (hsock : queue.sock = 0)
      (hmutex : queue.mutex = some .helper) (hdone : queue.log.AllDone) : queue.Linked .away

end Queue

theorem Holds.set {mtext text : Bytes} (hholds : Holds mtext text) :
    mtext.set text.length 0 = mtext := by
  have hshort := hholds.short
  rw [hholds.mtext, List.set_append_right _ _ (Nat.le_refl _), Nat.sub_self,
    show maxmsz + 1 - text.length = maxmsz - text.length + 1 by omega, List.replicate_succ]
  rfl

theorem Holds.cstr_eq {mtext text : Bytes} (hholds : Holds mtext text) :
    cstr mtext = cstr text := by
  have hshort := hholds.short
  rw [hholds.mtext, show maxmsz + 1 - text.length = maxmsz - text.length + 1 by omega,
    List.replicate_succ, cstr_append_zero]

theorem pending_receive {log : Log} (hdone : log.AllDone) (message : Bytes) :
    Pending { log with received := log.received ++ [message.take maxmsz] }
      (message.take maxmsz ++ (List.replicate (maxmsz + 1) 0).drop (message.take maxmsz).length)
      (message.take maxmsz).length := by
  refine ⟨message.take maxmsz, ⟨?_, ?_⟩, ⟨List.length_take_le .., ?_⟩, rfl⟩
  · dsimp only
    rw [List.map_append, ← hdone.printed]
    rfl
  · dsimp only
    rw [List.length_append, hdone.signals]
    rfl
  · rw [List.drop_replicate]

variable {after : Queue}

namespace Queue

variable {queue : Queue}

theorem Waits.helper (hwaits : queue.Waits) (hstep : queue.helper = some after) :
    after = { queue with mutex := none, pc := .waiting } := by
  rcases hwaits with ⟨hpc, _⟩ | ⟨hpc, _⟩
  · simp only [Queue.helper, hpc, Option.some.injEq] at hstep
    exact hstep.symm
  · simp only [Queue.helper, hpc] at hstep
    cases hstep

theorem Linked.helper {stage : Stage} (hlinked : queue.Linked stage)
    (hstep : queue.helper = some after) : after.Linked stage := by
  cases hlinked with
  | memset hpc hsock hmutex hdone =>
    simp only [Queue.helper, hpc, Option.some.injEq] at hstep
    subst hstep
    exact .msgrcv rfl hsock hmutex hdone rfl
  | msgrcv hpc hsock hmutex hdone hmtext =>
    simp only [Queue.helper, hpc, hmtext] at hstep
    split at hstep
    · cases hstep
    · cases hstep
      exact .setLen rfl hsock hmutex (pending_receive hdone _)
  | setLen hpc hsock hmutex hpending =>
    simp only [Queue.helper, hpc, Option.some.injEq] at hstep
    subst hstep
    exact .lock rfl hsock hmutex hpending
  | lock hpc hsock hmutex hready =>
    simp only [Queue.helper, hpc, if_pos hmutex, Option.some.injEq] at hstep
    subst hstep
    exact .write rfl hsock rfl hready
  | write hpc hsock hmutex hready =>
    simp only [Queue.helper, hpc, Option.some.injEq] at hstep
    subst hstep
    exact .handed (.inl ⟨rfl, hmutex⟩) (congrArg (· + 1) hsock) hready
  | handed hwaits hsock hready =>
    rw [hwaits.helper hstep]
    exact .handed (.inr ⟨rfl, rfl⟩) hsock hready
  | endText hwaits hsock hready =>
    rw [hwaits.helper hstep]
    exact .endText (.inr ⟨rfl, rfl⟩) hsock hready
  | print hwaits hsock hready =>
    rw [hwaits.helper hstep]
    exact .print (.inr ⟨rfl, rfl⟩) hsock hready
  | printed hwaits hsock hprinted =>
    rw [hwaits.helper hstep]
    exact .printed (.inr ⟨rfl, rfl⟩) hsock hprinted
  | signal hpc hsock hmutex hprinted =>
    simp only [Queue.helper, hpc] at hstep
    cases hstep
  | signalled hpc hsock hmutex hdone =>
    simp only [Queue.helper, hpc, hmutex] at hstep
    cases hstep
  | woken hpc hsock hmutex hdone =>
    simp only [Queue.helper, hpc, if_pos hmutex, Option.some.injEq] at hstep
    subst hstep
    exact .unlock rfl hsock rfl hdone
  | unlock hpc hsock hmutex hdone =>
    simp only [Queue.helper, hpc, Option.some.injEq] at hstep
    subst hstep
    exact .memset rfl hsock rfl hdone

theorem Linked.handed_of_sock {stage : Stage} (hlinked : queue.Linked stage)
    (hsock : 0 < queue.sock) : stage = .away ∧ queue.Waits ∧ queue.sock = 1 ∧ queue.Ready := by
  cases hlinked with
  | handed hwaits hone hready => exact ⟨rfl, hwaits, hone, hready⟩
  | _ => omega

theorem Linked.read (hlinked : queue.Linked .away) (hsock : 0 < queue.sock) :
    Linked { queue with sock := queue.sock - 1 } .endText := by
  obtain ⟨_, hwaits, hone, hready⟩ := hlinked.handed_of_sock hsock
  exact .endText hwaits (by dsimp only; omega) hready

theorem Linked.ends_text (hlinked : queue.Linked .endText) :
    Linked { queue with mtext := queue.mtext.set queue.len 0 } .print := by
  cases hlinked with
  | endText hwaits hsock hready =>
    obtain ⟨text, htext, hholds, hlen⟩ := hready
    refine .print hwaits hsock ⟨text, htext, ?_, hlen⟩
    dsimp only
    rw [hlen, hholds.set]
    exact hholds

theorem Linked.prints (hlinked : queue.Linked .print) :
    Linked { queue with
      log := { queue.log with printed := queue.log.printed ++ [cstr queue.mtext] } } .lock := by
  cases hlinked with
  | print hwaits hsock hready =>
    obtain ⟨text, htext, hholds, hlen⟩ := hready
    refine .printed hwaits hsock ⟨?_, htext.signals⟩
    dsimp only
    rw [hholds.cstr_eq, htext.received]

theorem Linked.locks (hlinked : queue.Linked .lock) (hmutex : queue.mutex = none) :
    Linked { queue with mutex := some .main } .signal := by
  cases hlinked with
  | printed hwaits hsock hprinted =>
    rcases hwaits with ⟨_, hheld⟩ | ⟨hpc, _⟩
    · rw [hmutex] at hheld
      cases hheld
    · exact .signal hpc hsock rfl hprinted

theorem Linked.signals (hlinked : queue.Linked .signal) :
    Linked { queue with
      pc := if queue.pc = .waiting then .woken else queue.pc
      log := { queue.log with signals := queue.log.signals + 1 } } .unlock := by
  cases hlinked with
  | signal hpc hsock hmutex hprinted =>
    exact .signalled (if_pos hpc) hsock hmutex ⟨hprinted.printed, hprinted.signals⟩

theorem Linked.unlocks (hlinked : queue.Linked .unlock) :
    Linked { queue with mutex := none } .away := by
  cases hlinked with
  | signalled hpc hsock hmutex hdone => exact .woken hpc hsock rfl hdone

end Queue

variable {n : Nat}

/-- The first index that the loop over the queues has not finished. -/
def MainPc.index : MainPc n → Nat
  | .poll => n
  | .check i => i
  | .read i => i
  | .endText i => i + 1
  | .print i => i + 1
  | .lock i => i + 1
  | .signal i => i + 1
  | .unlock i => i + 1

/-- The state of every handover, and the sockets that `poll` has found readable are. -/
structure Inv (state : State n) : Prop where
  linked : ∀ i, (state.queues i).Linked (state.pc.stage i)
  polled : ∀ i : Fin n, state.pc.index ≤ i → state.revents i = true → 0 < (state.queues i).sock
  reading : ∀ i, state.pc = .read i → state.revents i = true

variable {state : State n} {i : Fin n} {queue : Queue}

theorem Inv.set (hinv : Inv state) {pc : MainPc n} (hlinked : queue.Linked (pc.stage i))
    (hothers : ∀ j, j ≠ i → pc.stage j = state.pc.stage j) (hindex : state.pc.index ≤ pc.index)
    (hpolled : pc.index ≤ i → state.revents i = true → 0 < queue.sock)
    (hreading : ∀ j, pc = .read j → state.revents j = true) : Inv (state.set i queue pc) := by
  constructor
  · intro j
    by_cases heq : j = i
    · subst heq
      dsimp only [State.set]
      rw [update_self]
      exact hlinked
    · dsimp only [State.set]
      rw [update_of_ne heq, hothers j heq]
      exact hinv.linked j
  · intro j hle hrevents
    by_cases heq : j = i
    · subst heq
      dsimp only [State.set]
      rw [update_self]
      exact hpolled hle hrevents
    · dsimp only [State.set]
      rw [update_of_ne heq]
      exact hinv.polled j (Nat.le_trans hindex hle) hrevents
  · exact hreading

theorem Queue.sock_helper (hstep : queue.helper = some after) : queue.sock ≤ after.sock := by
  cases Queue.helperStep hstep with
  | write _ => exact Nat.le_succ _
  | _ => exact Nat.le_refl _

variable {after : State n}

section

variable (hinv : Inv state)
include hinv

theorem Inv.helper (hstep : state.next (.helper i) = some after) : Inv after := by
  obtain ⟨queue, hqueue, rfl⟩ := Option.map_eq_some_iff.mp hstep
  refine hinv.set ((hinv.linked i).helper hqueue) (fun _ _ => rfl) (Nat.le_refl _) ?_ hinv.reading
  intro hle hrevents
  exact Nat.lt_of_lt_of_le (hinv.polled i hle hrevents) (Queue.sock_helper hqueue)

theorem Inv.move {pc : MainPc n} (hstage : ∀ i, pc.stage i = state.pc.stage i)
    (hindex : state.pc.index ≤ pc.index) (hreading : ∀ j, pc = .read j → state.revents j = true) :
    Inv { state with pc } where
  linked i := by
    rw [hstage]
    exact hinv.linked i
  polled i hle := hinv.polled i (Nat.le_trans hindex hle)
  reading := hreading

theorem Inv.linked_away (hstage : ∀ i, state.pc.stage i = .away) (i : Fin n) :
    (state.queues i).Linked .away :=
  hstage i ▸ hinv.linked i

theorem Inv.main_poll (hpc : state.pc = .poll) :
    Inv { state with
      revents := fun i => decide (0 < (state.queues i).sock)
      pc := .check 0 } where
  linked := hinv.linked_away (by rw [hpc]; exact fun _ => rfl)
  polled _ _ hrevents := of_decide_eq_true hrevents
  reading _ hread := nomatch hread

theorem Inv.main_again {i : Nat} (hpc : state.pc = .check i) :
    Inv { state with pc := .poll } where
  linked := hinv.linked_away (by rw [hpc]; exact fun _ => rfl)
  polled j hle := absurd j.isLt (Nat.not_lt.mpr hle)
  reading _ hread := nomatch hread

end

/-- Main is at some stage with one queue, which the loop has passed. -/
structure MainPc.On (pc : MainPc n) (i : Fin n) (stage : Stage) : Prop where
  stage : ∀ j, pc.stage j = if i = j then stage else .away
  index : pc.index = i + 1
  reading : ∀ j, pc ≠ .read j

theorem Inv.on {state : State n} (hinv : Inv state) {i : Fin n} {stage stage' : Stage}
    {queue : Queue} {pc : MainPc n} (hold : ∀ j, state.pc.stage j = if i = j then stage else .away)
    (hindex : state.pc.index ≤ i + 1) (hon : pc.On i stage') (hlinked : queue.Linked stage') :
    Inv (state.set i queue pc) := by
  refine hinv.set ?_ ?_ (Nat.le_trans hindex (Nat.le_of_eq hon.index.symm)) ?_ ?_
  · rw [hon.stage, if_pos rfl]
    exact hlinked
  · intro j hne
    rw [hold, hon.stage, if_neg (Ne.symm hne), if_neg (Ne.symm hne)]
  · intro hle
    rw [hon.index] at hle
    omega
  · intro j hread
    exact absurd hread (hon.reading j)

theorem Inv.linked_on (hinv : Inv state) {stage : Stage} (hon : state.pc.On i stage) :
    (state.queues i).Linked stage := by
  have hlinked := hinv.linked i
  rwa [hon.stage, if_pos rfl] at hlinked

section On

variable (i : Fin n)

theorem on_endText : (MainPc.endText i).On i .endText := ⟨fun _ => rfl, rfl, fun _ => nofun⟩

theorem on_print : (MainPc.print i).On i .print := ⟨fun _ => rfl, rfl, fun _ => nofun⟩

theorem on_lock : (MainPc.lock i).On i .lock := ⟨fun _ => rfl, rfl, fun _ => nofun⟩

theorem on_signal : (MainPc.signal i).On i .signal := ⟨fun _ => rfl, rfl, fun _ => nofun⟩

theorem on_unlock : (MainPc.unlock i).On i .unlock := ⟨fun _ => rfl, rfl, fun _ => nofun⟩

theorem on_next : (MainPc.check (n := n) (i + 1)).On i .away :=
  ⟨fun _ => (ite_self _).symm, rfl, fun _ => nofun⟩

end On

theorem Inv.main_read (hinv : Inv state) (hpc : state.pc = .read i)
    (hsock : 0 < (state.queues i).sock) :
    Inv (state.set i
      { state.queues i with sock := (state.queues i).sock - 1 } (.endText i)) := by
  have hlinked := hinv.linked i
  rw [hpc] at hlinked
  refine @Inv.on _ _ hinv _ .away _ _ _ ?_ ?_ (on_endText i) (hlinked.read hsock)
  · rw [hpc]
    exact fun _ => (ite_self _).symm
  · rw [hpc]
    exact Nat.le_succ _

theorem Inv.main_on (hinv : Inv state) {stage stage' : Stage} {pc pc' : MainPc n}
    (hpc : state.pc = pc) (hon : pc.On i stage) (hon' : pc'.On i stage')
    (hlinked : (state.queues i).Linked stage → queue.Linked stage') :
    Inv (state.set i queue pc') := by
  subst hpc
  exact hinv.on hon.stage (Nat.le_of_eq hon.index) hon' (hlinked (hinv.linked_on hon))

theorem Inv.main (hinv : Inv state) (hstep : state.main = some after) : Inv after := by
  cases State.mainStep hstep with
  | poll hpc _ => exact hinv.main_poll hpc
  | found hpc hlt hrevents =>
    refine hinv.move ?_ ?_ ?_
    · rw [hpc]
      exact fun _ => rfl
    · rw [hpc]
      exact Nat.le_refl _
    · rintro j ⟨rfl⟩
      exact hrevents
  | skip hpc _ _ =>
    refine hinv.move ?_ ?_ nofun
    · rw [hpc]
      exact fun _ => rfl
    · rw [hpc]
      exact Nat.le_succ _
  | again hpc _ => exact hinv.main_again hpc
  | read hpc hsock => exact hinv.main_read hpc hsock
  | endText hpc => exact hinv.main_on hpc (on_endText _) (on_print _) Queue.Linked.ends_text
  | print hpc => exact hinv.main_on hpc (on_print _) (on_lock _) Queue.Linked.prints
  | lock hpc hmutex =>
    exact hinv.main_on hpc (on_lock _) (on_signal _) fun hlinked => hlinked.locks hmutex
  | signal hpc => exact hinv.main_on hpc (on_signal _) (on_unlock _) Queue.Linked.signals
  | unlock hpc => exact hinv.main_on hpc (on_unlock _) (on_next _) Queue.Linked.unlocks

def Event.IsStep : Event n → Prop
  | .helper _ => True
  | .main => True
  | .spurious _ => False

instance : DecidablePred (Event.IsStep (n := n))
  | .helper _ => inferInstanceAs (Decidable True)
  | .main => inferInstanceAs (Decidable True)
  | .spurious _ => inferInstanceAs (Decidable False)

theorem Inv.next (hinv : Inv state) {event : Event n} (hevent : event.IsStep)
    (hstep : state.next event = some after) : Inv after := by
  cases event with
  | helper i => exact hinv.helper hstep
  | main => exact hinv.main hstep
  | spurious i => exact hevent.elim

theorem Inv.run {state after : State n} (hinv : Inv state) {events : List (Event n)}
    (hevents : ∀ event ∈ events, event.IsStep) (hrun : state.run events = some after) :
    Inv after :=
  Program.schedule_invariant (fun event hmem _ _ hinv hstep => hinv.next (hevents event hmem) hstep)
    hinv hrun

theorem Initial.inv {messages : Fin n → List Bytes} {state : State n}
    (hinitial : Initial messages state) : Inv state := by
  constructor
  · intro i
    obtain ⟨mtext, len, hqueue⟩ := hinitial.queues i
    rw [hinitial.poll, hqueue]
    exact .memset rfl rfl rfl ⟨rfl, rfl⟩
  · intro i hle
    rw [hinitial.poll] at hle
    exact absurd i.isLt (Nat.not_lt.mpr hle)
  · intro i hread
    rw [hinitial.poll] at hread
    cases hread

end ApueFormal.Pollmsg
