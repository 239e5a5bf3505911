import ApueFormal.Libc.Text
import Mathlib.Logic.Function.Basic

/-!
# Messages handed from helper threads to the main loop

One helper thread for each message queue receives messages into a buffer, writes a byte to
a socket and waits on a condition variable.  The main loop polls the sockets, prints the
buffers and signals.  The threads are interleaved in any order.
-/

namespace ApueFormal.Pollmsg

open Libc

def maxmsz : Nat := 512

/-- Where a helper is.  Behind `condWait` it has released the mutex and is blocked; when it
is woken it has to lock the mutex again. -/
inductive HelperPc where
  | memset
  | msgrcv
  | setLen (n : Nat)
  | lock
  | write
  | condWait
  | waiting
  | woken
  | unlock
  deriving DecidableEq

inductive Holder where
  | helper
  | main
  deriving DecidableEq

/-- What has happened to the messages of a queue. -/
structure Log where
  /-- What `msgrcv` has returned. -/
  received : List Bytes
  /-- What main has printed. -/
  printed : List Bytes
  /-- How often main has signalled. -/
  signals : Nat

/-- A queue, the `struct threadinfo` of its helper and the helper. -/
structure Queue where
  /-- The messages that the helper will get. -/
  messages : List Bytes
  mtext : Bytes
  len : Nat
  /-- The bytes in the socket. -/
  sock : Nat
  mutex : Option Holder
  pc : HelperPc
  log : Log

/-- One step of a helper; it is blocked where there is none. -/
def Queue.helper (queue : Queue) : Option Queue :=
  match queue.pc with
  | .memset => some { queue with mtext := List.replicate (maxmsz + 1) 0, pc := .msgrcv }
  | .msgrcv =>
    match queue.messages with
    | [] => none
    | message :: messages =>
      -- A longer message is cut, without an error.
      let text := message.take maxmsz
      some { queue with
        messages := messages
        mtext := text ++ queue.mtext.drop text.length
        log := { queue.log with received := queue.log.received ++ [text] }
        pc := .setLen text.length }
  | .setLen n => some { queue with len := n, pc := .lock }
  | .lock =>
    if queue.mutex = none then some { queue with mutex := some .helper, pc := .write } else none
  | .write => some { queue with sock := queue.sock + 1, pc := .condWait }
  | .condWait => some { queue with mutex := none, pc := .waiting }
  | .waiting => none
  | .woken =>
    if queue.mutex = none then some { queue with mutex := some .helper, pc := .unlock } else none
  | .unlock => some { queue with mutex := none, pc := .memset }

inductive MainPc (n : Nat) where
  | poll
  | check (i : Nat)
  | read (i : Fin n)
  | endText (i : Fin n)
  | print (i : Fin n)
  | lock (i : Fin n)
  | signal (i : Fin n)
  | unlock (i : Fin n)

structure State (n : Nat) where
  queues : Fin n → Queue
  pc : MainPc n
  /-- `revents & POLLIN`. -/
  revents : Fin n → Bool

variable {n : Nat}

def State.set (state : State n) (i : Fin n) (queue : Queue) (pc : MainPc n) : State n :=
  { state with queues := Function.update state.queues i queue, pc := pc }

def State.main (state : State n) : Option (State n) :=
  match state.pc with
  | .poll =>
    if ∃ i, 0 < (state.queues i).sock then
      some { state with
        revents := fun i => decide (0 < (state.queues i).sock)
        pc := .check 0 }
    else none
  | .check i =>
    if h : i < n then
      if state.revents ⟨i, h⟩ then some { state with pc := .read ⟨i, h⟩ }
      else some { state with pc := .check (i + 1) }
    else some { state with pc := .poll }
  | .read i =>
    let queue := state.queues i
    if 0 < queue.sock then
      some (state.set i { queue with sock := queue.sock - 1 } (.endText i))
    else none
  | .endText i =>
    let queue := state.queues i
    some (state.set i { queue with mtext := queue.mtext.set queue.len 0 } (.print i))
  | .print i =>
    let queue := state.queues i
    let log := { queue.log with printed := queue.log.printed ++ [cstr queue.mtext] }
    some (state.set i { queue with log } (.lock i))
  | .lock i =>
    let queue := state.queues i
    if queue.mutex = none then
      some (state.set i { queue with mutex := some .main } (.signal i))
    else none
  | .signal i =>
    let queue := state.queues i
    some (state.set i { queue with
      pc := if queue.pc = .waiting then .woken else queue.pc
      log := { queue.log with signals := queue.log.signals + 1 } } (.unlock i))
  | .unlock i =>
    let queue := state.queues i
    some (state.set i { queue with mutex := none } (.check (i + 1)))

inductive Event (n : Nat) where
  | helper (i : Fin n)
  | main
  /-- `pthread_cond_wait` returns without a signal. -/
  | spurious (i : Fin n)

def State.next (state : State n) : Event n → Option (State n)
  | .helper i => (state.queues i).helper.map fun queue => state.set i queue state.pc
  | .main => state.main
  | .spurious i =>
    if (state.queues i).pc = .waiting then
      some (state.set i { state.queues i with pc := .woken } state.pc)
    else none

def State.run (state : State n) (events : List (Event n)) : Option (State n) :=
  events.foldlM State.next state

/-! ## What a step does -/

/-- A step of a helper, with what makes it possible. -/
inductive Queue.HelperStep (queue : Queue) : Queue → Prop where
  | memset (hpc : queue.pc = .memset) :
      queue.HelperStep { queue with mtext := List.replicate (maxmsz + 1) 0, pc := .msgrcv }
  | msgrcv {message : Bytes} {messages : List Bytes} (hpc : queue.pc = .msgrcv)
      (hmessages : queue.messages = message :: messages) :
      queue.HelperStep { queue with
        messages := messages
        mtext := message.take maxmsz ++ queue.mtext.drop (message.take maxmsz).length
        log := { queue.log with received := queue.log.received ++ [message.take maxmsz] }
        pc := .setLen (message.take maxmsz).length }
  | setLen {n : Nat} (hpc : queue.pc = .setLen n) :
      queue.HelperStep { queue with len := n, pc := .lock }
  | lock (hpc : queue.pc = .lock) (hmutex : queue.mutex = none) :
      queue.HelperStep { queue with mutex := some .helper, pc := .write }
  | write (hpc : queue.pc = .write) :
      queue.HelperStep { queue with sock := queue.sock + 1, pc := .condWait }
  | condWait (hpc : queue.pc = .condWait) :
      queue.HelperStep { queue with mutex := none, pc := .waiting }
  | woken (hpc : queue.pc = .woken) (hmutex : queue.mutex = none) :
      queue.HelperStep { queue with mutex := some .helper, pc := .unlock }
  | unlock (hpc : queue.pc = .unlock) :
      queue.HelperStep { queue with mutex := none, pc := .memset }

theorem Queue.helperStep {queue after : Queue} (hstep : queue.helper = some after) :
    queue.HelperStep after := by
  cases hpc : queue.pc <;>
    simp only [Queue.helper, hpc, Option.ite_none_right_eq_some, Option.some.injEq] at hstep
  case memset => exact hstep ▸ .memset hpc
  case msgrcv =>
    cases hmessages : queue.messages with
    | nil => simp [hmessages] at hstep
    | cons message messages =>
      simp only [hmessages, Option.some.injEq] at hstep
      exact hstep ▸ .msgrcv hpc hmessages
  case setLen n => exact hstep ▸ .setLen hpc
  case lock => exact hstep.2 ▸ .lock hpc hstep.1
  case write => exact hstep ▸ .write hpc
  case condWait => exact hstep ▸ .condWait hpc
  case waiting => cases hstep
  case woken => exact hstep.2 ▸ .woken hpc hstep.1
  case unlock => exact hstep ▸ .unlock hpc

inductive State.MainStep (state : State n) : State n → Prop where
  | poll (hpc : state.pc = .poll) (hsock : ∃ i, 0 < (state.queues i).sock) :
      state.MainStep { state with
        revents := fun i => decide (0 < (state.queues i).sock)
        pc := .check 0 }
  | found {i : Nat} (hpc : state.pc = .check i) (hlt : i < n)
      (hrevents : state.revents ⟨i, hlt⟩ = true) :
      state.MainStep { state with pc := .read ⟨i, hlt⟩ }
  | skip {i : Nat} (hpc : state.pc = .check i) (hlt : i < n)
      (hrevents : ¬state.revents ⟨i, hlt⟩ = true) :
      state.MainStep { state with pc := .check (i + 1) }
  | again {i : Nat} (hpc : state.pc = .check i) (hge : n ≤ i) :
      state.MainStep { state with pc := .poll }
  | read {i : Fin n} (hpc : state.pc = .read i) (hsock : 0 < (state.queues i).sock) :
      state.MainStep (state.set i
        { state.queues i with sock := (state.queues i).sock - 1 } (.endText i))
  | endText {i : Fin n} (hpc : state.pc = .endText i) :
      state.MainStep (state.set i
        { state.queues i with
          mtext := (state.queues i).mtext.set (state.queues i).len 0 } (.print i))
  | print {i : Fin n} (hpc : state.pc = .print i) :
      state.MainStep (state.set i
        { state.queues i with
          log := { (state.queues i).log with
            printed := (state.queues i).log.printed ++ [cstr (state.queues i).mtext] } } (.lock i))
  | lock {i : Fin n} (hpc : state.pc = .lock i) (hmutex : (state.queues i).mutex = none) :
      state.MainStep (state.set i { state.queues i with mutex := some .main } (.signal i))
  | signal {i : Fin n} (hpc : state.pc = .signal i) :
      state.MainStep (state.set i
        { state.queues i with
          pc := if (state.queues i).pc = .waiting then .woken else (state.queues i).pc
          log := { (state.queues i).log with
            signals := (state.queues i).log.signals + 1 } } (.unlock i))
  | unlock {i : Fin n} (hpc : state.pc = .unlock i) :
      state.MainStep (state.set i { state.queues i with mutex := none } (.check (i + 1)))

theorem State.mainStep {state after : State n} (hstep : state.main = some after) :
    state.MainStep after := by
  cases hpc : state.pc <;>
    simp only [State.main, hpc, Option.ite_none_right_eq_some, Option.some.injEq] at hstep
  case poll => exact hstep.2 ▸ .poll hpc hstep.1
  case check i =>
    split at hstep
    · rename_i hlt
      split at hstep
      · rename_i hrevents
        cases hstep
        exact .found hpc hlt hrevents
      · rename_i hrevents
        cases hstep
        exact .skip hpc hlt hrevents
    · rename_i hge
      cases hstep
      exact .again hpc (Nat.not_lt.mp hge)
  case read i => exact hstep.2 ▸ .read hpc hstep.1
  case endText i => exact hstep ▸ .endText hpc
  case print i => exact hstep ▸ .print hpc
  case lock i => exact hstep.2 ▸ .lock hpc hstep.1
  case signal i => exact hstep ▸ .signal hpc
  case unlock i => exact hstep ▸ .unlock hpc

structure Initial (messages : Fin n → List Bytes) (state : State n) : Prop where
  poll : state.pc = .poll
  queues : ∀ i, ∃ mtext len, state.queues i =
    ⟨messages i, mtext, len, 0, none, .memset, ⟨[], [], 0⟩⟩

end ApueFormal.Pollmsg
