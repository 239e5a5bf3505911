import ApueFormal.Program.Chain
import ApueFormal.Program.System
import Mathlib.Data.List.Perm.Basic

/-!
# A work queue with a condition variable

The threads of `condvar.c`: consumers run `process_msg` and producers call
`enqueue_msg`.  The queue is only touched under `qlock`, and the signal is sent after
the lock has been released.  A wakeup may be spurious, and a consumer that was woken
may find the queue empty again.
-/

namespace ApueFormal.Condvar

open Function Program

/-- What a thread in `process_msg` does next. -/
inductive Consumer (M : Type) where
  /-- It takes the lock at the start of the loop. -/
  | starting
  /-- It has the lock and tests `workq`. -/
  | testing
  /-- The queue was empty, and it calls `pthread_cond_wait`. -/
  | empty
  /-- It is blocked in `pthread_cond_wait`. -/
  | waiting
  /-- It takes the lock again in `pthread_cond_wait`. -/
  | woken
  /-- The queue was not empty, and it reads `workq`. -/
  | picking
  /-- It reads `mp->m_next` and sets `workq`. -/
  | advancing (mp : M)
  /-- It releases the lock. -/
  | picked (mp : M)
  | processing (mp : M)

/-- What a thread does next that calls `enqueue_msg`. -/
inductive Producer (M : Type) where
  | idle
  /-- It takes the lock. -/
  | locking (mp : M)
  /-- It has the lock and sets `mp->m_next`. -/
  | linking (mp : M)
  /-- It sets `workq`. -/
  | pushing (mp : M)
  /-- It releases the lock. -/
  | pushed
  /-- It calls `pthread_cond_signal`. -/
  | signalling

/-- The memory and the threads, with the messages that were given to `enqueue_msg`, those
that were put into the queue, and those that were taken out and by whom. -/
structure State (C P M : Type) where
  mNext : M → Option M
  workq : Option M
  qlock : Option (C ⊕ P)
  consumer : C → Consumer M
  producer : P → Producer M
  begun : List M
  enqueued : List M
  taken : List (C × M)

/-- Before the first message; the messages in memory may hold anything. -/
def Start {C P M : Type} (state : State C P M) : Prop :=
  state.workq = none ∧ state.qlock = none ∧ (∀ c, state.consumer c = .starting) ∧
    (∀ p, state.producer p = .idle) ∧ state.begun = [] ∧ state.enqueued = [] ∧ state.taken = []

section Steps

variable {C P M : Type}

/-- The thread has `qlock`. -/
def Consumer.holds : Consumer M → Bool
  | testing | empty | picking | advancing _ | picked _ => true
  | _ => false

def Producer.holds : Producer M → Bool
  | linking _ | pushing _ | pushed => true
  | _ => false

/-- The thread has put a message into the queue and has its signal to send. -/
def Producer.signals : Producer M → Bool
  | pushed | signalling => true
  | _ => false

/-- The message that is not yet in the queue. -/
def Producer.carries : Producer M → Option M
  | locking mp | linking mp | pushing mp => some mp
  | _ => none

def Consumer.hand : Consumer M → Option M
  | picked mp | processing mp => some mp
  | _ => none

variable [DecidableEq C] [DecidableEq P] [DecidableEq M] in
inductive Step (state : State C P M) : State C P M → Prop where
  | lockC (c : C) (hphase : state.consumer c = .starting ∨ state.consumer c = .woken)
      (hfree : state.qlock = none) :
      Step state { state with
        consumer := Function.update state.consumer c .testing
        qlock := some (.inl c) }
  | test (c : C) (hphase : state.consumer c = .testing) :
      Step state { state with
        consumer := Function.update state.consumer c
          (if state.workq = none then .empty else .picking) }
  | wait (c : C) (hphase : state.consumer c = .empty) :
      Step state { state with
        consumer := Function.update state.consumer c .waiting
        qlock := none }
  | spurious (c : C) (hphase : state.consumer c = .waiting) :
      Step state { state with consumer := Function.update state.consumer c .woken }
  | pick (c : C) (mp : M) (hphase : state.consumer c = .picking) (hworkq : state.workq = some mp) :
      Step state { state with consumer := Function.update state.consumer c (.advancing mp) }
  | advance (c : C) (mp : M) (hphase : state.consumer c = .advancing mp) :
      Step state { state with
        consumer := Function.update state.consumer c (.picked mp)
        workq := state.mNext mp
        taken := state.taken ++ [(c, mp)] }
  | unlockC (c : C) (mp : M) (hphase : state.consumer c = .picked mp) :
      Step state { state with
        consumer := Function.update state.consumer c (.processing mp)
        qlock := none }
  /-- The message is processed; its memory may be used for anything. -/
  | process (c : C) (mp : M) (next : Option M) (hphase : state.consumer c = .processing mp) :
      Step state { state with
        consumer := Function.update state.consumer c .starting
        mNext := Function.update state.mNext mp next }
  /-- `enqueue_msg` is called with a message that it has not been called with before. -/
  | call (p : P) (mp : M) (hphase : state.producer p = .idle) (hnew : mp ∉ state.begun) :
      Step state { state with
        producer := Function.update state.producer p (.locking mp)
        begun := mp :: state.begun }
  | lockP (p : P) (mp : M) (hphase : state.producer p = .locking mp) (hfree : state.qlock = none) :
      Step state { state with
        producer := Function.update state.producer p (.linking mp)
        qlock := some (.inr p) }
  | link (p : P) (mp : M) (hphase : state.producer p = .linking mp) :
      Step state { state with
        producer := Function.update state.producer p (.pushing mp)
        mNext := Function.update state.mNext mp state.workq }
  | push (p : P) (mp : M) (hphase : state.producer p = .pushing mp) :
      Step state { state with
        producer := Function.update state.producer p .pushed
        workq := some mp
        enqueued := state.enqueued ++ [mp] }
  | unlockP (p : P) (hphase : state.producer p = .pushed) :
      Step state { state with
        producer := Function.update state.producer p .signalling
        qlock := none }
  /-- The signal wakes any number of waiters, and one at least if there is one. -/
  | signal (p : P) (wakes : C → Bool) (hphase : state.producer p = .signalling)
      (hwaiting : ∀ c, wakes c = true → state.consumer c = .waiting)
      (hone : (∃ c, state.consumer c = .waiting) → ∃ c, wakes c = true) :
      Step state { state with
        producer := Function.update state.producer p .idle
        consumer := fun c => if wakes c then .woken else state.consumer c }

section States

variable {state state' : State C P M} {queue : List M} {mp : M} {phase : Producer M}

/-- The thread that has the lock is the one that thinks so. -/
structure Locked (state : State C P M) : Prop where
  consumer : ∀ c, (state.consumer c).holds = true ↔ state.qlock = some (.inl c)
  producer : ∀ p, (state.producer p).holds = true ↔ state.qlock = some (.inr p)

/-- What the thread with the lock knows about the queue. -/
def Consumer.Knows (workq : Option M) : Consumer M → Prop
  | empty => workq = none
  | picking => workq ≠ none
  | advancing mp => workq = some mp
  | _ => True

def Producer.Knows (mNext : M → Option M) (workq : Option M) : Producer M → Prop
  | pushing mp => mNext mp = workq
  | _ => True

/-- The messages that are met from `workq` on. -/
def Queued (state : State C P M) (queue : List M) : Prop :=
  Chain (fun mp => some ((), state.mNext mp)) state.workq (queue.map (·, ()))

/-- A message is with its producer, in the queue or taken. -/
structure Inv (state : State C P M) (queue : List M) : Prop where
  locked : Locked state
  knowsC : ∀ c, (state.consumer c).Knows state.workq
  knowsP : ∀ p, (state.producer p).Knows state.mNext state.workq
  begun : ∀ mp ∈ state.enqueued, mp ∈ state.begun
  carried : ∀ p mp, (state.producer p).carries = some mp → mp ∈ state.begun ∧ mp ∉ state.enqueued
  apart : ∀ p p' mp, (state.producer p).carries = some mp →
    (state.producer p').carries = some mp → p = p'
  hand : ∀ c mp, (state.consumer c).hand = some mp → (c, mp) ∈ state.taken
  queued : Queued state queue
  kept : (queue ++ state.taken.map Prod.snd).Perm state.enqueued
  nodup : state.enqueued.Nodup

theorem Consumer.knows_of_holds {phase : Consumer M} (hholds : phase.holds = false)
    (workq : Option M) : phase.Knows workq := by
  cases phase <;> trivial

theorem Producer.knows_of_holds (hholds : phase.holds = false) (mNext : M → Option M)
    (workq : Option M) : phase.Knows mNext workq := by
  cases phase <;> trivial

theorem Producer.Knows.write [DecidableEq M] {mNext : M → Option M} {workq : Option M}
    (hknows : phase.Knows mNext workq) (hne : phase.carries ≠ some mp) (next : Option M) :
    phase.Knows (update mNext mp next) workq := by
  cases phase with
  | pushing other =>
    have hother : other ≠ mp := fun heq => hne (congrArg some heq)
    exact (update_of_ne hother ..).trans hknows
  | _ => trivial

theorem Queued.write [DecidableEq M] (hqueued : Queued state queue) (hout : mp ∉ queue)
    (next : Option M) : Queued { state with mNext := update state.mNext mp next } queue := by
  refine Chain.congr hqueued fun node hmem => ?_
  obtain ⟨other, hother, rfl⟩ := List.mem_map.mp hmem
  have hne : other ≠ mp := by
    rintro rfl
    exact hout hother
  simp [update_of_ne hne]

theorem Inv.mem_enqueued (hinv : Inv state queue) {c : C}
    (hhand : (state.consumer c).hand = some mp) : mp ∈ state.enqueued ∧ mp ∉ queue := by
  have hmem : mp ∈ state.taken.map Prod.snd := List.mem_map_of_mem (hinv.hand c mp hhand)
  refine ⟨hinv.kept.mem_iff.mp (List.mem_append_right _ hmem), fun hqueue => ?_⟩
  have hnodup := hinv.kept.nodup_iff.mpr hinv.nodup
  exact (List.nodup_append.mp hnodup).2.2 mp hqueue mp hmem rfl

theorem inv_start (hstart : Start state) : Inv state [] := by
  obtain ⟨hworkq, hlock, hconsumer, hproducer, hbegun, henqueued, htaken⟩ := hstart
  refine ⟨⟨fun c => ?_, fun p => ?_⟩, fun c => ?_, fun p => ?_, ?_, fun p mp => ?_,
    fun p p' mp => ?_, fun c mp => ?_, hworkq, ?_, ?_⟩
  · simp [hconsumer c, hlock, Consumer.holds]
  · simp [hproducer p, hlock, Producer.holds]
  · simp [hconsumer c, Consumer.Knows]
  · simp [hproducer p, Producer.Knows]
  · simp [henqueued]
  · simp [hproducer p, Producer.carries]
  · simp [hproducer p, Producer.carries]
  · simp [hconsumer c, Consumer.hand]
  · simp [htaken, henqueued]
  · simp [henqueued]

theorem Inv.placed (hinv : Inv state queue) : (queue ++ state.taken.map Prod.snd).Nodup ∧
      (∀ mp, mp ∈ state.enqueued ↔ mp ∈ queue ∨ ∃ c, (c, mp) ∈ state.taken) ∧
      ∀ mp ∈ state.enqueued, (mp ∈ queue ∧ ∀ c, (c, mp) ∉ state.taken) ∨
        (mp ∉ queue ∧ ∃! c, (c, mp) ∈ state.taken) := by
  have hnodup := hinv.kept.nodup_iff.mpr hinv.nodup
  have hparts := List.nodup_append.mp hnodup
  have hplace : ∀ mp, mp ∈ state.enqueued ↔ mp ∈ queue ∨ ∃ c, (c, mp) ∈ state.taken := by
    intro mp
    rw [← hinv.kept.mem_iff, List.mem_append]
    simp
  refine ⟨hnodup, hplace, fun mp hmem => ?_⟩
  rcases (hplace mp).mp hmem with hqueue | ⟨c, htaken⟩
  · refine .inl ⟨hqueue, fun c htaken => ?_⟩
    exact hparts.2.2 mp hqueue mp (List.mem_map_of_mem htaken) rfl
  · refine .inr ⟨fun hqueue => ?_, c, htaken, fun other hother => ?_⟩
    · exact hparts.2.2 mp hqueue mp (List.mem_map_of_mem htaken) rfl
    · exact congrArg Prod.fst (List.inj_on_of_nodup_map hparts.2.1 hother htaken rfl)

/-- Someone will look after a queue that is not empty. -/
def Awake (state : State C P M) : Prop :=
  state.workq ≠ none → (∃ c, state.consumer c ≠ .waiting) ∨ ∃ p, (state.producer p).signals = true

/-- A producer that goes on without a signal to send does not matter. -/
theorem Awake.producer [DecidableEq P] (hawake : Awake state) (hworkq : state'.workq = state.workq)
    (hconsumer : state'.consumer = state.consumer) {p : P}
    (hproducer : state'.producer = update state.producer p phase)
    (hsilent : (state.producer p).signals = false) : Awake state' := by
  intro hne
  rw [hworkq] at hne
  rcases hawake hne with ⟨c, hc⟩ | ⟨other, hother⟩
  · exact .inl ⟨c, by rwa [hconsumer]⟩
  · refine .inr ⟨other, ?_⟩
    have hdiff : other ≠ p := by
      rintro rfl
      rw [hsilent] at hother
      cases hother
    rwa [hproducer, update_of_ne hdiff]

end States

variable [DecidableEq C] [DecidableEq P] [DecidableEq M] {state state' : State C P M}

theorem Locked.step (hlocked : Locked state) (hstep : Step state state') : Locked state' := by
  obtain ⟨hconsumer, hproducer⟩ := hlocked
  cases hstep <;> constructor <;> intro t <;>
    grind [update_apply, Consumer.holds, Producer.holds]

section

variable {queue : List M} (hinv : Inv state queue) (hstep : Step state state')
include hinv hstep

theorem Inv.queued_step : ∃ queue', Queued state' queue' ∧
      (queue' ++ state'.taken.map Prod.snd).Perm state'.enqueued := by
  cases hstep with
  | process c mp next hphase =>
    have hmem := hinv.mem_enqueued (show (state.consumer c).hand = some mp by rw [hphase]; rfl)
    exact ⟨queue, hinv.queued.write hmem.2 next, hinv.kept⟩
  | link p mp hphase =>
    have hcarried := hinv.carried p mp (by rw [hphase]; rfl)
    refine ⟨queue, hinv.queued.write (fun hmem => hcarried.2 ?_) state.workq, hinv.kept⟩
    exact hinv.kept.mem_iff.mp (List.mem_append_left _ hmem)
  | push p mp hphase =>
    have hnext := hinv.knowsP p
    rw [hphase] at hnext
    refine ⟨mp :: queue, ⟨rfl, _, rfl, ?_⟩, ?_⟩
    · exact (show state.mNext mp = state.workq from hnext) ▸ hinv.queued
    · exact (hinv.kept.cons mp).trans (List.perm_append_singleton mp state.enqueued).symm
  | advance c mp hphase =>
    have hhead := hinv.knowsC c
    rw [hphase] at hhead
    have hqueued := hinv.queued
    have hkept := hinv.kept
    cases queue with
    | nil => cases hhead.symm.trans hqueued
    | cons first rest =>
      obtain ⟨hfirst, next, hlook, hrest⟩ := hqueued
      cases hhead.symm.trans hfirst
      cases hlook
      refine ⟨rest, hrest, List.Perm.trans ?_ hkept⟩
      rw [List.map_append, ← List.append_assoc]
      exact List.perm_append_singleton mp _
  | _ => exact ⟨queue, hinv.queued, hinv.kept⟩

theorem Inv.knowsC_step (c : C) : (state'.consumer c).Knows state'.workq := by
  obtain ⟨hconsumer, hproducer⟩ := hinv.locked
  have hknows := hinv.knowsC c
  have hlock := hconsumer c
  cases hstep <;>
    grind [update_apply, Consumer.holds, Producer.holds, Consumer.Knows,
      Consumer.knows_of_holds]

theorem Inv.knowsP_step (p : P) : (state'.producer p).Knows state'.mNext state'.workq := by
  obtain ⟨hconsumer, hproducer⟩ := hinv.locked
  have hknows := hinv.knowsP p
  have hlock := hproducer p
  cases hstep with
  | process c mp next hphase =>
    have hmem := hinv.mem_enqueued (show (state.consumer c).hand = some mp by rw [hphase]; rfl)
    exact hknows.write (fun hcarries => (hinv.carried p mp hcarries).2 hmem.1) next
  | _ =>
    grind [update_apply, Consumer.holds, Producer.holds, Producer.Knows,
      Producer.knows_of_holds]

theorem Inv.carried_step : (∀ mp ∈ state'.enqueued, mp ∈ state'.begun) ∧
      (∀ p mp, (state'.producer p).carries = some mp →
        mp ∈ state'.begun ∧ mp ∉ state'.enqueued) ∧
      (∀ p p' mp, (state'.producer p).carries = some mp →
        (state'.producer p').carries = some mp → p = p') ∧
      state'.enqueued.Nodup := by
  have hbegun := hinv.begun
  have hcarried := hinv.carried
  have hapart := hinv.apart
  have hnodup := hinv.nodup
  cases hstep <;> grind [update_apply, Producer.carries]

theorem Inv.hand_step (c : C) (mp : M)
    (hhand' : (state'.consumer c).hand = some mp) : (c, mp) ∈ state'.taken := by
  have hhand := hinv.hand
  cases hstep <;> grind [update_apply, Consumer.hand]

theorem Inv.step : ∃ queue', Inv state' queue' := by
  obtain ⟨queue', hqueued, hkept⟩ := hinv.queued_step hstep
  obtain ⟨hbegun, hcarried, hapart, hnodup⟩ := hinv.carried_step hstep
  exact ⟨queue', hinv.locked.step hstep, hinv.knowsC_step hstep, hinv.knowsP_step hstep, hbegun,
    hcarried, hapart, hinv.hand_step hstep, hqueued, hkept, hnodup⟩

theorem Inv.awake_step [Nonempty C] (hawake : Awake state) : Awake state' := by
  cases hstep with
  | wait c hphase =>
    have hempty := hinv.knowsC c
    rw [hphase] at hempty
    exact fun hne => absurd hempty hne
  | call p mp hphase hnew | lockP p mp hphase hfree | link p mp hphase =>
    exact hawake.producer rfl rfl rfl (by rw [hphase]; rfl)
  | push p mp hphase | unlockP p hphase => exact fun _ => .inr ⟨p, by simp [Producer.signals]⟩
  | signal p wakes hphase hwaiting hone =>
    refine fun _ => .inl ?_
    by_cases hwaiter : ∃ c, state.consumer c = .waiting
    · obtain ⟨c, hwakes⟩ := hone hwaiter
      exact ⟨c, by simp [hwakes]⟩
    · obtain ⟨c⟩ := ‹Nonempty C›
      refine ⟨c, ?_⟩
      dsimp only
      split
      · exact nofun
      · exact fun heq => hwaiter ⟨c, heq⟩
  | test c hphase =>
    refine fun _ => .inl ⟨c, ?_⟩
    dsimp only
    rw [update_self]
    split <;> exact nofun
  | lockC c | spurious c | pick c | advance c | unlockC c | process c =>
    exact fun _ => .inl ⟨c, by simp⟩

end

theorem inv_of_reaches (hreaches : Reaches Start Step state) : ∃ queue, Inv state queue := by
  refine @Reaches.invariant _ _ _ (fun state => ∃ queue, Inv state queue) ?_ ?_ _ hreaches
  · exact fun state hstart => ⟨[], inv_start hstart⟩
  · rintro state state' ⟨queue, hinv⟩ hstep
    exact hinv.step hstep

theorem awake_of_reaches [Nonempty C] (hreaches : Reaches Start Step state) : Awake state := by
  induction hreaches with
  | start hstart => exact fun hne => absurd hstart.1 hne
  | step hbefore hstep ih =>
    obtain ⟨queue, hinv⟩ := inv_of_reaches hbefore
    exact hinv.awake_step hstep ih

/-- Every message that was put into the queue is in it or was taken by exactly one
consumer, nothing else is there, and the consumers do not all sleep over a queue that is
not empty when no signal is under way.  No consumer reads past an empty queue. -/
theorem workq_loses_nothing (hreaches : Reaches Start Step state) :
    (∃ queue, Queued state queue ∧ (queue ++ state.taken.map Prod.snd).Nodup ∧
      (∀ mp, mp ∈ state.enqueued ↔ mp ∈ queue ∨ ∃ c, (c, mp) ∈ state.taken) ∧
      ∀ mp ∈ state.enqueued, (mp ∈ queue ∧ ∀ c, (c, mp) ∉ state.taken) ∨
        (mp ∉ queue ∧ ∃! c, (c, mp) ∈ state.taken)) ∧
      (Nonempty C → ¬(state.workq ≠ none ∧ (∀ c, state.consumer c = .waiting) ∧
        ∀ p, (state.producer p).signals = false)) ∧
      ∀ c, state.consumer c = .picking → state.workq ≠ none := by
  obtain ⟨queue, hinv⟩ := inv_of_reaches hreaches
  refine ⟨⟨queue, hinv.queued, hinv.placed⟩, ?_, fun c hphase => ?_⟩
  · rintro hsome ⟨hworkq, hwaiting, hsilent⟩
    rcases awake_of_reaches hreaches hworkq with ⟨c, hc⟩ | ⟨p, hp⟩
    · exact hc (hwaiting c)
    · rw [hsilent p] at hp
      cases hp
  · have hknows := hinv.knowsC c
    rw [hphase] at hknows
    exact hknows

/-- The consumer sleeps, and the producer has put message 5 into the queue. -/
theorem workq_loses_nothing_asleep : ∃ state : State Unit Unit Nat,
    Reaches Start Step state ∧ state.workq = some 5 ∧ state.consumer () = .waiting ∧
      ¬(state.workq ≠ none ∧ (∀ c, state.consumer c = .waiting) ∧
        ∀ p, (state.producer p).signals = false) := by
  let start : State Unit Unit Nat :=
    ⟨fun _ => none, none, none, fun _ => .starting, fun _ => .idle, [], [], []⟩
  have hstart : Reaches Start Step start :=
    .start ⟨rfl, rfl, fun _ => rfl, fun _ => rfl, rfl, rfl, rfl⟩
  have htesting := hstart.step (.lockC () (.inl rfl) rfl)
  have hempty := htesting.step (.test () rfl)
  have hwaiting := hempty.step (.wait () rfl)
  have hcalled := hwaiting.step (.call () 5 rfl nofun)
  have hlinking := hcalled.step (.lockP () 5 rfl rfl)
  have hpushing := hlinking.step (.link () 5 rfl)
  have hpushed := hpushing.step (.push () 5 rfl)
  have hsignalling := hpushed.step (.unlockP () rfl)
  exact ⟨_, hsignalling, rfl, rfl, (workq_loses_nothing hsignalling).2.1 ⟨()⟩⟩

end Steps

end ApueFormal.Condvar
