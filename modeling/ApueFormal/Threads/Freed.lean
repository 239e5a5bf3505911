import ApueFormal.Threads.Model

/-!
# Freed objects

An address is never given out again, so that an object which is freed stays so.  What is
seen of a run tells which objects these are.
-/

namespace ApueFormal.Threads

variable {A T : Type} [DecidableEq A] {fp ptr : A} {foo : Foo A T} {mem : Mem A T}

theorem Mem.put_freed (hcell : mem.cell ptr ≠ .freed) :
    (mem.put ptr foo).cell fp = .freed ↔ mem.cell fp = .freed := by
  rcases eq_or_ne fp ptr with rfl | hne
  · simp [Mem.put, hcell]
  · simp [Mem.put, hne]

variable [DecidableEq T] {t : T} {choice : Choice A} {op : Op A} {answer : op.Answer}
  {mem' : Mem A T}

theorem exec_freed (fp : A) (hexec : exec t choice op mem = .ok (answer, mem')) :
    (mem'.cell fp = .freed ↔ mem.cell fp = .freed ∨ op = .free fp) ∧
      (op = .free fp → mem.cell fp ≠ .freed) := by
  cases op with
  | free ptr =>
    rw [exec, Mem.onFoo] at hexec
    split at hexec
    · rename_i foo hcell
      cases hexec
      rcases eq_or_ne fp ptr with rfl | hne
      · simp [hcell]
      · simp [hne, hne.symm]
    · cases hexec
  | malloc =>
    rw [exec] at hexec
    split at hexec
    · cases hexec
      simp
    · split at hexec
      · rename_i hcell
        cases hexec
        simp [Mem.put_freed, hcell]
      · cases hexec
  | lockHash | unlockHash =>
    rw [exec] at hexec
    split at hexec <;> cases hexec
    simp
  | getHead idx | setHead idx head =>
    cases hexec
    simp
  | _ =>
    rw [exec, Mem.onFoo] at hexec
    split at hexec
    · rename_i foo hcell
      repeat' split at hexec
      all_goals cases hexec
      all_goals simp [Mem.put_freed, hcell]
    · cases hexec

def Event.frees (fp : A) : Event A T → Bool
  | .free _ ptr => ptr = fp
  | _ => false

omit [DecidableEq T] in
theorem Op.events_frees (fp : A) (t : T) (op : Op A) :
    (op.events t).countP (Event.frees fp) = 1 ∧ op = .free fp ∨
      (op.events t).countP (Event.frees fp) = 0 ∧ op ≠ .free fp := by
  cases op with
  | free ptr =>
    by_cases hptr : ptr = fp
    · exact .inl ⟨by simp [Op.events, Event.frees, hptr], by rw [hptr]⟩
    · exact .inr ⟨by simp [Op.events, Event.frees, hptr], by simp [hptr]⟩
  | _ => exact .inr ⟨rfl, nofun⟩

theorem World.run_frees {world world' : World A T} {events : List (Event A T)}
    (hrun : world.run t choice = .ok (events, world')) (fp : A) :
    (events.countP (Event.frees fp) = 1 ∧ world'.mem.cell fp = .freed ∧
        world.mem.cell fp ≠ .freed) ∨
      (events.countP (Event.frees fp) = 0 ∧
        (world'.mem.cell fp = .freed ↔ world.mem.cell fp = .freed)) := by
  cases World.run_ok hrun with
  | result | loop => exact .inr ⟨rfl, Iff.rfl⟩
  | @op call op next answer mem hjob hexec =>
    obtain ⟨hfreed, hnot⟩ := exec_freed fp hexec
    rcases Op.events_frees fp t op with ⟨hcount, hop⟩ | ⟨hcount, hop⟩
    · exact .inl ⟨hcount, hfreed.mpr (.inr hop), hnot hop⟩
    · exact .inr ⟨hcount, hfreed.trans (or_iff_left hop)⟩

theorem Trace.frees {pkg : Package A} {trace : List (Event A T)} {world : World A T}
    (htrace : Trace pkg trace world) (fp : A) :
    (world.mem.cell fp = .freed ∧ trace.countP (Event.frees fp) = 1) ∨
      (world.mem.cell fp ≠ .freed ∧ trace.countP (Event.frees fp) = 0) := by
  induction htrace with
  | start => exact .inr ⟨nofun, rfl⟩
  | @invoke trace world world' t call _ hinvoke ih =>
    obtain ⟨_, _, rfl⟩ := World.invoke_eq_some.mp hinvoke
    rw [List.countP_append]
    exact ih
  | run _ hrun ih =>
    rw [List.countP_append]
    rcases World.run_frees hrun fp with ⟨hcount, hfreed, hnot⟩ | ⟨hcount, hfreed⟩
    · rcases ih with ⟨hold, _⟩ | ⟨_, hzero⟩
      · exact absurd hold hnot
      · exact .inl ⟨hfreed, by omega⟩
    · rcases ih with ⟨hold, hone⟩ | ⟨hold, hzero⟩
      · exact .inl ⟨hfreed.mpr hold, by omega⟩
      · exact .inr ⟨fun heq => hold (hfreed.mp heq), by omega⟩

end ApueFormal.Threads
