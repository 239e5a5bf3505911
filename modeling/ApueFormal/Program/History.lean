import Mathlib.Data.List.Range

/-!
# Histories of a shared object

A history records when a party invokes a call, when it receives the reply, and
remarks of the parties in between.  An object is given by its sequential
behaviour.  A history is linearizable when its completed calls can be put into
one order that respects real time and that the object accepts.
-/

namespace ApueFormal.Program

inductive Event (Pid Call Reply Remark : Type) where
  | invoke (pid : Pid) (call : Call)
  | remark (pid : Pid) (call : Call) (content : Remark)
  | reply (pid : Pid) (call : Call) (answer : Reply)

/-- A sequential object: which replies it accepts and how a call changes it. -/
structure Object (Call Reply State : Type) where
  init : State
  next : State → Call → State
  accepts : State → Call → Reply → Prop

namespace Object

variable {Call Reply State : Type} (object : Object Call Reply State)

def after (calls : List (Call × Reply)) : State :=
  calls.foldl (fun state entry => object.next state entry.1) object.init

/-- Every reply is one that the object accepts at its place. -/
def Legal (calls : List (Call × Reply)) : Prop :=
  ∀ before call reply rest, calls = before ++ (call, reply) :: rest →
    object.accepts (object.after before) call reply

variable {object}

@[simp] theorem after_nil : object.after ([] : List (Call × Reply)) = object.init :=
  rfl

@[simp] theorem after_snoc (calls : List (Call × Reply)) (call : Call) (reply : Reply) :
    object.after (calls ++ [(call, reply)]) = object.next (object.after calls) call := by
  simp [after]

theorem legal_nil : object.Legal ([] : List (Call × Reply)) := by
  intro before call reply rest heq
  simp at heq

theorem legal_snoc {calls : List (Call × Reply)} {call : Call} {reply : Reply} :
    object.Legal (calls ++ [(call, reply)]) ↔
      object.Legal calls ∧ object.accepts (object.after calls) call reply := by
  constructor
  · intro hlegal
    refine ⟨?_, hlegal calls call reply [] rfl⟩
    intro before call' reply' rest heq
    refine hlegal before call' reply' (rest ++ [(call, reply)]) ?_
    rw [heq]
    simp
  · rintro ⟨hlegal, haccepts⟩ before call' reply' rest heq
    rcases List.eq_nil_or_concat rest with rfl | ⟨rest, entry, rfl⟩
    · obtain ⟨rfl, hlast⟩ := List.append_inj' heq rfl
      cases hlast
      exact haccepts
    · rw [List.concat_eq_append, ← List.cons_append, ← List.append_assoc] at heq
      exact hlegal before call' reply' rest (List.append_inj' heq rfl).1

end Object

section Linearizability

variable {Pid Call Reply Remark State : Type}

def Event.completed : Event Pid Call Reply Remark → Option (Call × Reply)
  | .reply _ call answer => some (call, answer)
  | .invoke _ _ => none
  | .remark _ _ _ => none

/-- The completed calls of a history, in the order of their replies. -/
def completed (history : List (Event Pid Call Reply Remark)) : List (Call × Reply) :=
  history.filterMap Event.completed

@[simp] theorem completed_append (first second : List (Event Pid Call Reply Remark)) :
    completed (first ++ second) = completed first ++ completed second :=
  List.filterMap_append

section

variable (pid : Pid) (call : Call)

@[simp] theorem completed_invoke :
    completed [(.invoke pid call : Event Pid Call Reply Remark)] = [] := rfl

@[simp] theorem completed_remark (content : Remark) :
    completed [(.remark pid call content : Event Pid Call Reply Remark)] = [] :=
  rfl

@[simp] theorem completed_reply (answer : Reply) :
    completed [(.reply pid call answer : Event Pid Call Reply Remark)] = [(call, answer)] := rfl

end

/-- The reply at position `finish` answers the invocation at `start`. -/
def Answers (history : List (Event Pid Call Reply Remark)) (start finish : Nat) : Prop :=
  start < finish ∧ ∃ pid call reply, history[start]? = some (.invoke pid call) ∧
    history[finish]? = some (.reply pid call reply) ∧ ∀ i, start < i → i < finish → ∀ other,
      history[i]? ≠ some (.invoke pid other)

/-- The call that ends at `first` has ended before the call that ends at
`second` begins. -/
def Precedes (history : List (Event Pid Call Reply Remark)) (first second : Nat) : Prop :=
  ∃ start, Answers history start second ∧ first < start

/-- The completed calls, each named by the position of its reply, can be
ordered in a way that respects real time and is accepted by the object. -/
def Linearizable (object : Object Call Reply State)
    (history : List (Event Pid Call Reply Remark)) : Prop :=
  ∃ order : List Nat, order.Nodup ∧
    (∀ i, i ∈ order ↔ ∃ event, history[i]? = some event ∧ event.completed.isSome) ∧
    order.Pairwise (fun first second => ¬ Precedes history second first) ∧
    object.Legal (order.filterMap fun i => history[i]?.bind Event.completed)

private theorem filterMap_range (history : List (Event Pid Call Reply Remark)) :
    (List.range history.length).filterMap
      (fun i => history[i]?.bind Event.completed) = completed history := by
  induction history using List.reverseRecOn with
  | nil => rfl
  | append_singleton history event ih =>
    have hbefore : (List.range history.length).filterMap
        (fun i => (history ++ [event])[i]?.bind Event.completed) = completed history := by
      rw [← ih]
      refine List.filterMap_congr fun i hi => ?_
      rw [List.getElem?_append_left (List.mem_range.mp hi)]
    rw [List.length_append, List.length_singleton, List.range_succ,
      List.filterMap_append, hbefore, completed_append]
    simp [completed, List.filterMap_cons]

/-- The positions of the replies. -/
private def replies (history : List (Event Pid Call Reply Remark)) : List Nat :=
  (List.range history.length).filter fun i => (history[i]?.bind Event.completed).isSome

private theorem mem_replies {history : List (Event Pid Call Reply Remark)} {i : Nat} :
    i ∈ replies history ↔ ∃ event, history[i]? = some event ∧ event.completed.isSome := by
  rw [replies, List.mem_filter, List.mem_range, Option.isSome_bind]
  constructor
  · rintro ⟨hlt, hsome⟩
    refine ⟨history[i], List.getElem?_eq_getElem hlt, ?_⟩
    simpa [List.getElem?_eq_getElem hlt] using hsome
  · rintro ⟨event, hget, hsome⟩
    refine ⟨(List.getElem?_eq_some_iff.mp hget).1, ?_⟩
    simpa [hget] using hsome

private theorem filterMap_replies (history : List (Event Pid Call Reply Remark)) :
    (replies history).filterMap (fun i => history[i]?.bind Event.completed) =
      completed history := by
  rw [replies, List.filterMap_filter]
  have hsame : (fun i : Nat => if (history[i]?.bind Event.completed).isSome = true
      then history[i]?.bind Event.completed else none) =
      fun i : Nat => history[i]?.bind Event.completed := by
    funext i
    cases history[i]?.bind Event.completed <;> rfl
  rw [hsame, filterMap_range]

variable {history : List (Event Pid Call Reply Remark)} {object : Object Call Reply State}

theorem linearizable_of_legal (hlegal : object.Legal (completed history)) :
    Linearizable object history := by
  refine ⟨replies history, List.nodup_range.filter _, fun i => mem_replies, ?_, ?_⟩
  · refine (List.pairwise_lt_range.filter _).imp ?_
    rintro first second hlt ⟨start, ⟨hstart, _⟩, hbefore⟩
    omega
  · rw [filterMap_replies]
    exact hlegal

theorem Linearizable.exists_legal (hlinearizable : Linearizable object history) :
    ∃ calls, calls.Perm (completed history) ∧ object.Legal calls := by
  obtain ⟨order, hnodup, hmem, _, hlegal⟩ := hlinearizable
  have hperm : order.Perm (replies history) :=
    (List.perm_ext_iff_of_nodup hnodup (List.nodup_range.filter _)).mpr
      fun i => (hmem i).trans mem_replies.symm
  refine ⟨_, ?_, hlegal⟩
  rw [← filterMap_replies history]
  exact hperm.filterMap _

end Linearizability

end ApueFormal.Program
