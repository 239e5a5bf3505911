import Mathlib.Data.List.Nodup
import Mathlib.Logic.Function.Basic

/-!
# Singly linked lists

A chain is a list of nodes that follow each other from a pointer to the null pointer.
What a pointer leads to is given by a function, so that only the fields that matter for
the chain are looked at.
-/

namespace ApueFormal.Program

variable {Ptr V : Type}

abbrev Look (Ptr V : Type) := Ptr → Option (V × Option Ptr)

def headOf (nodes : List (Ptr × V)) : Option Ptr := nodes.head?.map Prod.fst

@[simp] theorem headOf_nil : headOf ([] : List (Ptr × V)) = none := rfl

@[simp] theorem headOf_cons (node : Ptr × V) (rest : List (Ptr × V)) :
    headOf (node :: rest) = some node.1 := rfl

/-- The nodes from a pointer to the null pointer. -/
def Chain (look : Look Ptr V) : Option Ptr → List (Ptr × V) → Prop
  | head, [] => head = none
  | head, (ptr, value) :: rest =>
    head = some ptr ∧ ∃ next, look ptr = some (value, next) ∧ Chain look next rest

variable {look look' : Look Ptr V} {head : Option Ptr} {nodes : List (Ptr × V)}
variable {value : V} {ptr : Ptr}

section

variable (hchain : Chain look head nodes)
include hchain

theorem Chain.head_eq : head = headOf nodes := by
  cases nodes with
  | nil => exact hchain
  | cons node rest => exact hchain.1

theorem Chain.unique {nodes' : List (Ptr × V)}
    (hchain' : Chain look head nodes') : nodes = nodes' := by
  induction nodes generalizing head nodes' with
  | nil =>
    cases nodes' with
    | nil => rfl
    | cons node' rest' => cases hchain.symm.trans hchain'.1
  | cons node rest ih =>
    obtain ⟨rfl, next, hnode, hrest⟩ := hchain
    cases nodes' with
    | nil => cases hchain'
    | cons node' rest' =>
      obtain ⟨hhead, next', hnode', hrest'⟩ := hchain'
      obtain ⟨ptr, value⟩ := node
      obtain ⟨ptr', value'⟩ := node'
      cases hhead
      cases hnode.symm.trans hnode'
      rw [ih hrest hrest']

omit hchain in
/-- The nodes before some place stay as they are. -/
theorem Chain.front {front rest rest' : List (Ptr × V)} (hchain : Chain look head (front ++ rest))
    (hlook : ∀ node ∈ front, look' node.1 = look node.1)
    (hrest : ∀ {head}, Chain look head rest → Chain look' head rest') :
    Chain look' head (front ++ rest') := by
  induction front generalizing head with
  | nil => exact hrest hchain
  | cons node front ih =>
    obtain ⟨rfl, next, hnode, hchain⟩ := hchain
    refine ⟨rfl, next, (hlook node List.mem_cons_self).trans hnode, ?_⟩
    exact ih hchain fun other hother => hlook other (List.mem_cons_of_mem _ hother)

theorem Chain.congr
    (hlook : ∀ node ∈ nodes, look' node.1 = look node.1) : Chain look' head nodes := by
  rw [← List.append_nil nodes] at hchain ⊢
  exact hchain.front hlook id

omit hchain in
theorem Chain.get {before after : List (Ptr × V)}
    (hchain : Chain look head (before ++ (ptr, value) :: after)) :
    look ptr = some (value, headOf after) := by
  induction before generalizing head with
  | nil =>
    obtain ⟨_, next, hnode, hrest⟩ := hchain
    rw [hnode, hrest.head_eq]
  | cons node before ih =>
    obtain ⟨_, next, _, hrest⟩ := hchain
    exact ih hrest

theorem Chain.get_mem (hmem : (ptr, value) ∈ nodes) : ∃ next, look ptr = some (value, next) := by
  obtain ⟨before, after, rfl⟩ := List.append_of_mem hmem
  exact ⟨_, hchain.get⟩

end

theorem Chain.tail {node : Ptr × V} {rest : List (Ptr × V)}
    (hchain : Chain look head (node :: rest)) : Chain look (headOf rest) rest := by
  obtain ⟨_, next, _, hrest⟩ := hchain
  rwa [← hrest.head_eq]

theorem Chain.unlink {before after : List (Ptr × V)} {prev : Ptr} {value' : V}
    (hchain : Chain look head (before ++ (prev, value') :: (ptr, value) :: after))
    (hprev : look' prev = some (value', headOf after))
    (hlook : ∀ node ∈ before ++ after, look' node.1 = look node.1) :
    Chain look' head (before ++ (prev, value') :: after) := by
  obtain ⟨hbefore, hafter⟩ := List.forall_mem_append.mp hlook
  refine hchain.front hbefore ?_
  rintro _ ⟨rfl, next, _, hrest⟩
  exact ⟨rfl, _, hprev, hrest.tail.congr hafter⟩

theorem Chain.snoc {front : List (Ptr × V)} {last : Ptr} {value' : V}
    (hchain : Chain look head (front ++ [(last, value')]))
    (hlast : look' last = some (value', some ptr)) (hnew : look' ptr = some (value, none))
    (hlook : ∀ node ∈ front, look' node.1 = look node.1) :
    Chain look' head (front ++ [(last, value'), (ptr, value)]) :=
  hchain.front hlook fun hend => ⟨hend.1, _, hlast, rfl, _, hnew, rfl⟩

end ApueFormal.Program
