import Mathlib.Data.List.Induction
import Mathlib.Data.List.Nodup
import Mathlib.Logic.Function.Basic

/-!
# Doubly linked lists in a store

A store maps pointers to nodes with a pointer in both directions.  A segment is
a part of a list together with the two pointers that lead out of it, so that
lists can be cut and joined at any place.
-/

namespace ApueFormal.Program

structure Node (Ptr α : Type) where
  next : Option Ptr
  prev : Option Ptr
  value : α
  deriving DecidableEq

/-- The nodes that have been allocated and not freed. -/
abbrev Store (Ptr α : Type) := Ptr → Option (Node Ptr α)

namespace Store

variable {Ptr α : Type} [DecidableEq Ptr]

def put (store : Store Ptr α) (ptr : Ptr) (node : Node Ptr α) : Store Ptr α :=
  Function.update store ptr (some node)

def free (store : Store Ptr α) (ptr : Ptr) : Store Ptr α :=
  Function.update store ptr none

/-- Assign to the `next` field; there must be a node. -/
def setNext (store : Store Ptr α) (ptr : Ptr) (next : Option Ptr) : Option (Store Ptr α) :=
  (store ptr).map fun node => store.put ptr { node with next := next }

/-- Assign to the `prev` field; there must be a node. -/
def setPrev (store : Store Ptr α) (ptr : Ptr) (prev : Option Ptr) : Option (Store Ptr α) :=
  (store ptr).map fun node => store.put ptr { node with prev := prev }

/-- Assign to the `next` field unless the pointer is null. -/
def linkOn (store : Store Ptr α) (next : Option Ptr) : Option Ptr → Option (Store Ptr α)
  | none => some store
  | some ptr => store.setNext ptr next

/-- Assign to the `prev` field unless the pointer is null. -/
def linkBack (store : Store Ptr α) (prev : Option Ptr) : Option Ptr → Option (Store Ptr α)
  | none => some store
  | some ptr => store.setPrev ptr prev

/-- Make the neighbours of a node point to each other. -/
def unlink (store : Store Ptr α) (ptr : Ptr) : Option (Store Ptr α) := do
  let node ← store ptr
  let store ← store.linkBack node.prev node.next
  let node ← store ptr
  store.linkOn node.next node.prev

/-- Run through a list until a node passes a test.  The walk fails when it runs
into a freed node or out of fuel. -/
def find (store : Store Ptr α) (test : α → Bool) : Nat → Option Ptr → Option (Option Ptr)
  | 0, _ => none
  | _ + 1, none => some none
  | fuel + 1, some ptr =>
    match store ptr with
    | none => none
    | some node =>
      if test node.value then some (some ptr) else store.find test fuel node.next

def walk (store : Store Ptr α) : Nat → Option Ptr → Option (List α)
  | 0, _ => none
  | _ + 1, none => some []
  | fuel + 1, some ptr =>
    match store ptr with
    | none => none
    | some node => (store.walk fuel node.next).map (node.value :: ·)

/-- The nodes met when one of the links is followed to its end. -/
def follow (store : Store Ptr α) (link : Node Ptr α → Option Ptr) :
    Nat → Option Ptr → Option (List (Ptr × α))
  | 0, _ => none
  | _ + 1, none => some []
  | fuel + 1, some ptr =>
    match store ptr with
    | none => none
    | some node => (store.follow link fuel (link node)).map ((ptr, node.value) :: ·)

omit [DecidableEq Ptr] in
theorem find_le (store : Store Ptr α) {test : α → Bool} {fuel more : Nat} {head : Option Ptr}
    {found : Option Ptr} (hfind : store.find test fuel head = some found) (hle : fuel ≤ more) :
    store.find test more head = some found := by
  induction fuel generalizing more head with
  | zero => cases hfind
  | succ fuel ih =>
    obtain ⟨spare, rfl⟩ := Nat.exists_eq_add_of_lt hle
    cases head with
    | none => exact hfind
    | some ptr =>
      rw [find] at hfind ⊢
      split at hfind
      next => cases hfind
      next node hnode =>
        split
        next htest => rwa [if_pos htest] at hfind
        next htest =>
          rw [if_neg htest] at hfind
          exact ih hfind (Nat.le_of_succ_le_succ hle)

theorem put_self (store : Store Ptr α) (ptr : Ptr) (node : Node Ptr α) :
    store.put ptr node ptr = some node := Function.update_self ..

theorem put_of_ne (store : Store Ptr α) {ptr other : Ptr} (hne : other ≠ ptr)
    (node : Node Ptr α) : store.put ptr node other = store other :=
  Function.update_of_ne hne ..

theorem free_of_ne (store : Store Ptr α) {ptr other : Ptr} (hne : other ≠ ptr) :
    store.free ptr other = store other :=
  Function.update_of_ne hne ..

end Store

/-- Nodes that follow each other from one pointer to another. -/
def Segment {Ptr α : Type} (store : Store Ptr α) (next : Option Ptr) :
    Option Ptr → List (Ptr × α) → Prop
  | _, [] => True
  | prev, (ptr, value) :: rest =>
    store ptr = some ⟨((rest.map Prod.fst).head?).or next, prev, value⟩ ∧
      Segment store next (some ptr) rest

section Segment

variable {Ptr α : Type}

def firstOf (nodes : List (Ptr × α)) : Option Ptr := (nodes.map Prod.fst).head?

def lastOf (nodes : List (Ptr × α)) : Option Ptr := (nodes.map Prod.fst).getLast?

@[simp] theorem firstOf_nil : firstOf ([] : List (Ptr × α)) = none := rfl

@[simp] theorem firstOf_cons (node : Ptr × α) (rest : List (Ptr × α)) :
    firstOf (node :: rest) = some node.1 := rfl

@[simp] theorem lastOf_nil : lastOf ([] : List (Ptr × α)) = none := rfl

@[simp] theorem lastOf_snoc (nodes : List (Ptr × α)) (node : Ptr × α) :
    lastOf (nodes ++ [node]) = some node.1 := by
  simp [lastOf]

section

variable (before after : List (Ptr × α))

theorem firstOf_append : firstOf (before ++ after) = (firstOf before).or (firstOf after) := by
  simp [firstOf, List.head?_append]

theorem lastOf_append : lastOf (before ++ after) = (lastOf after).or (lastOf before) := by
  simp [lastOf, List.getLast?_append]

theorem firstOf_middle [DecidableEq Ptr] (node : Ptr × α) :
    (if lastOf before = none then firstOf after else firstOf (before ++ node :: after)) =
      firstOf (before ++ after) := by
  rw [firstOf_append, firstOf_append]
  cases before with
  | nil => rfl
  | cons first rest =>
    rw [if_neg]
    · rfl
    · simp [lastOf]

theorem lastOf_middle [DecidableEq Ptr] (node : Ptr × α) :
    (if firstOf after = none then lastOf before else lastOf (before ++ node :: after)) =
      lastOf (before ++ after) := by
  rw [lastOf_append, lastOf_append]
  cases after with
  | nil => rfl
  | cons first rest =>
    rw [if_neg (by simp)]
    simp [lastOf, List.getLast?_cons]

end

variable {nodes before after : List (Ptr × α)} {ptr : Ptr} {value : α} {fuel : Nat}
variable {store store' : Store Ptr α} {next prev : Option Ptr}
variable {rest : List (Ptr × α)}

theorem segment_cons : Segment store next prev ((ptr, value) :: rest) ↔
      store ptr = some ⟨(firstOf rest).or next, prev, value⟩ ∧
        Segment store next (some ptr) rest := Iff.rfl

theorem segment_append : Segment store next prev (before ++ after) ↔
      Segment store ((firstOf after).or next) prev before ∧
        Segment store next ((lastOf before).or prev) after := by
  induction before generalizing prev with
  | nil => simp [Segment]
  | cons node rest ih =>
    obtain ⟨ptr, value⟩ := node
    have hlast : (lastOf ((ptr, value) :: rest)).or prev = (lastOf rest).or (some ptr) := by
      rw [← List.singleton_append, lastOf_append]
      cases lastOf rest <;> rfl
    rw [List.cons_append, segment_cons, ih, segment_cons, firstOf_append, hlast,
      Option.or_assoc, and_assoc]

theorem Segment.congr (hsegment : Segment store next prev nodes)
    (hsame : ∀ node ∈ nodes, store' node.1 = store node.1) : Segment store' next prev nodes := by
  induction nodes generalizing prev with
  | nil => trivial
  | cons node rest ih =>
    rw [List.forall_mem_cons] at hsame
    obtain ⟨hnode, hrest⟩ := hsegment
    exact ⟨hsame.1.trans hnode, ih hrest hsame.2⟩

theorem Segment.get (hsegment : Segment store next prev (before ++ (ptr, value) :: after)) :
    store ptr = some ⟨(firstOf after).or next, (lastOf before).or prev, value⟩ :=
  (segment_cons.mp (segment_append.mp hsegment).2).1

theorem Segment.walk (hsegment : Segment store none prev nodes) (hfuel : nodes.length < fuel) :
    store.walk fuel (firstOf nodes) = some (nodes.map Prod.snd) := by
  induction nodes generalizing prev fuel with
  | nil =>
    obtain ⟨spare, rfl⟩ := Nat.exists_eq_add_of_lt hfuel
    rfl
  | cons node rest ih =>
    obtain ⟨spare, rfl⟩ := Nat.exists_eq_add_of_lt hfuel
    obtain ⟨hnode, hrest⟩ := hsegment
    rw [firstOf_cons, Store.walk, hnode]
    simp only [Option.or_none, List.map_cons]
    rw [show (rest.map Prod.fst).head? = firstOf rest from rfl,
      ih hrest (Nat.lt_of_succ_lt_succ hfuel)]
    rfl

theorem Segment.find_eq (hsegment : Segment store none prev nodes) (test : α → Bool)
    (hfuel : nodes.length < fuel) : store.find test fuel (firstOf nodes) =
      some ((nodes.find? fun node => test node.2).map Prod.fst) := by
  induction nodes generalizing prev fuel with
  | nil =>
    obtain ⟨spare, rfl⟩ := Nat.exists_eq_add_of_lt hfuel
    rfl
  | cons node rest ih =>
    obtain ⟨spare, rfl⟩ := Nat.exists_eq_add_of_lt hfuel
    obtain ⟨hnode, hrest⟩ := hsegment
    rw [firstOf_cons, Store.find, hnode, List.find?_cons]
    simp only [Option.or_none]
    cases test node.2 with
    | true => rfl
    | false =>
      rw [if_neg Bool.false_ne_true]
      exact ih hrest (Nat.lt_of_succ_lt_succ hfuel)

theorem Segment.follow_next (hsegment : Segment store none prev nodes)
    (hfuel : nodes.length < fuel) : store.follow Node.next fuel (firstOf nodes) = some nodes := by
  induction nodes generalizing prev fuel with
  | nil =>
    obtain ⟨spare, rfl⟩ := Nat.exists_eq_add_of_lt hfuel
    rfl
  | cons node rest ih =>
    obtain ⟨spare, rfl⟩ := Nat.exists_eq_add_of_lt hfuel
    obtain ⟨hnode, hrest⟩ := hsegment
    rw [firstOf_cons, Store.follow, hnode]
    simp only [Option.or_none]
    rw [show (rest.map Prod.fst).head? = firstOf rest from rfl,
      ih hrest (Nat.lt_of_succ_lt_succ hfuel)]
    rfl

theorem Segment.follow_prev (hsegment : Segment store next none nodes)
    (hfuel : nodes.length < fuel) :
    store.follow Node.prev fuel (lastOf nodes) = some nodes.reverse := by
  induction nodes using List.reverseRecOn generalizing next fuel with
  | nil =>
    obtain ⟨spare, rfl⟩ := Nat.exists_eq_add_of_lt hfuel
    rfl
  | append_singleton front last ih =>
    rw [List.length_append] at hfuel
    obtain ⟨spare, rfl⟩ := Nat.exists_eq_add_of_lt hfuel
    rw [lastOf_snoc, Store.follow, hsegment.get]
    simp only [Option.or_none]
    rw [ih (segment_append.mp hsegment).1 (Nat.lt_of_succ_lt_succ hfuel),
      List.reverse_concat]
    rfl

/-- A whole list: nothing leads out of it. -/
structure Listed (store : Store Ptr α) (nodes : List (Ptr × α)) : Prop where
  segment : Segment store none none nodes
  nodup : (nodes.map Prod.fst).Nodup

theorem listed_nil (store : Store Ptr α) : Listed store [] := ⟨trivial, List.nodup_nil⟩

theorem Listed.around (hlisted : Listed store (before ++ (ptr, value) :: after)) :
    store ptr = some ⟨firstOf after, lastOf before, value⟩ ∧
      Segment store (some ptr) none before ∧ Segment store none (some ptr) after ∧
      ptr ∉ (before ++ after).map Prod.fst ∧ ((before ++ after).map Prod.fst).Nodup := by
  obtain ⟨hsegment, hnodup⟩ := hlisted
  have hnode := hsegment.get
  rw [Option.or_none, Option.or_none] at hnode
  rw [List.map_append, List.map_cons, List.nodup_middle, List.nodup_cons,
    ← List.map_append] at hnodup
  obtain ⟨hbefore, hafter⟩ := segment_append.mp hsegment
  exact ⟨hnode, hbefore, (segment_cons.mp hafter).2, hnodup⟩

theorem listed_append (hbefore : Segment store (firstOf after) none before)
    (hafter : Segment store none (lastOf before) after)
    (hnodup : ((before ++ after).map Prod.fst).Nodup) : Listed store (before ++ after) := by
  refine ⟨segment_append.mpr ?_, hnodup⟩
  rw [Option.or_none, Option.or_none]
  exact ⟨hbefore, hafter⟩

variable [DecidableEq Ptr]

theorem Segment.put (hsegment : Segment store next prev nodes) (hout : ptr ∉ nodes.map Prod.fst)
    (node : Node Ptr α) : Segment (store.put ptr node) next prev nodes :=
  hsegment.congr fun other hmem => store.put_of_ne (by
    rintro rfl
    exact hout (List.mem_map_of_mem hmem)) node

theorem Segment.free {nodes : List (Ptr × α)} (hsegment : Segment store next prev nodes)
    {ptr : Ptr} (hout : ptr ∉ nodes.map Prod.fst) :
    Segment (store.free ptr) next prev nodes :=
  hsegment.congr fun other hmem => store.free_of_ne (by
    rintro rfl
    exact hout (List.mem_map_of_mem hmem))

theorem Segment.setNext (hsegment : Segment store next prev (nodes ++ [(ptr, value)]))
    (hnodup : ((nodes ++ [(ptr, value)]).map Prod.fst).Nodup) (next' : Option Ptr) :
    ∃ store', store.setNext ptr next' = some store' ∧
      Segment store' next' prev (nodes ++ [(ptr, value)]) ∧
      ∀ other, other ≠ ptr → store' other = store other := by
  have hnode := hsegment.get
  have hout : ptr ∉ nodes.map Prod.fst := by
    rw [List.map_append, List.map_singleton, List.nodup_append] at hnodup
    exact fun hmem => hnodup.2.2 ptr hmem ptr List.mem_cons_self rfl
  refine ⟨_, by rw [Store.setNext, hnode]; rfl, ?_, fun other hne => store.put_of_ne hne _⟩
  rw [segment_append] at hsegment ⊢
  exact ⟨hsegment.1.put hout _, store.put_self .., trivial⟩

theorem Segment.setPrev (hsegment : Segment store next prev ((ptr, value) :: rest))
    (hnodup : (((ptr, value) :: rest).map Prod.fst).Nodup) (prev' : Option Ptr) :
    ∃ store', store.setPrev ptr prev' = some store' ∧
      Segment store' next prev' ((ptr, value) :: rest) ∧
      ∀ other, other ≠ ptr → store' other = store other := by
  obtain ⟨hnode, hrest⟩ := hsegment
  rw [List.map_cons, List.nodup_cons] at hnodup
  refine ⟨_, by rw [Store.setPrev, hnode]; rfl, ?_, fun other hne => store.put_of_ne hne _⟩
  exact ⟨store.put_self .., hrest.put hnodup.1 _⟩

/-- A list of nodes without the node of a pointer. -/
def without (ptr : Ptr) (nodes : List (Ptr × α)) : List (Ptr × α) :=
  nodes.eraseP fun node => node.1 = ptr

theorem without_middle (hnodup : ((before ++ (ptr, value) :: after).map Prod.fst).Nodup) :
    without ptr (before ++ (ptr, value) :: after) = before ++ after := by
  rw [List.map_append, List.map_cons, List.nodup_middle, List.nodup_cons, List.mem_append,
    not_or] at hnodup
  have hbefore : ∀ node ∈ before, ¬decide (node.1 = ptr) = true := by
    intro node hmem heq
    exact hnodup.1.1 (List.mem_map.mpr ⟨node, hmem, of_decide_eq_true heq⟩)
  rw [without, List.eraseP_append_right _ hbefore, List.eraseP_cons_of_pos]
  exact decide_eq_true rfl

theorem Listed.linkBack (hlisted : Listed store nodes)
    (hnode : store ptr = some ⟨firstOf nodes, none, value⟩) (hfresh : ptr ∉ nodes.map Prod.fst) :
    ∃ store', store.linkBack (some ptr) (firstOf nodes) = some store' ∧
      Listed store' ((ptr, value) :: nodes) ∧
      ∀ other, other ∉ nodes.map Prod.fst → store' other = store other := by
  have hnodup : (((ptr, value) :: nodes).map Prod.fst).Nodup :=
    List.nodup_cons.mpr ⟨hfresh, hlisted.nodup⟩
  cases nodes with
  | nil =>
    refine ⟨store, rfl, ⟨⟨?_, trivial⟩, hnodup⟩, fun _ _ => rfl⟩
    exact hnode
  | cons node rest =>
    obtain ⟨store', hset, hrest, hsame⟩ := hlisted.segment.setPrev hlisted.nodup (some ptr)
    have hne : ∀ other, other ∉ (node :: rest).map Prod.fst → other ≠ node.1 := by
      rintro other hout rfl
      exact hout List.mem_cons_self
    refine ⟨store', hset, ⟨⟨?_, hrest⟩, hnodup⟩, fun other hout => hsame other (hne other hout)⟩
    rw [hsame ptr (hne ptr hfresh), hnode]
    rfl

theorem Listed.linkOn (hlisted : Listed store nodes)
    (hnode : store ptr = some ⟨none, lastOf nodes, value⟩) (hfresh : ptr ∉ nodes.map Prod.fst) :
    ∃ store', store.linkOn (some ptr) (lastOf nodes) = some store' ∧
      Listed store' (nodes ++ [(ptr, value)]) ∧
      ∀ other, other ∉ nodes.map Prod.fst → store' other = store other := by
  have hnodup : ((nodes ++ [(ptr, value)]).map Prod.fst).Nodup := by
    rw [List.map_append, List.nodup_append]
    refine ⟨hlisted.nodup, List.nodup_singleton _, ?_⟩
    rintro other hmem _ (_ | ⟨_, ⟨⟩⟩) rfl
    exact hfresh hmem
  rcases List.eq_nil_or_concat nodes with rfl | ⟨front, last, rfl⟩
  · refine ⟨store, rfl, ⟨⟨?_, trivial⟩, hnodup⟩, fun _ _ => rfl⟩
    exact hnode
  · rw [List.concat_eq_append] at hlisted hnode hfresh hnodup ⊢
    rw [lastOf_snoc] at hnode ⊢
    obtain ⟨store', hset, hfront, hsame⟩ := hlisted.segment.setNext hlisted.nodup (some ptr)
    have hne : ∀ other, other ∉ (front ++ [last]).map Prod.fst → other ≠ last.1 := by
      rintro other hout rfl
      exact hout (by simp)
    refine ⟨store', hset, ⟨?_, hnodup⟩, fun other hout => hsame other (hne other hout)⟩
    rw [segment_append, lastOf_snoc]
    refine ⟨hfront, ?_, trivial⟩
    rw [hsame ptr (hne ptr hfresh), hnode]
    rfl

theorem Listed.unlink (hlisted : Listed store (before ++ (ptr, value) :: after)) :
    ∃ store', store.unlink ptr = some store' ∧ Listed store' (before ++ after) ∧
      store' ptr = some ⟨firstOf after, lastOf before, value⟩ ∧
      ∀ other, other ∉ (before ++ after).map Prod.fst → store' other = store other := by
  obtain ⟨hnode, hbefore, hafter, hptr, hnodup⟩ := hlisted.around
  rw [List.map_append, List.mem_append, not_or] at hptr
  have hparts := List.nodup_append.mp (List.map_append ▸ hnodup)
  -- First the node behind it gets a new predecessor.
  have hfirst : ∃ store₁, store.linkBack (lastOf before) (firstOf after) = some store₁ ∧
      Segment store₁ none (lastOf before) after ∧
      ∀ other, other ∉ after.map Prod.fst → store₁ other = store other := by
    cases after with
    | nil => exact ⟨store, rfl, trivial, fun _ _ => rfl⟩
    | cons node rest =>
      obtain ⟨store₁, hset, hrest, hsame⟩ := hafter.setPrev hparts.2.1 (lastOf before)
      refine ⟨store₁, hset, hrest, fun other hout => hsame other ?_⟩
      rintro rfl
      exact hout List.mem_cons_self
  obtain ⟨store₁, hset₁, hafter₁, hsame₁⟩ := hfirst
  have hbefore₁ : Segment store₁ (some ptr) none before := by
    refine hbefore.congr fun node hmem => hsame₁ node.1 fun hmem' => ?_
    exact hparts.2.2 _ (List.mem_map_of_mem hmem) _ hmem' rfl
  have hnode₁ : store₁ ptr = some ⟨firstOf after, lastOf before, value⟩ :=
    (hsame₁ ptr hptr.2).trans hnode
  -- Then the node before it gets a new successor.
  have hsecond : ∃ store₂, store₁.linkOn (firstOf after) (lastOf before) = some store₂ ∧
      Segment store₂ (firstOf after) none before ∧
      ∀ other, other ∉ before.map Prod.fst → store₂ other = store₁ other := by
    rcases List.eq_nil_or_concat before with rfl | ⟨front, last, rfl⟩
    · exact ⟨store₁, rfl, trivial, fun _ _ => rfl⟩
    · rw [List.concat_eq_append] at hbefore₁ hparts ⊢
      rw [lastOf_snoc]
      obtain ⟨store₂, hset, hfront, hsame⟩ := hbefore₁.setNext hparts.1 (firstOf after)
      refine ⟨store₂, hset, hfront, fun other hout => hsame other ?_⟩
      rintro rfl
      exact hout (by simp)
  obtain ⟨store₂, hset₂, hbefore₂, hsame₂⟩ := hsecond
  refine ⟨store₂, ?_, ?_, (hsame₂ ptr hptr.1).trans hnode₁, ?_⟩
  · rw [Store.unlink, hnode]
    simp only [Option.bind_eq_bind, Option.bind_some]
    rw [hset₁, Option.bind_some, hnode₁]
    exact hset₂
  · refine listed_append hbefore₂ (hafter₁.congr fun node hmem => ?_) hnodup
    exact hsame₂ node.1 fun hmem' => hparts.2.2 _ hmem' _ (List.mem_map_of_mem hmem) rfl
  · intro other hout
    rw [List.map_append, List.mem_append, not_or] at hout
    rw [hsame₂ other hout.1, hsame₁ other hout.2]

end Segment

end ApueFormal.Program
