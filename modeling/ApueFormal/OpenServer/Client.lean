import Mathlib.Logic.Function.Basic
import Mathlib.Tactic.Common

/-!
# The client array of the open server

`client_add` puts a connection in the first available entry of the array and
makes the array longer when there is none.  `client_del` makes the entry of a
descriptor available again.
-/

namespace ApueFormal.OpenServer

open Function

inductive Exit where
  | serv_accept
  | read
  | client_del
  /-- An array is read outside of its bounds. -/
  | bounds
  deriving DecidableEq

/-- An entry of the array; an entry that was never used has no user id. -/
structure Client where
  fd : Int
  uid : Option Nat
  deriving DecidableEq

def available : Client := ⟨-1, none⟩

def nalloc : Nat := 10

def clientAlloc (client : List Client) : List Client :=
  client ++ List.replicate nalloc available

def firstAvailable (client : List Client) : Option Nat :=
  client.findIdx? fun entry => entry.fd == -1

theorem firstAvailable_clientAlloc (client : List Client) :
    firstAvailable (clientAlloc client) ≠ none := by
  rw [firstAvailable, Ne, List.findIdx?_eq_none_iff]
  intro hnone
  have hlast := hnone available (List.mem_append_right _ (List.mem_replicate.mpr ⟨by decide, rfl⟩))
  cases hlast

/-- `client_add`: the array and the index of the entry.  The array that was not
yet allocated is the empty list. -/
def clientAdd (fd : Int) (uid : Nat) (client : List Client) : List Client × Nat :=
  match _hfirst : firstAvailable client with
  | some i => (client.set i ⟨fd, some uid⟩, i)
  | none => clientAdd fd uid (clientAlloc client)
termination_by if firstAvailable client = none then 1 else 0
decreasing_by simp [_hfirst, firstAvailable_clientAlloc]

def clientDel (fd : Int) (client : List Client) : Except Exit (List Client) :=
  match client.findIdx? fun entry => entry.fd == fd with
  | some i => .ok (client.modify i fun entry => { entry with fd := -1 })
  | none => .error .client_del

/-! ## The entries by index -/

/-- The entry at an index; past the end of the array every entry is available. -/
def slot (client : List Client) (i : Nat) : Client := client[i]?.getD available

theorem slot_clientAlloc (client : List Client) : slot (clientAlloc client) = slot client := by
  funext i
  simp only [slot, clientAlloc, List.getElem?_append, List.getElem?_replicate]
  split
  · rfl
  · rename_i hlt
    rw [List.getElem?_eq_none (Nat.le_of_not_lt hlt)]
    split <;> rfl

variable {client : List Client} {i : Nat}

theorem lt_length_of_slot (hused : (slot client i).fd ≠ -1) : i < client.length := by
  by_contra hout
  rw [slot, List.getElem?_eq_none (Nat.le_of_not_lt hout)] at hused
  exact hused rfl

theorem getElem?_of_slot (hlt : i < client.length) : client[i]? = some (slot client i) := by
  rw [slot, List.getElem?_eq_getElem hlt]
  rfl

theorem clientAdd_slot (fd : Int) (uid : Nat) (client : List Client) :
    slot (clientAdd fd uid client).1 =
        update (slot client) (clientAdd fd uid client).2 ⟨fd, some uid⟩ ∧
      (slot client (clientAdd fd uid client).2).fd = -1 ∧
      (∀ j < (clientAdd fd uid client).2, (slot client j).fd ≠ -1) ∧
      client.length ≤ (clientAdd fd uid client).1.length := by
  induction client using clientAdd.induct with
  | case1 client i hfirst =>
    rw [clientAdd.eq_def, hfirst]
    obtain ⟨hlt, hfd, hbefore⟩ := List.findIdx?_eq_some_iff_getElem.mp hfirst
    refine ⟨?_, ?_, ?_, Nat.le_of_eq List.length_set.symm⟩
    · funext j
      simp only [slot, List.getElem?_set, update_apply]
      split
      · rename_i heq
        subst heq
        simp
      · rename_i hne
        rw [if_neg (Ne.symm hne)]
    · simpa [slot, List.getElem?_eq_getElem hlt] using hfd
    · intro j (hj : j < i)
      simpa [slot, List.getElem?_eq_getElem (Nat.lt_trans hj hlt)] using hbefore j hj
  | case2 client hfirst ih =>
    rw [clientAdd.eq_def, hfirst]
    rw [slot_clientAlloc, clientAlloc, List.length_append] at ih
    exact ⟨ih.1, ih.2.1, ih.2.2.1, Nat.le_trans (Nat.le_add_right ..) ih.2.2.2⟩

variable {fd : Int}

theorem exists_fd_add {slots : Nat → Client} (hfree : (slots i).fd = -1) (uid : Option Nat)
    {other : Int} (hother : other ≠ -1) :
    (∃ j, (update slots i ⟨fd, uid⟩ j).fd = other) ↔ other = fd ∨ ∃ j, (slots j).fd = other := by
  rw [Function.exists_update_iff slots fun _ entry => entry.fd = other]
  constructor
  · rintro (rfl | ⟨j, _, rfl⟩)
    · exact .inl rfl
    · exact .inr ⟨j, rfl⟩
  · rintro (rfl | ⟨j, rfl⟩)
    · exact .inl rfl
    · refine .inr ⟨j, ?_, rfl⟩
      rintro rfl
      exact hother hfree

theorem clientDel_slot (hused : fd ≠ -1) (hmem : ∃ i, (slot client i).fd = fd) :
    ∃ client' i, clientDel fd client = .ok client' ∧ (slot client i).fd = fd ∧
      slot client' = update (slot client) i ⟨-1, (slot client i).uid⟩ ∧
      client'.length = client.length := by
  cases hfind : client.findIdx? fun entry => entry.fd == fd with
  | none =>
    obtain ⟨i, rfl⟩ := hmem
    have hlt := lt_length_of_slot hused
    have hentry := List.findIdx?_eq_none_iff.mp hfind _
      (List.mem_of_getElem? (getElem?_of_slot hlt))
    simp at hentry
  | some i =>
    obtain ⟨hlt, hfd, _⟩ := List.findIdx?_eq_some_iff_getElem.mp hfind
    refine ⟨client.modify i fun entry => { entry with fd := -1 }, i, ?_, ?_, ?_,
      List.length_modify ..⟩
    · rw [clientDel, hfind]
    · simpa [slot, List.getElem?_eq_getElem hlt] using hfd
    · funext j
      simp only [slot, List.getElem?_modify, update_apply]
      split
      · rename_i heq
        subst heq
        simp [List.getElem?_eq_getElem hlt]
      · rename_i hne
        rw [if_neg (Ne.symm hne)]
        simp

inductive Event where
  /-- `serv_accept` has returned a descriptor and a user id. -/
  | accept (fd : Int) (uid : Nat)
  /-- `handle_request` is called. -/
  | request (buf : List UInt8) (fd : Int) (uid : Option Nat)
  | close (fd : Int)
  deriving DecidableEq

/-- The user ids that `serv_accept` has returned for the open connections. -/
def Event.apply (connections : Int → Option Nat) : Event → Int → Option Nat
  | accept fd uid => Function.update connections fd (some uid)
  | request _ _ _ => connections
  | close fd => Function.update connections fd none

def connections (trace : List Event) : Int → Option Nat :=
  trace.foldl Event.apply fun _ => none

@[simp] theorem connections_snoc (trace : List Event) (event : Event) :
    connections (trace ++ [event]) = event.apply (connections trace) := by
  rw [connections, List.foldl_append]
  rfl

/-- Every request is handled under the user id of its connection. -/
def Attributed (trace : List Event) : Prop :=
  ∀ before buf fd uid after, trace = before ++ .request buf fd uid :: after →
    uid ≠ none ∧ connections before fd = uid

theorem attributed_nil : Attributed [] := by
  intro before _ _ _ after htrace
  cases before <;> cases htrace

theorem Attributed.snoc {trace : List Event} (hattributed : Attributed trace) {event : Event}
    (hevent : ∀ buf fd uid, event = .request buf fd uid → uid ≠ none ∧ connections trace fd = uid) :
    Attributed (trace ++ [event]) := by
  intro before buf fd uid after htrace
  rcases List.eq_nil_or_concat after with rfl | ⟨after, last, rfl⟩
  · obtain ⟨rfl, hlast⟩ := List.append_inj' htrace rfl
    exact hevent buf fd uid (List.singleton_inj.mp hlast)
  · rw [List.concat_eq_append, ← List.cons_append, ← List.append_assoc] at htrace
    exact hattributed before buf fd uid after (List.append_inj' htrace rfl).1

/-- The entries hold the open connections, each once. -/
structure Table (slots : Nat → Client) (connections : Int → Option Nat) : Prop where
  distinct : ∀ i j, (slots i).fd ≠ -1 → (slots i).fd = (slots j).fd → i = j
  uid : ∀ i, (slots i).fd ≠ -1 → (slots i).uid ≠ none ∧ connections (slots i).fd = (slots i).uid
  entry : ∀ fd, connections fd ≠ none → fd ≠ -1 ∧ ∃ i, (slots i).fd = fd

namespace Table

variable {slots : Nat → Client} {connections : Int → Option Nat}
variable (htable : Table slots connections)
include htable

theorem add (hfree : (slots i).fd = -1) (hfd : fd ≠ -1) (hnew : connections fd = none) (uid : Nat) :
    Table (update slots i ⟨fd, some uid⟩) (update connections fd (some uid)) := by
  have hother : ∀ j, (slots j).fd ≠ -1 → (slots j).fd ≠ fd := by
    rintro j hused rfl
    exact (htable.uid j hused).1 ((htable.uid j hused).2.symm.trans hnew)
  constructor
  · intro j k
    grind [htable.distinct]
  · intro j
    grind [htable.uid]
  · intro other hopen
    rcases eq_or_ne other fd with rfl | hne
    · exact ⟨hfd, i, by rw [update_self]⟩
    · rw [update_of_ne hne] at hopen
      obtain ⟨hused, j, rfl⟩ := htable.entry other hopen
      refine ⟨hused, j, ?_⟩
      rw [update_of_ne]
      rintro rfl
      exact hused hfree

theorem del (hfd : fd ≠ -1) (hslot : (slots i).fd = fd) (uid : Option Nat) :
    Table (update slots i ⟨-1, uid⟩) (update connections fd none) := by
  constructor
  · intro j k
    grind [htable.distinct]
  · intro j
    grind [htable.uid, htable.distinct]
  · intro other hopen
    rcases eq_or_ne other fd with rfl | hne
    · exact absurd (update_self ..) hopen
    · rw [update_of_ne hne] at hopen
      obtain ⟨hused, j, rfl⟩ := htable.entry other hopen
      refine ⟨hused, j, ?_⟩
      rw [update_of_ne]
      rintro rfl
      exact hne hslot

theorem exists_fd_del (hused : (slots i).fd ≠ -1) (uid : Option Nat) {other : Int}
    (hother : other ≠ -1) :
    (∃ j, (update slots i ⟨-1, uid⟩ j).fd = other) ↔
      other ≠ (slots i).fd ∧ ∃ j, (slots j).fd = other := by
  rw [Function.exists_update_iff slots fun _ entry => entry.fd = other]
  constructor
  · rintro (heq | ⟨j, hne, rfl⟩)
    · exact absurd heq.symm hother
    · exact ⟨fun heq => hne (htable.distinct j i hother heq), j, rfl⟩
  · rintro ⟨hne, j, rfl⟩
    refine .inr ⟨j, ?_, rfl⟩
    rintro rfl
    exact hne rfl

end Table

end ApueFormal.OpenServer
