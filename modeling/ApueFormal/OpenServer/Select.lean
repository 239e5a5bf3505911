import Mathlib.Data.Finset.Basic
import ApueFormal.OpenServer.Client
import ApueFormal.Program.System

/-!
# The open server with select

One iteration of `loop` either accepts a connection or goes through the client
array.  The descriptors that `select` reports, the connection that `serv_accept`
returns and the bytes that `read` gives are chosen by the environment.
-/

namespace ApueFormal.OpenServer

open Program

/-- The variables of `loop`, the client array, and what has been done so far. -/
structure Select where
  client : List Client
  allset : Finset Int
  maxfd : Int
  maxi : Int
  trace : List Event

/-- What the system calls of an iteration return; `read` gives no bytes at the
end of the file and nothing on an error. -/
structure SelectCalls where
  rset : Finset Int
  accepted : Int × Nat
  read : Int → Option (List UInt8)

def fdSetsize : Int := 1024

namespace Select

def start (listenfd : Int) : Select := ⟨[], {listenfd}, listenfd, -1, []⟩

def accept (calls : SelectCalls) (server : Select) : Except (Exit × Select) Select :=
  let clifd := calls.accepted.1
  let uid := calls.accepted.2
  if clifd < 0 then .error (.serv_accept, server)
  else
    let added := clientAdd clifd uid server.client
    if clifd < fdSetsize then
      .ok
        { client := added.1
          allset := insert clifd server.allset
          maxfd := if clifd > server.maxfd then clifd else server.maxfd
          maxi := if (added.2 : Int) > server.maxi then added.2 else server.maxi
          trace := server.trace ++ [.accept clifd uid] }
    else .error (.bounds, server)

def entry (calls : SelectCalls) (server : Select) (i : Nat) : Except (Exit × Select) Select :=
  match server.client[i]? with
  | none => .error (.bounds, server)
  | some client =>
    if client.fd < 0 then .ok server
    else if client.fd ∈ calls.rset then
      match calls.read client.fd with
      | none => .error (.read, server)
      | some [] =>
        match clientDel client.fd server.client with
        | .error exit => .error (exit, server)
        | .ok rest =>
          .ok { server with
            client := rest
            allset := server.allset.erase client.fd
            trace := server.trace ++ [.close client.fd] }
      | some buf =>
        .ok { server with trace := server.trace ++ [.request buf client.fd client.uid] }
    else .ok server

def iteration (listenfd : Int) (calls : SelectCalls) (server : Select) :
    Except (Exit × Select) Select :=
  if listenfd ∈ calls.rset then server.accept calls
  else (List.range (server.maxi + 1).toNat).foldlM (entry calls) server

end Select

/-- The set, the high-water marks and the client array fit together. -/
structure Select.Inv (listenfd : Int) (server : Select) : Prop where
  table : Table (slot server.client) (connections server.trace)
  attributed : Attributed server.trace
  allset : ∀ fd, fd ∈ server.allset ↔ fd = listenfd ∨ fd ≠ -1 ∧ ∃ i, (slot server.client i).fd = fd
  listen : 0 ≤ listenfd ∧ listenfd ≤ server.maxfd ∧ ∀ i, (slot server.client i).fd ≠ listenfd
  maxfd : ∀ i, (slot server.client i).fd ≤ server.maxfd
  maxi : ∀ i, (slot server.client i).fd ≠ -1 → (i : Int) ≤ server.maxi
  length : server.maxi < server.client.length

/-- An accepted descriptor was not open, and is within the bounds of a set. -/
def SelectCalls.Proper (listenfd : Int) (server : Select) (calls : SelectCalls) : Prop :=
  calls.accepted.1 < fdSetsize ∧ calls.accepted.1 ≠ listenfd ∧
    connections server.trace calls.accepted.1 = none

/-- The server has not ended for a reason of its own. -/
def Select.Sound (ended : Exit × Select) : Prop :=
  (ended.1 = .serv_accept ∨ ended.1 = .read) ∧ Attributed ended.2.trace

theorem le_grown (mark new : Int) :
    mark ≤ (if new > mark then new else mark) ∧ new ≤ (if new > mark then new else mark) := by
  split <;> omega

namespace Select.Inv

variable {listenfd : Int} {server : Select}

theorem start (hlisten : 0 ≤ listenfd) : (Select.start listenfd).Inv listenfd := by
  have hslot : ∀ i, slot [] i = available := fun i => rfl
  constructor
  · exact ⟨fun i _ hused => absurd rfl hused, fun i hused => absurd rfl hused,
      fun fd hopen => absurd rfl hopen⟩
  · exact attributed_nil
  · intro fd
    simp only [Select.start, Finset.mem_singleton, hslot, available]
    exact ⟨.inl, fun h => h.resolve_right fun h => by
      obtain ⟨hne, _, heq⟩ := h
      exact hne heq.symm⟩
  · refine ⟨hlisten, Int.le_refl _, fun i => ?_⟩
    rw [Select.start, hslot, available]
    simp only
    omega
  · intro i
    rw [Select.start, hslot, available]
    simp only
    omega
  · exact fun i hused => absurd rfl hused
  · exact (by decide : (-1 : Int) < 0)

variable (hinv : server.Inv listenfd)
variable {calls : SelectCalls}

include hinv

theorem accept (hproper : calls.Proper listenfd server) :
    Ends (Inv listenfd) Sound (server.accept calls) := by
  obtain ⟨hbound, hlisten, hnew⟩ := hproper
  rw [Select.accept]
  split
  · exact ⟨.inl rfl, hinv.attributed⟩
  · rename_i hnonneg
    obtain ⟨hslot, hfree, _, hlength⟩ := clientAdd_slot calls.accepted.1 calls.accepted.2
      server.client
    generalize clientAdd calls.accepted.1 calls.accepted.2 server.client = added at *
    generalize calls.accepted.1 = clifd at *
    have hclifd : clifd ≠ -1 := by omega
    have hmaxfd := le_grown server.maxfd clifd
    have hmaxi := le_grown server.maxi added.2
    constructor
    · rw [connections_snoc, hslot]
      exact hinv.table.add hfree hclifd hnew _
    · exact hinv.attributed.snoc fun _ _ _ heq => by cases heq
    · intro fd
      rw [Finset.mem_insert, hinv.allset, hslot]
      have hused := fun hfd : fd ≠ -1 =>
        @exists_fd_add _ clifd _ hfree (some calls.accepted.2) _ hfd
      grind
    · refine ⟨hinv.listen.1, Int.le_trans hinv.listen.2.1 hmaxfd.1, ?_⟩
      rw [hslot, Function.forall_update_iff _ fun _ (entry : Client) => entry.fd ≠ listenfd]
      exact ⟨hlisten, fun i _ => hinv.listen.2.2 i⟩
    · rw [hslot, Function.forall_update_iff _ fun _ (entry : Client) => entry.fd ≤ _]
      exact ⟨hmaxfd.2, fun i _ => Int.le_trans (hinv.maxfd i) hmaxfd.1⟩
    · rw [hslot, Function.forall_update_iff _ fun (i : Nat) (entry : Client) =>
        entry.fd ≠ -1 → (i : Int) ≤ _]
      exact ⟨fun _ => hmaxi.2, fun i _ hused => Int.le_trans (hinv.maxi i hused) hmaxi.1⟩
    · have hadded : added.2 < added.1.length := by
        apply lt_length_of_slot
        rwa [hslot, Function.update_self]
      have hold := hinv.length
      dsimp only
      split <;> omega

theorem closed {i : Nat} (hused : (slot server.client i).fd ≠ -1) {rest : List Client}
    (hslot : slot rest = Function.update (slot server.client) i ⟨-1, (slot server.client i).uid⟩)
    (hlength : rest.length = server.client.length) :
    Inv listenfd { server with
      client := rest
      allset := server.allset.erase (slot server.client i).fd
      trace := server.trace ++ [.close (slot server.client i).fd] } := by
  constructor
  · rw [connections_snoc, hslot]
    exact hinv.table.del hused rfl _
  · exact hinv.attributed.snoc fun _ _ _ heq => by cases heq
  · intro fd
    rw [Finset.mem_erase, hinv.allset, hslot]
    have hother := fun hfd : fd ≠ -1 =>
      hinv.table.exists_fd_del hused (slot server.client i).uid hfd
    grind [hinv.listen.2.2]
  · refine ⟨hinv.listen.1, hinv.listen.2.1, ?_⟩
    rw [hslot, Function.forall_update_iff _ fun _ (entry : Client) => entry.fd ≠ listenfd]
    grind [hinv.listen.1, hinv.listen.2.2]
  · rw [hslot, Function.forall_update_iff _ fun _ (entry : Client) => entry.fd ≤ server.maxfd]
    grind [hinv.maxfd, hinv.listen.1, hinv.listen.2.1]
  · rw [hslot, Function.forall_update_iff _ fun (i : Nat) (entry : Client) =>
      entry.fd ≠ -1 → (i : Int) ≤ server.maxi]
    grind [hinv.maxi]
  · rw [hlength]
    exact hinv.length

theorem requested (i : Nat) (hused : (slot server.client i).fd ≠ -1) (buf : List UInt8) :
    Inv listenfd { server with trace := server.trace ++
      [.request buf (slot server.client i).fd (slot server.client i).uid] } := by
  refine { hinv with table := ?_, attributed := ?_ }
  · rw [connections_snoc]
    exact hinv.table
  · refine hinv.attributed.snoc fun _ _ _ heq => ?_
    cases heq
    exact hinv.table.uid i hused

theorem entry (calls : SelectCalls) {i : Nat} (hi : (i : Int) ≤ server.maxi) :
    Ends (fun server' => server'.Inv listenfd ∧ server'.maxi = server.maxi) Sound
      (server.entry calls i) := by
  have hlt : i < server.client.length := by
    have := hinv.length
    omega
  rw [Select.entry, getElem?_of_slot hlt]
  dsimp only
  split
  · exact ⟨hinv, rfl⟩
  · rename_i hnonneg
    have hused : (slot server.client i).fd ≠ -1 := by omega
    split
    · split
      · exact ⟨.inr rfl, hinv.attributed⟩
      · obtain ⟨rest, j, hcall, hfd, hslot, hlength⟩ := clientDel_slot hused ⟨i, rfl⟩
        cases hinv.table.distinct i j hused hfd.symm
        rw [hcall]
        exact ⟨hinv.closed hused hslot hlength, rfl⟩
      · exact ⟨hinv.requested i hused _, rfl⟩
    · exact ⟨hinv, rfl⟩

theorem iteration (hproper : calls.Proper listenfd server) :
    Ends (Inv listenfd) Sound (server.iteration listenfd calls) := by
  rw [Select.iteration]
  split
  · exact hinv.accept hproper
  · have hloop : Ends (fun server' => server'.Inv listenfd ∧ server'.maxi = server.maxi) Sound
        ((List.range (server.maxi + 1).toNat).foldlM (Select.entry calls) server) := by
      refine ends_foldlM (fun i hmem server' hstate => ?_) ⟨hinv, rfl⟩
      rw [← hstate.2]
      apply hstate.1.entry calls
      have := List.mem_range.mp hmem
      omega
    exact hloop.imp (fun _ hnext => hnext.1) fun _ hended => hended

end Select.Inv

abbrev SelectReaches (listenfd : Int) : Select → Prop :=
  Reaches (fun server => server = Select.start listenfd) fun server server' =>
    ∃ calls : SelectCalls, calls.Proper listenfd server ∧
      server.iteration listenfd calls = .ok server'

/-- At every iteration the set is made of the listening descriptor and the
descriptors of the array, each of them once and below the high-water marks, and
requests are handled under the right user id.  The server never ends because an
entry is missing. -/
theorem select_server_invariant {listenfd : Int} (hlisten : 0 ≤ listenfd) {server : Select}
    (hreaches : SelectReaches listenfd server) :
    server.Inv listenfd ∧ ∀ calls : SelectCalls, calls.Proper listenfd server →
        Ends (Select.Inv listenfd) Select.Sound (server.iteration listenfd calls) := by
  have hinv : server.Inv listenfd := by
    refine @Reaches.invariant _ _ _ (Select.Inv listenfd) ?_ ?_ _ hreaches
    · rintro _ rfl
      exact .start hlisten
    · rintro server server' hinv ⟨calls, hproper, hstep⟩
      have hends := hinv.iteration hproper
      rw [hstep] at hends
      exact hends
  exact ⟨hinv, fun calls hproper => hinv.iteration hproper⟩

theorem select_server_invariant_accepted :
    ∃ server, SelectReaches 3 server ∧ server.trace = [.accept 4 1000] ∧ server.Inv 3 ∧
      ∀ calls : SelectCalls, calls.Proper 3 server →
        Ends (Select.Inv 3) Select.Sound (server.iteration 3 calls) := by
  have hreaches : SelectReaches 3 _ := .step (.start rfl)
    ⟨⟨{3}, (4, 1000), fun _ => none⟩, ⟨by decide, by decide, rfl⟩, rfl⟩
  exact ⟨_, hreaches, rfl, select_server_invariant (by decide) hreaches⟩

end ApueFormal.OpenServer
