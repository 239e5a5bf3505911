import ApueFormal.OpenServer.Poll
import Mathlib.Data.List.Perm.Subperm

/-!
# The packed array of descriptors

A client that leaves makes room for the last entry of the array, which is then looked at
in its place.  Entries move while the array is scanned; what is left to be looked at is
the same set of entries, less the one that was dealt with.
-/

namespace ApueFormal.OpenServer

open Function Program

variable {calls : PollCalls}

namespace Poll

def active (server : Poll) : List Pollfd := server.pollfd.take server.numfd

/-- The entries that the loop has still to look at. -/
def pending (server : Poll) (i : Nat) : List Pollfd := server.active.drop i

variable {server : Poll} {i : Nat} {entry : Pollfd}

theorem active_split (hi : i < server.numfd) (hget : server.pollfd[i]? = some entry) :
    ∃ before after, server.active = before ++ entry :: after ∧ before.length = i ∧
      server.pending i = entry :: after ∧ server.pending (i + 1) = after := by
  have hactive : server.active[i]? = some entry := by
    rw [active, List.getElem?_take_of_lt hi, hget]
  obtain ⟨hlt, hentry⟩ := List.getElem?_eq_some_iff.mp hactive
  have hdrop : server.pending i = entry :: server.pending (i + 1) := by
    rw [pending, List.drop_eq_getElem_cons hlt, hentry]
    rfl
  refine ⟨server.active.take i, server.pending (i + 1), ?_, ?_, hdrop, rfl⟩
  · rw [← hdrop]
    exact (List.take_append_drop i server.active).symm
  · rw [List.length_take]
    exact Nat.min_eq_left (Nat.le_of_lt hlt)

theorem hungup_eq (hi : i < server.numfd) (hroom : server.numfd ≤ server.pollfd.length)
    {client : List Client} (hclient : clientDel entry.fd server.client = .ok client)
    {before after : List Pollfd} (hactive : server.active = before ++ entry :: after)
    (hbefore : before.length = i) :
    ∃ server' i' after', server.hungup i entry = .ok (server', i') ∧
      server'.client = client ∧ server'.trace = server.trace ++ [.close entry.fd] ∧
      server'.numfd ≤ server'.pollfd.length ∧ server'.numfd + 1 = server.numfd ∧ i ≤ i' ∧
      server'.active = before ++ after' ∧ after'.Perm after ∧ server'.pending i' = after' := by
  obtain ⟨last, hlast⟩ : ∃ last, server.pollfd[server.numfd - 1]? = some last :=
    ⟨_, List.getElem?_eq_getElem (by omega)⟩
  have htake : server.active = server.pollfd.take (server.numfd - 1) ++ [last] := by
    have hsucc : server.numfd = server.numfd - 1 + 1 := by omega
    rw [active, hsucc, List.take_add_one, Nat.add_sub_cancel, hlast]
    rfl
  unfold hungup
  rw [hclient, hlast]
  dsimp only
  rcases List.eq_nil_or_concat after with rfl | ⟨middle, other, rfl⟩
  · -- The entry was the last one.
    have hnumfd : server.numfd = i + 1 := by
      have hlength := congrArg List.length hactive
      rw [active, List.length_take_of_le hroom, List.length_append, hbefore] at hlength
      exact hlength
    rw [htake] at hactive
    obtain ⟨hsame, _⟩ := List.append_inj' hactive rfl
    rw [if_neg (by omega)]
    refine ⟨_, _, [], rfl, rfl, rfl, ?_, by dsimp only; omega, Nat.le_succ i, ?_, List.Perm.nil, ?_⟩
    · exact Nat.le_trans (Nat.sub_le _ _) hroom
    · rw [active, hsame, List.append_nil]
    · rw [pending, active]
      dsimp only
      rw [hsame]
      exact List.drop_eq_nil_of_le (by omega)
  · -- The last entry takes its place.
    rw [List.concat_eq_append] at hactive ⊢
    rw [htake, ← List.cons_append, ← List.append_assoc] at hactive
    obtain ⟨hfront, hend⟩ := List.append_inj' hactive rfl
    cases hend
    have hnumfd : i < server.numfd - 1 := by
      have hlength := congrArg List.length hfront
      rw [List.length_take_of_le (by omega), List.length_append, hbefore,
        List.length_cons] at hlength
      omega
    have hset : (server.pollfd.set i last).take (server.numfd - 1) = before ++ last :: middle := by
      rw [List.take_set, hfront, ← hbefore, List.set_append_right _ _ (Nat.le_refl _), Nat.sub_self]
      rfl
    rw [if_pos hnumfd]
    refine ⟨_, _, last :: middle, rfl, rfl, rfl, ?_, by dsimp only; omega, Nat.le_refl i, hset, ?_,
      ?_⟩
    · dsimp only
      rw [List.length_set]
      exact Nat.le_trans (Nat.sub_le _ _) hroom
    · exact (List.perm_append_singleton last middle).symm
    · rw [pending, active]
      dsimp only
      rw [hset, ← hbefore, List.drop_left]

/-! ## Clients and entries -/

/-- The entries in use are the one to listen on and one for each client. -/
structure Packed (listenfd : Int) (server : Poll) (clients : List Int) : Prop where
  table : Table (slot server.client) (Function.update (connections server.trace) listenfd (some 0))
  listen : connections server.trace listenfd = none
  fds : server.active.map Pollfd.fd = listenfd :: clients
  nodup : (listenfd :: clients).Nodup
  mem : ∀ fd, fd ∈ clients ↔ connections server.trace fd ≠ none
  room : server.numfd ≤ server.pollfd.length

variable {listenfd : Int} {clients : List Int}

section

variable (hpacked : server.Packed listenfd clients)
include hpacked

theorem Packed.length_active :
    server.active.length = server.numfd := List.length_take_of_le hpacked.room

theorem Packed.slot_of_mem {fd : Int}
    (hmem : fd ∈ listenfd :: clients) : fd ≠ -1 ∧ ∃ j, (slot server.client j).fd = fd := by
  refine hpacked.table.entry fd ?_
  rcases List.mem_cons.mp hmem with rfl | hclient
  · rw [update_self]
    exact nofun
  · have hne : fd ≠ listenfd := by
      rintro rfl
      exact (List.nodup_cons.mp hpacked.nodup).1 hclient
    rw [update_of_ne hne]
    exact (hpacked.mem fd).mp hclient

theorem Packed.numfd_le : server.numfd ≤ server.client.length := by
  have hsub : listenfd :: clients ⊆ server.client.map Client.fd := by
    intro fd hmem
    obtain ⟨hused, j, rfl⟩ := hpacked.slot_of_mem hmem
    exact List.mem_map_of_mem (List.mem_of_getElem? (getElem?_of_slot (lt_length_of_slot hused)))
  have hle := (List.subperm_of_subset hpacked.nodup hsub).length_le
  rw [← hpacked.fds, List.length_map, List.length_map, hpacked.length_active] at hle
  exact hle

theorem Packed.clients_split (hpos : 1 ≤ i) {before after : List Pollfd}
    (hactive : server.active = before ++ entry :: after) (hbefore : before.length = i) :
    ∃ first rest, before = first :: rest ∧ first.fd = listenfd ∧
      clients = rest.map Pollfd.fd ++ entry.fd :: after.map Pollfd.fd := by
  obtain ⟨first, rest, rfl⟩ := List.exists_cons_of_length_pos (hbefore ▸ hpos)
  have hfds := hpacked.fds
  rw [hactive, List.cons_append, List.map_cons, List.cons.injEq, List.map_append,
    List.map_cons] at hfds
  exact ⟨first, rest, rfl, hfds.1, hfds.2.symm⟩

theorem Packed.hungup (hi : i < server.numfd)
    (hpos : 1 ≤ i) (hget : server.pollfd[i]? = some entry) :
    ∃ server' i' clients', server.hungup i entry = .ok (server', i') ∧
      server'.Packed listenfd clients' ∧ i ≤ i' ∧
      server'.trace = server.trace ++ [.close entry.fd] ∧
      (server'.pending i').Perm (server.pending (i + 1)) := by
  obtain ⟨before, after, hactive, hbefore, _, hafter⟩ := active_split hi hget
  obtain ⟨first, rest, rfl, hfirst, rfl⟩ := hpacked.clients_split hpos hactive hbefore
  have hmem : entry.fd ∈ rest.map Pollfd.fd ++ entry.fd :: after.map Pollfd.fd := by simp
  obtain ⟨hused, hentry⟩ := hpacked.slot_of_mem (List.mem_cons_of_mem _ hmem)
  have hne : entry.fd ≠ listenfd := by
    intro heq
    exact (List.nodup_cons.mp hpacked.nodup).1 (heq ▸ hmem)
  obtain ⟨client, j, hclient, hj, hslot, _⟩ := clientDel_slot hused hentry
  obtain ⟨server', i', after', hhungup, rfl, htrace, hroom, _, hle, hactive', hperm, hpending⟩ :=
    hungup_eq hi hpacked.room hclient hactive hbefore
  refine ⟨server', i', rest.map Pollfd.fd ++ after'.map Pollfd.fd, hhungup, ?_, hle, htrace, ?_⟩
  · have hclients : (rest.map Pollfd.fd ++ entry.fd :: after.map Pollfd.fd).Perm
        (entry.fd :: (rest.map Pollfd.fd ++ after'.map Pollfd.fd)) :=
      List.perm_middle.trans (((hperm.map _).symm.append_left _).cons _)
    have hnodup := (hclients.nodup_iff.mp (List.nodup_cons.mp hpacked.nodup).2)
    constructor
    · rw [htrace, connections_snoc, hslot]
      have hdel := hpacked.table.del (hj ▸ hused) rfl (slot server.client j).uid
      rw [hj, update_comm hne.symm] at hdel
      exact hdel
    · rw [htrace, connections_snoc]
      exact (update_of_ne hne.symm ..).trans hpacked.listen
    · rw [hactive', List.cons_append, List.map_cons, hfirst, List.map_append]
    · refine List.nodup_cons.mpr ⟨fun hlisten => ?_, (List.nodup_cons.mp hnodup).2⟩
      refine (List.nodup_cons.mp hpacked.nodup).1 (hclients.mem_iff.mpr ?_)
      exact List.mem_cons_of_mem _ hlisten
    · intro fd
      rw [htrace, connections_snoc]
      have hold := hpacked.mem fd
      rw [hclients.mem_iff, List.mem_cons] at hold
      change _ ↔ update (connections server.trace) entry.fd none fd ≠ none
      rcases eq_or_ne fd entry.fd with rfl | hfd
      · simp only [update_self, ne_eq, not_true_eq_false, iff_false]
        exact (List.nodup_cons.mp hnodup).1
      · rw [update_of_ne hfd, ← hold]
        simp [hfd]
    · exact hroom
  · rw [hpending, hafter]
    exact hperm

theorem Packed.polled (calls : PollCalls) : (server.polled calls).Packed listenfd clients := by
  refine { hpacked with fds := ?_, room := ?_ }
  · rw [← hpacked.fds]
    refine List.ext_getElem? fun i => ?_
    simp only [active, Poll.polled, List.getElem?_map, List.getElem?_take, List.getElem?_mapIdx]
    split
    · rw [Option.map_map]
      rfl
    · rfl
  · simpa only [Poll.polled, List.length_mapIdx] using hpacked.room

theorem Packed.accept (hproper : calls.Proper listenfd server) :
    Ends (fun server' => server'.Packed listenfd (clients ++ [calls.accepted.1]) ∧
        server'.trace = server.trace ++ [.accept calls.accepted.1 calls.accepted.2] ∧
        server'.active = server.active ++ [.fresh calls.accepted.1])
      (fun ended => ended = (.serv_accept, server)) (server.accept calls) := by
  obtain ⟨hlisten, hnew⟩ := hproper
  rw [Poll.accept]
  split
  · exact rfl
  · obtain ⟨hslot, hfree, _⟩ := clientAdd_slot calls.accepted.1 calls.accepted.2 server.client
    generalize clientAdd calls.accepted.1 calls.accepted.2 server.client = added at *
    generalize calls.accepted.1 = clifd at *
    generalize calls.accepted.2 = uid at *
    obtain ⟨hlength, hkept⟩ := room_grown hpacked.room
    dsimp only
    generalize (if server.numfd = server.pollfd.length then growPollfd server.pollfd
      else server.pollfd) = grown at *
    have hclifd : clifd ≠ -1 := by omega
    have hactive : (grown.set server.numfd (Pollfd.fresh clifd)).take (server.numfd + 1) =
        server.active ++ [.fresh clifd] := by
      rw [List.take_add_one, List.getElem?_set_self hlength]
      refine congrArg (· ++ [Pollfd.fresh clifd]) (List.ext_getElem? fun i => ?_)
      rw [active, List.getElem?_take, List.getElem?_take]
      split
      · rename_i hi
        rw [List.getElem?_set_ne (Nat.ne_of_gt hi), hkept i hi]
      · rfl
    have hnotin : clifd ∉ clients := fun hmem => (hpacked.mem clifd).mp hmem hnew
    refine ⟨?_, rfl, hactive⟩
    constructor
    · rw [connections_snoc, hslot]
      have hadd := hpacked.table.add hfree hclifd ((update_of_ne hlisten ..).trans hnew) uid
      rwa [update_comm hlisten.symm] at hadd
    · rw [connections_snoc]
      exact (update_of_ne hlisten.symm ..).trans hpacked.listen
    · rw [active, hactive, List.map_append, hpacked.fds]
      rfl
    · rw [← List.cons_append]
      refine List.nodup_append.mpr ⟨hpacked.nodup, List.pairwise_singleton _ _, ?_⟩
      intro fd hmem new hnew heq
      cases List.mem_singleton.mp hnew
      exact (List.mem_cons.mp (heq ▸ hmem)).elim hlisten hnotin
    · intro fd
      rw [connections_snoc, List.mem_append, List.mem_singleton, hpacked.mem]
      change _ ↔ update (connections server.trace) clifd (some uid) fd ≠ none
      rcases eq_or_ne fd clifd with rfl | hfd
      · simp
      · simp [hfd]
    · rw [List.length_set]
      exact hlength

end

theorem Packed.start (hlisten : 0 ≤ listenfd) : (Poll.start listenfd).Packed listenfd [] where
  table := (Poll.Inv.start hlisten).table
  listen := rfl
  fds := rfl
  nodup := List.pairwise_singleton _ _
  mem := by simp [Poll.start, connections]
  room := Nat.le_of_ble_eq_true rfl

end Poll

/-- The event is about a client: its request was read, or its connection closed. -/
def Event.touches (fd : Int) : Event → Bool
  | accept _ _ => false
  | request _ other _ => other == fd
  | close other => other == fd

/-- The entry is that of a client for which `poll` has reported something. -/
def Pollfd.reported (fd : Int) (entry : Pollfd) : Bool :=
  entry.fd == fd && (entry.revents.pollin || entry.revents.pollhup)

/-- Each client is touched as often as an entry of it was reported and is no longer pending. -/
structure Handled (listenfd : Int) (trace : List Event) (todo : List Pollfd) (server : Poll)
    (i : Nat) : Prop where
  packed : ∃ clients, server.Packed listenfd clients
  pos : 1 ≤ i
  count : ∃ events, server.trace = trace ++ events ∧ ∀ fd,
    events.countP (·.touches fd) + (server.pending i).countP (·.reported fd) =
      todo.countP (·.reported fd)

namespace Handled

variable {listenfd : Int} {trace : List Event} {todo : List Pollfd} {server server' : Poll}
  {i i' : Nat} {polled : Pollfd}
variable (hhandled : Handled listenfd trace todo server i)
include hhandled

section

variable (hi : i < server.numfd) (hget : server.pollfd[i]? = some polled)
include hi hget

theorem advance (hpacked : ∃ clients, server'.Packed listenfd clients) (hle : i ≤ i')
    (event : Option Event) (htrace : server'.trace = server.trace ++ event.toList)
    (hperm : (server'.pending i').Perm (server.pending (i + 1)))
    (htouch : ∀ fd, event.any (·.touches fd) = polled.reported fd) :
    Handled listenfd trace todo server' i' := by
  obtain ⟨events, hevents, hcount⟩ := hhandled.count
  obtain ⟨before, after, _, _, hpending, hafter⟩ := Poll.active_split hi hget
  refine ⟨hpacked, Nat.le_trans hhandled.pos hle, events ++ event.toList, ?_, fun fd => ?_⟩
  · rw [htrace, hevents, List.append_assoc]
  · have hevent : event.toList.countP (·.touches fd) = if polled.reported fd then 1 else 0 := by
      rw [← htouch fd]
      cases event <;> simp
    rw [List.countP_append, hevent, hperm.countP_eq, ← hcount fd, hpending, hafter,
      List.countP_cons]
    omega

theorem hungup {exit : Exit × Poll → Prop}
    (hbits : (polled.revents.pollin || polled.revents.pollhup) = true) :
    Ends (fun next : Poll × Nat => Handled listenfd trace todo next.1 next.2) exit
      (server.hungup i polled) := by
  obtain ⟨clients, hpacked⟩ := hhandled.packed
  obtain ⟨server', i', clients', hhungup, hpacked', hle, htrace, hperm⟩ :=
    hpacked.hungup hi hhandled.pos hget
  rw [hhungup]
  refine hhandled.advance hi hget ⟨clients', hpacked'⟩ hle (some (.close polled.fd)) htrace hperm ?_
  intro fd
  simp [Event.touches, Pollfd.reported, hbits]

end

theorem entry (hi : i < server.numfd) :
    Ends (fun next : Poll × Nat => Handled listenfd trace todo next.1 next.2)
      (fun ended => ended.1 = .read ∧ Handled listenfd trace todo ended.2 i)
      (server.entry calls i) := by
  obtain ⟨clients, hpacked⟩ := hhandled.packed
  obtain ⟨entry, hget⟩ : ∃ entry, server.pollfd[i]? = some entry :=
    ⟨_, List.getElem?_eq_getElem (Nat.lt_of_lt_of_le hi hpacked.room)⟩
  rw [Poll.entry, hget]
  dsimp only
  split
  · rename_i hhup
    exact hhandled.hungup hi hget (by rw [hhup, Bool.or_true])
  · rename_i hhup
    split
    · rename_i hin
      have hbits : (entry.revents.pollin || entry.revents.pollhup) = true := by
        rw [hin, Bool.true_or]
      split
      · exact ⟨rfl, hhandled⟩
      · exact hhandled.hungup hi hget hbits
      · rename_i buf _ _
        rw [getElem?_of_slot (Nat.lt_of_lt_of_le hi hpacked.numfd_le)]
        refine hhandled.advance hi hget ⟨clients, ?_⟩ (Nat.le_succ i)
          (some (.request buf entry.fd (slot server.client i).uid)) rfl (List.Perm.refl _) ?_
        · refine { hpacked with table := ?_, listen := ?_, mem := ?_ }
          all_goals rw [connections_snoc]
          · exact hpacked.table
          · exact hpacked.listen
          · exact hpacked.mem
        · intro fd
          simp [Event.touches, Pollfd.reported, hbits]
    · rename_i hin
      refine hhandled.advance hi hget ⟨clients, hpacked⟩ (Nat.le_succ i) none
        (List.append_nil _).symm (List.Perm.refl _) ?_
      intro fd
      simp [Pollfd.reported, hhup, hin]

theorem scan :
    Ends (fun server' => (∃ clients, server'.Packed listenfd clients) ∧
        ∃ events, server'.trace = trace ++ events ∧
          ∀ fd, events.countP (·.touches fd) = todo.countP (·.reported fd))
      (fun ended => ended.1 = .read ∧ ∃ events, ended.2.trace = trace ++ events ∧
          ∀ fd, events.countP (·.touches fd) ≤ todo.countP (·.reported fd))
      (server.scan calls i) := by
  have hends := @Poll.scan_ends calls (Handled listenfd trace todo)
    (fun ended => ended.1 = .read ∧ ∃ i, Handled listenfd trace todo ended.2 i)
    (fun server i hhandled hi => (hhandled.entry hi).imp (fun _ hnext => hnext)
      fun _ hended => ⟨hended.1, i, hended.2⟩) server i hhandled
  refine hends.imp ?_ ?_
  · rintro server' ⟨i', ⟨⟨clients, hpacked⟩, _, events, htrace, hcount⟩, hend⟩
    refine ⟨⟨clients, hpacked⟩, events, htrace, fun fd => ?_⟩
    have hempty : server'.pending i' = [] :=
      List.drop_eq_nil_of_le (Nat.le_trans (Nat.le_of_eq hpacked.length_active) hend)
    rw [← hcount fd, hempty, List.countP_nil, Nat.add_zero]
  · rintro ended ⟨hread, i', _, _, events, htrace, hcount⟩
    refine ⟨hread, events, htrace, fun fd => ?_⟩
    rw [← hcount fd]
    exact Nat.le_add_right _ _

end Handled

def PollCalls.connection (calls : PollCalls) : List Event :=
  if (calls.revents 0).pollin then [.accept calls.accepted.1 calls.accepted.2] else []

variable {listenfd : Int} {server : Poll} {clients : List Int}

theorem Poll.Packed.iteration (hpacked : server.Packed listenfd clients)
    (hproper : calls.Proper listenfd server) :
    Ends (fun server' => (∃ clients', server'.Packed listenfd clients') ∧
        ∃ events, server'.trace = server.trace ++ calls.connection ++ events ∧
          ∀ fd, events.countP (·.touches fd) =
            ((server.polled calls).pending 1).countP (·.reported fd))
      (fun ended => (ended.1 = .serv_accept ∨ ended.1 = .read) ∧
        ∃ events, ended.2.trace = server.trace ++ events ∧ ∀ fd, events.countP (·.touches fd) ≤
            ((server.polled calls).pending 1).countP (·.reported fd))
      (server.iteration calls) := by
  have hpolled := hpacked.polled calls
  have hpos : 0 < server.numfd := by
    rw [← hpacked.length_active, ← List.length_map (f := Pollfd.fd), hpacked.fds]
    exact Nat.succ_pos _
  obtain ⟨listen, hget⟩ : ∃ listen, (server.polled calls).pollfd[0]? = some listen :=
    ⟨_, List.getElem?_eq_getElem (Nat.lt_of_lt_of_le hpos hpolled.room)⟩
  have hbits : listen.revents = calls.revents 0 := by
    obtain ⟨old, _, rfl⟩ := Poll.polled_get hpos hget
    rfl
  simp only [Poll.iteration, PollCalls.connection, hget, hbits]
  split
  · have haccept := hpolled.accept hproper
    cases hresult : (server.polled calls).accept calls with
    | error ended =>
      rw [hresult] at haccept
      cases haccept
      exact ⟨.inl rfl, [], (List.append_nil _).symm, fun fd => Nat.zero_le _⟩
    | ok server' =>
      rw [hresult] at haccept
      obtain ⟨hnext, htrace, hactive⟩ := haccept
      have hhandled : Handled listenfd
          (server.trace ++ [.accept calls.accepted.1 calls.accepted.2])
          ((server.polled calls).pending 1) server' 1 := by
        refine ⟨⟨_, hnext⟩, Nat.le_refl 1, [], ?_, fun fd => ?_⟩
        · rw [htrace, List.append_nil]
          rfl
        · -- A fresh entry has nothing to report.
          rw [Poll.pending, hactive, List.drop_append_of_le_length (hpolled.length_active ▸ hpos),
            List.countP_append]
          simp [Pollfd.reported, Pollfd.fresh, Poll.pending]
      refine hhandled.scan.imp (fun _ hnext => hnext) ?_
      rintro ended ⟨hread, events, hended, hcount⟩
      refine ⟨.inr hread, .accept calls.accepted.1 calls.accepted.2 :: events, ?_, fun fd => ?_⟩
      · rw [hended, List.append_assoc]
        rfl
      · rw [List.countP_cons_of_neg (by simp [Event.touches])]
        exact hcount fd
  · have hhandled : Handled listenfd server.trace ((server.polled calls).pending 1)
        (server.polled calls) 1 :=
      ⟨⟨clients, hpolled⟩, Nat.le_refl 1, [], (List.append_nil _).symm, fun fd => Nat.zero_add _⟩
    rw [List.append_nil]
    exact hhandled.scan.imp (fun _ hnext => hnext) fun _ hended => ⟨.inr hended.1, hended.2⟩

end ApueFormal.OpenServer
