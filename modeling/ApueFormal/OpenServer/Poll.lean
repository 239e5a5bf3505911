import ApueFormal.OpenServer.Client
import ApueFormal.Program.System

/-!
# The open server with poll

`loop` keeps the descriptors to poll in an array of its own, packed by moving
its last entry into the place of a closed one, and takes the user id of a request
from the client array at the same index.
-/

namespace ApueFormal.OpenServer

open Function Program

/-- The bits of `events` and `revents` that `loop` uses. -/
structure PollBits where
  pollin : Bool
  pollhup : Bool
  deriving DecidableEq

structure Pollfd where
  fd : Int
  events : PollBits
  revents : PollBits
  deriving DecidableEq

def Pollfd.fresh (fd : Int) : Pollfd := ⟨fd, ⟨true, false⟩, ⟨false, false⟩⟩

/-- The arrays, the number of descriptors, and what has been done so far. -/
structure Poll where
  client : List Client
  pollfd : List Pollfd
  numfd : Nat
  trace : List Event

/-- What the system calls of an iteration return. -/
structure PollCalls where
  revents : Nat → PollBits
  accepted : Int × Nat
  read : Int → Option (List UInt8)

/-- `grow_pollfd`; the length of the array is `maxfd`. -/
def growPollfd (pollfd : List Pollfd) : List Pollfd :=
  pollfd ++ List.replicate nalloc (.fresh (-1))

variable {calls : PollCalls} {i : Nat} {server : Poll}

namespace Poll

def start (listenfd : Int) : Poll :=
  { client := (clientAdd listenfd 0 []).1
    pollfd := (List.replicate nalloc (Pollfd.fresh (-1))).set 0 (.fresh listenfd)
    numfd := 1
    trace := [] }

/-- `poll` fills in `revents`. -/
def polled (calls : PollCalls) (server : Poll) : Poll :=
  { server with pollfd := server.pollfd.mapIdx fun i entry =>
      if i < server.numfd then { entry with revents := calls.revents i } else entry }

def accept (calls : PollCalls) (server : Poll) : Except (Exit × Poll) Poll :=
  let clifd := calls.accepted.1
  let uid := calls.accepted.2
  if clifd < 0 then .error (.serv_accept, server)
  else
    let pollfd :=
      if server.numfd = server.pollfd.length then growPollfd server.pollfd else server.pollfd
    .ok
      { client := (clientAdd clifd uid server.client).1
        pollfd := pollfd.set server.numfd (.fresh clifd)
        numfd := server.numfd + 1
        trace := server.trace ++ [.accept clifd uid] }

/-- The client of entry `i` has closed its connection: the state, and the index
of the entry to look at next. -/
def hungup (server : Poll) (i : Nat) (entry : Pollfd) : Except (Exit × Poll) (Poll × Nat) :=
  match clientDel entry.fd server.client, server.pollfd[server.numfd - 1]? with
  | .error exit, _ => .error (exit, server)
  | .ok _, none => .error (.bounds, server)
  | .ok client, some last =>
    if i < server.numfd - 1 then
      .ok (⟨client, server.pollfd.set i last, server.numfd - 1,
        server.trace ++ [.close entry.fd]⟩, i)
    else
      .ok (⟨client, server.pollfd, server.numfd - 1,
        server.trace ++ [.close entry.fd]⟩, i + 1)

def entry (calls : PollCalls) (server : Poll) (i : Nat) : Except (Exit × Poll) (Poll × Nat) :=
  match server.pollfd[i]? with
  | none => .error (.bounds, server)
  | some entry =>
    if entry.revents.pollhup then server.hungup i entry
    else if entry.revents.pollin then
      match calls.read entry.fd with
      | none => .error (.read, server)
      | some [] => server.hungup i entry
      | some buf =>
        match server.client[i]? with
        | none => .error (.bounds, server)
        | some client =>
          .ok ({ server with
            trace := server.trace ++ [.request buf entry.fd client.uid] }, i + 1)
    else .ok (server, i + 1)

theorem entry_decreases {server' : Poll} {i' : Nat}
    (hentry : server.entry calls i = .ok (server', i')) (hi : i < server.numfd) :
    server'.numfd - i' < server.numfd - i := by
  unfold entry hungup at hentry
  split at hentry
  · cases hentry
  · grind

def scan (calls : PollCalls) (server : Poll) (i : Nat) : Except (Exit × Poll) Poll :=
  if _hi : i < server.numfd then
    match _hentry : server.entry calls i with
    | .error ended => .error ended
    | .ok (server', i') => scan calls server' i'
  else .ok server
termination_by server.numfd - i
decreasing_by exact entry_decreases _hentry _hi

theorem scan_ends {calls : PollCalls} {inv : Poll → Nat → Prop} {exit : Exit × Poll → Prop}
    (hentry : ∀ server i, inv server i → i < server.numfd →
      Ends (fun next : Poll × Nat => inv next.1 next.2) exit (server.entry calls i))
    {server : Poll} {i : Nat} (hinv : inv server i) :
    Ends (fun server' => ∃ i', inv server' i' ∧ server'.numfd ≤ i') exit (server.scan calls i) := by
  induction server, i using Poll.scan.induct calls with
  | case1 server i hi ended hended =>
    have hends := hentry server i hinv hi
    rw [Poll.scan, dif_pos hi]
    split
    · rename_i hentry'
      rwa [hentry'] at hends
    · rename_i hentry'
      cases hended.symm.trans hentry'
  | case2 server i hi server' i' hnext ih =>
    have hends := hentry server i hinv hi
    rw [hnext] at hends
    rw [Poll.scan, dif_pos hi]
    split
    · rename_i hentry'
      cases hnext.symm.trans hentry'
    · rename_i hentry'
      cases hnext.symm.trans hentry'
      exact ih hends
  | case3 server i hi =>
    rw [Poll.scan, dif_neg hi]
    exact ⟨i, hinv, Nat.le_of_not_lt hi⟩

def iteration (calls : PollCalls) (server : Poll) : Except (Exit × Poll) Poll :=
  let server := server.polled calls
  match server.pollfd[0]? with
  | none => .error (.bounds, server)
  | some listen =>
    if listen.revents.pollin then
      match server.accept calls with
      | .error ended => .error ended
      | .ok server => server.scan calls 1
    else server.scan calls 1

end Poll

/-! ## Connections closed last in, first out -/

/-- The client of an entry closes its connection in this iteration. -/
def Pollfd.Leaves (calls : PollCalls) (entry : Pollfd) : Prop :=
  entry.revents.pollhup = true ∨ entry.revents.pollin = true ∧ calls.read entry.fd = some []

/-- The entries before the last one keep their connections. -/
def Poll.OnlyLast (calls : PollCalls) (server : Poll) : Prop :=
  ∀ i entry, 1 ≤ i → i + 1 < server.numfd → server.pollfd[i]? = some entry → ¬ entry.Leaves calls

/-- Both arrays hold the same connections in the same order. -/
structure Poll.Inv (listenfd : Int) (server : Poll) : Prop where
  table : Table (slot server.client) (Function.update (connections server.trace) listenfd (some 0))
  attributed : Attributed server.trace
  listen : connections server.trace listenfd = none ∧ (slot server.client 0).fd = listenfd
  numfd : 1 ≤ server.numfd
  aligned : ∀ i < server.numfd, (slot server.client i).fd ≠ -1 ∧
    (server.pollfd[i]?.map Pollfd.fd) = some (slot server.client i).fd
  beyond : ∀ i, server.numfd ≤ i → (slot server.client i).fd = -1

/-- The server has not ended for a reason of its own. -/
def Poll.Sound (ended : Exit × Poll) : Prop :=
  (ended.1 = .serv_accept ∨ ended.1 = .read) ∧ Attributed ended.2.trace

/-- An accepted descriptor was not open. -/
def PollCalls.Proper (listenfd : Int) (server : Poll) (calls : PollCalls) : Prop :=
  calls.accepted.1 ≠ listenfd ∧ connections server.trace calls.accepted.1 = none

/-- A connection that ends in an iteration is the last one of the array, and no
new one is accepted in that iteration. -/
def Poll.LastLeaves (calls : PollCalls) (server : Poll) : Prop :=
  ∀ i entry, 1 ≤ i → i < server.numfd → server.pollfd[i]? = some entry →
    Pollfd.Leaves calls { entry with revents := calls.revents i } →
    i + 1 = server.numfd ∧ (calls.revents 0).pollin = false

theorem Poll.polled_get {entry : Pollfd} (hi : i < server.numfd)
    (hget : (server.polled calls).pollfd[i]? = some entry) :
    ∃ old, server.pollfd[i]? = some old ∧ entry = { old with revents := calls.revents i } := by
  simp only [Poll.polled, List.getElem?_mapIdx] at hget
  obtain ⟨old, hold, rfl⟩ := Option.map_eq_some_iff.mp hget
  exact ⟨old, hold, if_pos hi⟩

theorem Poll.LastLeaves.polled (hleaves : server.LastLeaves calls) {entry : Pollfd} (hpos : 1 ≤ i)
    (hi : i < server.numfd) (hget : (server.polled calls).pollfd[i]? = some entry)
    (hentry : entry.Leaves calls) :
    i + 1 = server.numfd ∧ (calls.revents 0).pollin = false := by
  obtain ⟨old, hold, rfl⟩ := Poll.polled_get hi hget
  exact hleaves i old hpos hi hold hentry

theorem Poll.room_grown (hroom : server.numfd ≤ server.pollfd.length) :
    server.numfd < (if server.numfd = server.pollfd.length then growPollfd server.pollfd
      else server.pollfd).length ∧
    ∀ i < server.numfd, (if server.numfd = server.pollfd.length then growPollfd server.pollfd
      else server.pollfd)[i]? = server.pollfd[i]? := by
  split
  · rename_i hfull
    constructor
    · rw [growPollfd, List.length_append, List.length_replicate, nalloc]
      omega
    · intro i hi
      exact List.getElem?_append_left (hfull ▸ hi)
  · exact ⟨by omega, fun i _ => rfl⟩

namespace Poll.Inv

variable {listenfd : Int}
variable (hinv : server.Inv listenfd)
include hinv

theorem get (hi : i < server.numfd) :
    ∃ entry, server.pollfd[i]? = some entry ∧ entry.fd = (slot server.client i).fd ∧
      entry.fd ≠ -1 := by
  obtain ⟨hused, hfd⟩ := hinv.aligned i hi
  obtain ⟨entry, hget, hentry⟩ := Option.map_eq_some_iff.mp hfd
  exact ⟨entry, hget, hentry, hentry ▸ hused⟩

theorem uid (hi : i < server.numfd) (hpos : 1 ≤ i) :
    (slot server.client i).fd ≠ listenfd ∧ (slot server.client i).uid ≠ none ∧
      connections server.trace (slot server.client i).fd = (slot server.client i).uid := by
  have hused := (hinv.aligned i hi).1
  have hne : (slot server.client i).fd ≠ listenfd := by
    intro heq
    have := hinv.table.distinct i 0 hused (heq.trans hinv.listen.2.symm)
    omega
  have huid := hinv.table.uid i hused
  rw [update_of_ne hne] at huid
  exact ⟨hne, huid⟩

theorem requested (hi : i < server.numfd) (hpos : 1 ≤ i) (buf : List UInt8) :
    Inv listenfd { server with trace := server.trace ++
      [.request buf (slot server.client i).fd (slot server.client i).uid] } := by
  refine { hinv with table := ?_, attributed := ?_, listen := ?_ }
  · rw [connections_snoc]
    exact hinv.table
  · refine hinv.attributed.snoc fun _ _ _ heq => ?_
    cases heq
    exact (hinv.uid hi hpos).2
  · rw [connections_snoc]
    exact hinv.listen

theorem closed (hi : i + 1 = server.numfd) (hpos : 1 ≤ i) {client : List Client}
    (hslot : slot client = update (slot server.client) i ⟨-1, (slot server.client i).uid⟩) :
    Inv listenfd ⟨client, server.pollfd, server.numfd - 1,
      server.trace ++ [.close (slot server.client i).fd]⟩ := by
  have hlast : i < server.numfd := by omega
  have hne := (hinv.uid hlast hpos).1
  have hother : ∀ j, j ≠ i → slot client j = slot server.client j := by
    intro j hj
    rw [hslot, update_of_ne hj]
  constructor
  · rw [connections_snoc, hslot]
    have hdel := hinv.table.del (hinv.aligned i hlast).1 rfl (slot server.client i).uid
    rwa [update_comm hne.symm] at hdel
  · exact hinv.attributed.snoc fun _ _ _ heq => by cases heq
  · rw [connections_snoc]
    constructor
    · exact (update_of_ne hne.symm ..).trans hinv.listen.1
    · exact (congrArg Client.fd (hother 0 (by omega))).trans hinv.listen.2
  · exact Nat.le_sub_of_add_le (by omega)
  · intro j hj
    dsimp only at hj ⊢
    rw [hother j (by omega)]
    exact hinv.aligned j (by omega)
  · intro j hj
    dsimp only at hj ⊢
    rcases eq_or_ne j i with rfl | hji
    · rw [hslot, update_self]
    · rw [hother j hji]
      exact hinv.beyond j (by omega)

section

variable (hlast : server.OnlyLast calls) (hi : i < server.numfd) (hpos : 1 ≤ i)
include hlast hi hpos

theorem hungup {entry : Pollfd} (hget : server.pollfd[i]? = some entry)
    (hleaves : entry.Leaves calls) :
    Ends (fun next => Inv listenfd next.1 ∧ next.1.OnlyLast calls ∧ 1 ≤ next.2) Sound
      (server.hungup i entry) := by
  have hi' : i + 1 = server.numfd := by
    by_contra hne
    exact hlast i entry hpos (by omega) hget hleaves
  obtain ⟨entry', hget', hfd, hused⟩ := hinv.get hi
  cases hget.symm.trans hget'
  obtain ⟨client, j, hcall, hj, hslot, _⟩ := clientDel_slot hused ⟨i, hfd.symm⟩
  cases hinv.table.distinct i j (hfd ▸ hused) (hfd.symm.trans hj.symm)
  have hlen : server.pollfd[server.numfd - 1]? = some entry := by
    rw [← hi', Nat.add_sub_cancel, hget]
  have hnot : ¬ i < server.numfd - 1 := by omega
  simp only [Poll.hungup, hcall, hlen, if_neg hnot]
  refine ⟨hfd ▸ hinv.closed hi' hpos hslot, ?_, Nat.succ_le_succ (Nat.zero_le i)⟩
  intro k other hk hklt
  exact hlast k other hk (by dsimp only at hklt; omega)

theorem entry :
    Ends (fun next => Inv listenfd next.1 ∧ next.1.OnlyLast calls ∧ 1 ≤ next.2) Sound
      (server.entry calls i) := by
  obtain ⟨entry, hget, hfd, hused⟩ := hinv.get hi
  rw [Poll.entry, hget]
  dsimp only
  split
  · rename_i hhup
    exact hinv.hungup hlast hi hpos hget (.inl hhup)
  · split
    · rename_i hin
      split
      · exact ⟨.inr rfl, hinv.attributed⟩
      · rename_i hread
        exact hinv.hungup hlast hi hpos hget (.inr ⟨hin, hread⟩)
      · rename_i buf _ _
        rw [getElem?_of_slot (lt_length_of_slot (hfd ▸ hused)), hfd]
        exact ⟨hinv.requested hi hpos buf, hlast, Nat.le_succ_of_le hpos⟩
    · exact ⟨hinv, hlast, Nat.le_succ_of_le hpos⟩

end

theorem scan (hlast : server.OnlyLast calls) (hpos : 1 ≤ i) :
    Ends (Inv listenfd) Sound (server.scan calls i) := by
  have hends := @Poll.scan_ends calls
    (fun server i => Inv listenfd server ∧ server.OnlyLast calls ∧ 1 ≤ i) Sound
    (fun server i hinv hi => hinv.1.entry hinv.2.1 hi hinv.2.2) server i ⟨hinv, hlast, hpos⟩
  exact hends.imp (fun _ ⟨_, hinv', _⟩ => hinv'.1) fun _ hexit => hexit

theorem polled (calls : PollCalls) : (server.polled calls).Inv listenfd := by
  refine { hinv with aligned := ?_ }
  intro i hi
  obtain ⟨hused, hfd⟩ := hinv.aligned i hi
  refine ⟨hused, ?_⟩
  refine Eq.trans ?_ hfd
  simp only [Poll.polled, List.getElem?_mapIdx, Option.map_map]
  congr 1
  funext entry
  simp only [Function.comp_apply]
  split <;> rfl

theorem room : server.numfd ≤ server.pollfd.length := by
  have hnumfd := hinv.numfd
  obtain ⟨entry, hget, _⟩ := hinv.get (Nat.sub_lt hnumfd Nat.one_pos)
  have hlength := List.getElem?_eq_some_iff.mp hget |>.1
  omega

theorem accept (hproper : calls.Proper listenfd server) :
    Ends (fun server' => Inv listenfd server' ∧ server'.numfd = server.numfd + 1 ∧
        ∀ i < server.numfd, server'.pollfd[i]? = server.pollfd[i]?) Sound
      (server.accept calls) := by
  obtain ⟨hlisten, hnew⟩ := hproper
  rw [Poll.accept]
  split
  · exact ⟨.inl rfl, hinv.attributed⟩
  · rename_i hnonneg
    obtain ⟨hslot, hfree, hbefore, _⟩ := clientAdd_slot calls.accepted.1 calls.accepted.2
      server.client
    generalize clientAdd calls.accepted.1 calls.accepted.2 server.client = added at *
    generalize calls.accepted.1 = clifd at *
    -- The first available entry is the one behind the last connection.
    have hindex : added.2 = server.numfd := by
      rcases Nat.lt_trichotomy added.2 server.numfd with hlt | heq | hgt
      · exact absurd hfree (hinv.aligned _ hlt).1
      · exact heq
      · exact absurd (hinv.beyond _ (Nat.le_refl _)) (hbefore _ hgt)
    obtain ⟨hlength, hkept⟩ := Poll.room_grown hinv.room
    have hother : ∀ i, i ≠ server.numfd → slot added.1 i = slot server.client i := by
      intro i hi
      rw [hslot, hindex, update_of_ne hi]
    have hclifd : clifd ≠ -1 := by omega
    refine ⟨?_, rfl, fun i hi => ?_⟩
    swap
    · exact (List.getElem?_set_ne (Nat.ne_of_gt hi)).trans (hkept i hi)
    constructor
    · rw [connections_snoc, hslot]
      have hadd := hinv.table.add hfree hclifd
        ((update_of_ne hlisten ..).trans hnew) calls.accepted.2
      rwa [update_comm hlisten.symm] at hadd
    · exact hinv.attributed.snoc fun _ _ _ heq => by cases heq
    · rw [connections_snoc]
      constructor
      · exact (update_of_ne hlisten.symm ..).trans hinv.listen.1
      · have hzero := hinv.numfd
        exact (congrArg Client.fd (hother 0 (by omega))).trans hinv.listen.2
    · exact Nat.le_succ_of_le hinv.numfd
    · intro i hi
      dsimp only at hi ⊢
      rcases eq_or_ne i server.numfd with rfl | hne
      · rw [hslot, hindex, update_self, List.getElem?_set_self hlength]
        exact ⟨hclifd, rfl⟩
      · rw [hother i hne, List.getElem?_set_ne hne.symm, hkept i (by omega)]
        exact hinv.aligned i (by omega)
    · intro i hi
      dsimp only at hi ⊢
      rw [hother i (by omega)]
      exact hinv.beyond i (by omega)

omit hinv in
theorem start (hlisten : 0 ≤ listenfd) : (Poll.start listenfd).Inv listenfd := by
  obtain ⟨hslot, _, hbefore, _⟩ := clientAdd_slot listenfd 0 []
  have hindex : (clientAdd listenfd 0 []).2 = 0 := by
    by_contra hne
    exact hbefore 0 (Nat.pos_of_ne_zero hne) rfl
  rw [hindex] at hslot
  have hempty : ∀ i, slot [] i = available := fun i => rfl
  have hused : listenfd ≠ -1 := by omega
  have htable : Table (slot []) (connections []) :=
    ⟨fun i _ hused => absurd rfl hused, fun i hused => absurd rfl hused,
      fun fd hopen => absurd rfl hopen⟩
  constructor
  · dsimp only [Poll.start]
    rw [hslot]
    exact htable.add rfl hused rfl 0
  · exact attributed_nil
  · refine ⟨rfl, ?_⟩
    dsimp only [Poll.start]
    rw [hslot, update_self]
  · exact Nat.le_refl 1
  · intro i hi
    cases Nat.lt_one_iff.mp hi
    dsimp only [Poll.start]
    rw [hslot, update_self]
    exact ⟨hused, rfl⟩
  · intro i (hi : 1 ≤ i)
    dsimp only [Poll.start]
    rw [hslot, update_of_ne (by omega)]
    rfl

theorem iteration (hproper : calls.Proper listenfd server) (hleaves : server.LastLeaves calls) :
    Ends (Inv listenfd) Sound (server.iteration calls) := by
  have hpolled := hinv.polled calls
  obtain ⟨listen, hget, _⟩ := hpolled.get hpolled.numfd
  have hbits : listen.revents = calls.revents 0 := by
    obtain ⟨old, _, rfl⟩ := Poll.polled_get hinv.numfd hget
    rfl
  simp only [Poll.iteration, hget, hbits]
  split
  · rename_i hin
    have haccept := hpolled.accept hproper
    cases hresult : (server.polled calls).accept calls with
    | error ended =>
      rw [hresult] at haccept
      exact haccept
    | ok server' =>
      rw [hresult] at haccept
      obtain ⟨hnext, hnumfd, hsame⟩ := haccept
      refine hnext.scan ?_ (Nat.le_refl 1)
      intro i entry hpos hi hentry hgone
      have hold : i < server.numfd := by
        rw [hnumfd] at hi
        exact Nat.lt_of_succ_lt_succ hi
      rw [hsame i hold] at hentry
      rw [(hleaves.polled hpos hold hentry hgone).2] at hin
      cases hin
  · refine hpolled.scan ?_ (Nat.le_refl 1)
    intro i entry hpos hi hentry hgone
    have hlast := (hleaves.polled hpos (Nat.lt_of_succ_lt hi) hentry hgone).1
    exact Nat.ne_of_lt hi hlast

end Poll.Inv

/-- The states in which an iteration begins, in a run whose iterations meet a
condition. -/
abbrev PollReaches (condition : PollCalls → Poll → Prop) (listenfd : Int) : Poll → Prop :=
  Reaches (fun server => server = Poll.start listenfd) fun server server' =>
    ∃ calls : PollCalls, calls.Proper listenfd server ∧ condition calls server ∧
      server.iteration calls = .ok server'

/-- While connections end last in, first out, every request is handled under the
user id of its connection. -/
theorem poll_requests_attributed {listenfd : Int} (hlisten : 0 ≤ listenfd) {server : Poll}
    (hreaches : PollReaches (fun calls server => server.LastLeaves calls) listenfd server) :
    Attributed server.trace ∧
      ∀ calls : PollCalls, calls.Proper listenfd server → server.LastLeaves calls →
        Ends (fun server' => Attributed server'.trace) (fun ended => Attributed ended.2.trace)
          (server.iteration calls) := by
  have hinv : server.Inv listenfd := by
    refine @Reaches.invariant _ _ _ (Poll.Inv listenfd) ?_ ?_ _ hreaches
    · rintro _ rfl
      exact .start hlisten
    · rintro server server' hinv ⟨calls, hproper, hleaves, hstep⟩
      have hends := hinv.iteration hproper hleaves
      rw [hstep] at hends
      exact hends
  refine ⟨hinv.attributed, fun calls hproper hleaves => ?_⟩
  exact (hinv.iteration hproper hleaves).imp (fun _ hnext => hnext.attributed)
    fun _ hended => hended.2

def acceptCalls (fd : Int) (uid : Nat) : PollCalls :=
  ⟨fun i => ⟨i == 0, false⟩, (fd, uid), fun _ => none⟩

/-- The first of two clients hangs up and the second sends a request. -/
def hangupCalls : PollCalls :=
  ⟨fun i => ⟨i == 2, i == 1⟩, (-1, 0), fun _ => some [0]⟩

def Poll.after (calls : PollCalls) (server : Poll) : Poll :=
  match server.iteration calls with
  | .ok server' => server'
  | .error ended => ended.2

theorem Poll.iteration_of_isOk (hok : (server.iteration calls).isOk = true) :
    server.iteration calls = .ok (server.after calls) := by
  rw [Poll.after]
  cases hresult : server.iteration calls with
  | ok server' => rfl
  | error ended =>
    rw [hresult] at hok
    cases hok

def twoClients : Poll := ((Poll.start 3).after (acceptCalls 4 1000)).after (acceptCalls 5 1001)

theorem twoClients_reached {condition : PollCalls → Poll → Prop}
    (hcondition : ∀ fd uid server, condition (acceptCalls fd uid) server) :
    PollReaches condition 3 twoClients := by
  have hone : PollReaches condition 3 ((Poll.start 3).after (acceptCalls 4 1000)) :=
    .step (.start rfl) ⟨acceptCalls 4 1000, ⟨by decide, rfl⟩, hcondition ..,
      Poll.iteration_of_isOk (by decide +kernel)⟩
  exact .step hone ⟨acceptCalls 5 1001, ⟨by decide, by decide +kernel⟩, hcondition ..,
    Poll.iteration_of_isOk (by decide +kernel)⟩

/-- The first of two clients sends a request and the second hangs up. -/
def leaveCalls : PollCalls :=
  ⟨fun i => ⟨i == 1, i == 2⟩, (-1, 0), fun _ => some [0]⟩

theorem poll_requests_attributed_last_leaves :
    ∃ server, PollReaches (fun calls server => server.LastLeaves calls) 3 server ∧
      server.trace = [.accept 4 1000, .accept 5 1001, .request [0] 4 (some 1000), .close 5] ∧
      Attributed server.trace := by
  have hreaches : PollReaches (fun calls server => server.LastLeaves calls) 3
      (twoClients.after leaveCalls) := by
    refine .step (twoClients_reached ?_) ⟨leaveCalls, ⟨by decide, by decide +kernel⟩, ?_,
      Poll.iteration_of_isOk (by decide +kernel)⟩
    · intro fd uid server i entry hpos _ _ hleaves
      simp [Pollfd.Leaves, acceptCalls, Nat.ne_of_gt hpos] at hleaves
    · intro i entry _ _ _ hleaves
      obtain rfl : i = 2 := by simpa [Pollfd.Leaves, leaveCalls] using hleaves
      exact ⟨by decide +kernel, rfl⟩
  exact ⟨_, hreaches, by decide +kernel, (poll_requests_attributed (by decide) hreaches).1⟩

/-- After the first of two clients has hung up, the second one is served under
the user id of the first. -/
theorem second_client_misattributed : ∃ server, PollReaches (fun _ _ => True) 3 server ∧
      server.trace = [.accept 4 1000, .accept 5 1001, .close 4, .request [0] 5 (some 1000)] ∧
      ¬ Attributed server.trace := by
  have htrace : (twoClients.after hangupCalls).trace =
      [.accept 4 1000, .accept 5 1001, .close 4, .request [0] 5 (some 1000)] := by
    decide +kernel
  refine ⟨twoClients.after hangupCalls, .step (twoClients_reached fun _ _ _ => trivial)
    ⟨hangupCalls, ⟨by decide, by decide +kernel⟩, trivial,
      Poll.iteration_of_isOk (by decide +kernel)⟩, htrace, ?_⟩
  intro hattributed
  rw [htrace] at hattributed
  have huid := (hattributed [.accept 4 1000, .accept 5 1001, .close 4] _ _ _ [] rfl).2
  exact absurd huid (by decide)

end ApueFormal.OpenServer
