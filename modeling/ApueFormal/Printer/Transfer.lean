import ApueFormal.Printer.Writen
import ApueFormal.Program.Logic

/-!
# readn, treadn and writen

The three loops repeat a call until all bytes have been moved.  Their calls are the
operations of a program, and a script says what each call returns.
-/

namespace ApueFormal.Printer.Transfer

open Libc Program

inductive Call where
  | read (addr len : Nat)
  | write (addr len : Nat)
  | select (timout : Nat)
  | setErrno (errno : Nat)

def callSig : Signature where
  Op := Call
  Answer
    | .read _ _ => Int
    | .write _ _ => Int
    | .select _ => Int
    | .setErrno _ => Unit

abbrev TransferProg (α : Type) := Prog callSig Empty α

def read (addr len : Nat) : TransferProg Int := @Prog.op callSig Empty (.read addr len)

def write (addr len : Nat) : TransferProg Int := @Prog.op callSig Empty (.write addr len)

def select (timout : Nat) : TransferProg Int := @Prog.op callSig Empty (.select timout)

def setErrno (errno : Nat) : TransferProg Unit := @Prog.op callSig Empty (.setErrno errno)

def tread (timout buf nbytes : Nat) : TransferProg Int :=
  (select timout).bind fun nfds =>
    if nfds ≤ 0 then
      (if nfds = 0 then setErrno etime else .ret ()).bind fun _ => .ret (-1)
    else read buf nbytes

/-- One turn of the loops: `nleft` and the pointer, or the result. -/
def transferTurn (call : Nat → Nat → TransferProg Int) (n : Nat) :
    Nat × Nat → TransferProg ((Nat × Nat) ⊕ Int)
  | (nleft, ptr) =>
    if nleft > 0 then
      (call ptr nleft).bind fun count =>
        .ret (if count < 0 then .inr (if nleft = n then -1 else amountWritten n nleft)
          else if count = 0 then .inr (amountWritten n nleft)
          else .inl (toSize (nleft - count), ptr + count.toNat))
    else .ret (.inr (amountWritten n nleft))

def transfer (call : Nat → Nat → TransferProg Int) (ptr n : Nat) : TransferProg Int :=
  Prog.iterate (transferTurn call n) (n, ptr)

def readn (ptr n : Nat) : TransferProg Int := transfer read ptr n

def writen (ptr n : Nat) : TransferProg Int := transfer write ptr n

def treadn (timout buf nbytes : Nat) : TransferProg Int := transfer (tread timout) buf nbytes

/-- What a call is to return: a number of bytes, but not more than it is asked for, or an
error. -/
inductive Outcome where
  | count (bytes : Nat)
  | failed (errno : Nat)

def ssizeMax : Nat := 2 ^ 63 - 1

def Outcome.bytes (len : Nat) : Outcome → Nat
  | .count bytes => min bytes (min len ssizeMax)
  | .failed _ => 0

def Outcome.answer (len : Nat) : Outcome → Int
  | .count bytes => (Outcome.count bytes).bytes len
  | .failed _ => -1

def Outcome.isError : Outcome → Bool
  | .count _ => false
  | .failed _ => true

theorem Outcome.bytes_le (outcome : Outcome) (len : Nat) : outcome.bytes len ≤ len := by
  cases outcome with
  | count bytes => exact Nat.le_trans (Nat.min_le_right _ _) (Nat.min_le_left _ _)
  | failed errno => exact Nat.zero_le _

structure World where
  mem : Nat → Byte
  /-- The stream that is read. -/
  input : Nat → Byte
  /-- How many bytes of the stream have been read. -/
  taken : Nat
  /-- The bytes that have been written. -/
  sent : Bytes
  /-- What the calls of `read` and `write` return. -/
  script : Nat → Outcome
  calls : Nat
  /-- What the calls of `select` return. -/
  ready : Nat → Int
  selects : Nat
  errno : Nat

def World.errnoAfter (world : World) : Outcome → Nat
  | .count _ => world.errno
  | .failed errno => errno

def kernel : Machine callSig World
  | .read addr len, world =>
    let outcome := world.script world.calls
    (outcome.answer len, { world with
      mem := fill world.mem addr (bytesAt world.input world.taken (outcome.bytes len))
      taken := world.taken + outcome.bytes len
      calls := world.calls + 1
      errno := world.errnoAfter outcome })
  | .write addr len, world =>
    let outcome := world.script world.calls
    (outcome.answer len, { world with
      sent := world.sent ++ bytesAt world.mem addr (outcome.bytes len)
      calls := world.calls + 1
      errno := world.errnoAfter outcome })
  | .select _, world => (world.ready world.selects, { world with selects := world.selects + 1 })
  | .setErrno errno, world => ((), { world with errno })

/-! ## What a script says -/

/-- The number of bytes to move, and what the calls are to return. -/
structure Plan where
  n : Nat
  outcomes : Nat → Outcome

namespace Plan

variable {plan : Plan} {m : Nat}

/-- How many bytes have been moved after some calls. -/
def moved (plan : Plan) : Nat → Nat
  | 0 => 0
  | i + 1 => plan.moved i + (plan.outcomes i).bytes (plan.n - plan.moved i)

def left (plan : Plan) (i : Nat) : Nat := plan.n - plan.moved i

def bytes (plan : Plan) (i : Nat) : Nat := (plan.outcomes i).bytes (plan.left i)

def answer (plan : Plan) (i : Nat) : Int := (plan.outcomes i).answer (plan.left i)

/-- The first calls move bytes, and the next one does not: nothing is left to move, or the
call returns 0 or an error. -/
def Stops (plan : Plan) (m : Nat) : Prop := (∀ i < m, 0 < plan.bytes i) ∧ plan.bytes m = 0

/-- There are bytes to move, and the first call fails. -/
def fails (plan : Plan) : Bool := decide (0 < plan.n) && (plan.outcomes 0).isError

/-- The result when the loop stops after so many calls that moved bytes. -/
def returned (plan : Plan) (m : Nat) : Int :=
  if plan.fails then -1 else wrap 64 (plan.moved m)

section

variable (plan : Plan) (i : Nat)

theorem moved_succ : plan.moved (i + 1) = plan.moved i + plan.bytes i := rfl

theorem bytes_le : plan.bytes i ≤ plan.left i :=
  (plan.outcomes i).bytes_le _

theorem answer_cases :
    ((plan.outcomes i).isError = false ∧ plan.answer i = plan.bytes i) ∨
      ((plan.outcomes i).isError = true ∧ plan.answer i = -1 ∧ plan.bytes i = 0) := by
  rw [answer, bytes]
  cases plan.outcomes i with
  | count bytes => exact .inl ⟨rfl, rfl⟩
  | failed errno => exact .inr ⟨rfl, rfl, rfl⟩

theorem moved_le : plan.moved i ≤ plan.n := by
  induction i with
  | zero => exact Nat.zero_le _
  | succ i ih =>
    have hle := plan.bytes_le i
    rw [left] at hle
    rw [moved_succ]
    omega

theorem amountWritten_left : amountWritten plan.n (plan.left i) = wrap 64 (plan.moved i) := by
  rw [amountWritten, left, Nat.cast_sub (plan.moved_le i), Int.sub_sub_self]

end

theorem Stops.unique (hstops : plan.Stops m) {m' : Nat} (hstops' : plan.Stops m') : m = m' := by
  rcases Nat.lt_trichotomy m m' with hlt | heq | hlt
  · exact absurd hstops.2 (Nat.ne_of_gt (hstops'.1 m hlt))
  · exact heq
  · exact absurd hstops'.2 (Nat.ne_of_gt (hstops.1 m' hlt))

theorem bytes_of_count (hn : plan.n < 2 ^ 63) {count : Nat}
    (hcount : plan.outcomes m = .count count) : plan.bytes m = min count (plan.left m) := by
  have hle : plan.left m ≤ plan.n := Nat.sub_le _ _
  rw [bytes, hcount, Outcome.bytes, ssizeMax]
  omega

section Stopping

variable (hall : ∀ i < m, 0 < plan.bytes i)
include hall

theorem moved_pos (hm : 0 < m) : 0 < plan.moved m := by
  obtain ⟨last, rfl⟩ := Nat.exists_eq_succ_of_ne_zero (Nat.ne_of_gt hm)
  exact Nat.add_pos_right _ (hall last (Nat.lt_succ_self last))

theorem returned_of_first (hfirst : m = 0 → plan.n = 0 ∨ (plan.outcomes 0).isError = false) :
    plan.returned m = amountWritten plan.n (plan.left m) := by
  have hfails : plan.fails = false := by
    rw [fails]
    rcases plan.answer_cases 0 with ⟨herror, -⟩ | ⟨herror, -, hnone⟩
    · rw [herror, Bool.and_false]
    · rcases hfirst (Nat.eq_zero_of_not_pos fun hm => Nat.ne_of_gt (hall 0 hm) hnone) with hn | hok
      · rw [hn]
        rfl
      · rw [hok, Bool.and_false]
  rw [returned, hfails, if_neg Bool.false_ne_true, amountWritten_left]

theorem returned_of_stops (hzero : plan.bytes m = 0) (hleft : 0 < plan.left m) :
    plan.returned m = if plan.answer m < 0 ∧ plan.left m = plan.n then -1
      else amountWritten plan.n (plan.left m) := by
  rcases Nat.eq_zero_or_pos m with rfl | hm
  · rcases plan.answer_cases 0 with ⟨herror, hanswer⟩ | ⟨herror, hanswer, -⟩
    · rw [returned_of_first hall fun _ => .inr herror, if_neg (by omega)]
    · have hn : decide (0 < plan.n) = true := decide_eq_true hleft
      rw [returned, fails, hn, herror, hanswer, if_pos (by rfl), if_pos ⟨by decide, rfl⟩]
  · have hpos := moved_pos hall hm
    rw [returned_of_first hall (by omega), if_neg]
    rw [left] at hleft ⊢
    omega

theorem stops_of_left (hleft : plan.left m = 0) :
    plan.Stops m ∧ plan.returned m = amountWritten plan.n (plan.left m) := by
  have hbytes := plan.bytes_le m
  refine ⟨⟨hall, by omega⟩, returned_of_first hall ?_⟩
  rintro rfl
  exact .inl hleft

theorem stops_of_failed (hleft : 0 < plan.left m) {errno : Nat}
    (hfailed : plan.outcomes m = .failed errno) :
    plan.Stops m ∧ plan.returned m =
      if plan.left m = plan.n then -1 else amountWritten plan.n (plan.left m) := by
  have hbytes : plan.bytes m = 0 := by rw [bytes, hfailed, Outcome.bytes]
  have hanswer : plan.answer m < 0 := by
    rw [answer, hfailed, Outcome.answer]
    decide
  exact ⟨⟨hall, hbytes⟩, by simp only [returned_of_stops hall hbytes hleft, hanswer, true_and]⟩

theorem stops_of_none (hleft : 0 < plan.left m) (hnone : plan.outcomes m = .count 0) :
    plan.Stops m ∧ plan.returned m = amountWritten plan.n (plan.left m) := by
  have hbytes : plan.bytes m = 0 := by rw [bytes, hnone, Outcome.bytes, Nat.zero_min]
  have hanswer : plan.answer m = plan.bytes m := by rw [answer, bytes, hnone, Outcome.answer]
  refine ⟨⟨hall, hbytes⟩, ?_⟩
  rw [returned_of_stops hall hbytes hleft, if_neg (by omega)]

end Stopping

end Plan

variable {world : World}

section Loop

variable {plan : Plan} {call : Nat → Nat → TransferProg Int} {ptr : Nat}
  {before done : Nat → World → Prop}

/-- The call follows the script: it returns what the script says, and moves so many bytes. -/
def Follows (plan : Plan) (before done : Nat → World → Prop)
    (call : Nat → Nat → TransferProg Int) (ptr : Nat) : Prop :=
  ∀ i world, before i world → done (plan.moved i) world →
    Wp (exactly kernel) (fun _ => False) (fun result after => result = .ok (plan.answer i) ∧
      done (plan.moved (i + 1)) after ∧ (0 < plan.bytes i → before (i + 1) after))
    (call (ptr + plan.moved i) (plan.left i)) world

/-- A program returns what the script says, and so many bytes have been moved. -/
def Completes (plan : Plan) (done : Nat → World → Prop) (program : TransferProg Int)
    (world : World) : Prop :=
  ∃ m final, plan.Stops m ∧ done (plan.moved m) final ∧
    Runs kernel program world (.ok (plan.returned m)) final

theorem wp_transferTurn (hn : plan.n < 2 ^ 64) (hcall : Follows plan before done call ptr) {i : Nat}
    (hbefore : before i world) (hdone : done (plan.moved i) world)
    (hall : ∀ j < i, 0 < plan.bytes j) :
    Wp (exactly kernel) (fun _ => False) (fun result final => ∃ m, plan.Stops m ∧
        done (plan.moved m) final ∧ result = .ok (plan.returned m))
      (.loop (transferTurn call plan.n) (plan.left i, ptr + plan.moved i) .ret) world := by
  induction hlength : plan.left i using Nat.strongRecOn generalizing i world with
  | ind length ih =>
    subst hlength
    refine Wp.iteration trivial ?_
    have hbytes := plan.bytes_le i
    rw [transferTurn]
    rcases Nat.eq_zero_or_pos (plan.left i) with hnone | hleft
    · rw [if_neg (by omega)]
      obtain ⟨hstops, hreturned⟩ := Plan.stops_of_left hall hnone
      exact .ret (.ret ⟨i, hstops, hdone, by rw [hreturned]⟩)
    rw [if_pos hleft]
    refine Wp.bind (hcall i world hbefore hdone) ?_ fun _ _ hmiddle => by cases hmiddle.1
    rintro _ after ⟨hvalue, hmoved, hmore⟩
    cases hvalue
    refine .ret ?_
    rcases Nat.eq_zero_or_pos (plan.bytes i) with hzero | hpos
    · have hreturned := Plan.returned_of_stops hall hzero hleft
      have hanswer := plan.answer_cases i
      rw [Plan.moved_succ, hzero] at hmoved
      have hend : (if plan.answer i < 0 then
          .inr (if plan.left i = plan.n then -1 else amountWritten plan.n (plan.left i))
          else if plan.answer i = 0 then .inr (amountWritten plan.n (plan.left i))
          else .inl (toSize (plan.left i - plan.answer i),
            ptr + plan.moved i + (plan.answer i).toNat)) =
          (.inr (plan.returned i) : (Nat × Nat) ⊕ Int) := by
        rw [hreturned, ite_and]
        split
        · rfl
        · rw [if_pos (by omega)]
      rw [hend]
      exact .ret ⟨i, ⟨hall, hzero⟩, hmoved, rfl⟩
    · have hnext : plan.left (i + 1) = plan.left i - plan.bytes i := Nat.sub_add_eq ..
      have hnleft : toSize ((plan.left i : Int) - plan.bytes i) = plan.left (i + 1) := by
        have hle : plan.left i ≤ plan.n := Nat.sub_le _ _
        rw [hnext, ← Nat.cast_sub hbytes]
        exact toSize_natCast (by omega)
      have hanswer : plan.answer i = plan.bytes i := by
        have hcases := plan.answer_cases i
        omega
      rw [hanswer, if_neg (by omega), if_neg (by omega), hnleft, Int.toNat_natCast, Nat.add_assoc]
      exact ih _ (by omega) (hmore hpos) hmoved (Nat.forall_lt_succ_right.mpr ⟨hall, hpos⟩) rfl

theorem transfer_completes (hn : plan.n < 2 ^ 64) (hcall : Follows plan before done call ptr)
    {world : World} (hbefore : before 0 world) (hdone : done 0 world) :
    Completes plan done (transfer call ptr plan.n) world := by
  obtain ⟨_, final, hruns, m, hstops, hfinal, rfl⟩ :=
    (wp_transferTurn hn hcall hbefore hdone fun _ hlt => absurd hlt (Nat.not_lt_zero _)).runs
  exact ⟨m, final, hstops, hfinal, hruns⟩

end Loop

/-! ## Reading and writing -/

theorem fill_append (mem : Nat → Byte) (ptr : Nat) (first second : Bytes) :
    fill (fill mem ptr first) (ptr + first.length) second = fill mem ptr (first ++ second) := by
  funext index
  simp only [fill, List.getD_eq_getElem?_getD]
  by_cases hbehind : ptr + first.length ≤ index
  · have hpast : first[index - ptr]? = none := List.getElem?_eq_none (by omega)
    rw [if_pos hbehind, if_pos (by omega), if_pos (by omega), hpast, Nat.sub_add_eq,
      List.getElem?_append_right (by omega), Option.getD_none]
  · rw [if_neg hbehind]
    split
    · rw [List.getElem?_append_left (by omega)]
    · rfl

theorem length_bytesAt (mem : Nat → Byte) (start count : Nat) :
    (bytesAt mem start count).length = count := by
  rw [bytesAt, List.length_map, List.length_range']

/-- The next bytes of the stream are in the memory, and nothing else has changed there. -/
structure Received (world : World) (ptr k : Nat) (now : World) : Prop where
  mem : now.mem = fill world.mem ptr (bytesAt world.input world.taken k)
  taken : now.taken = world.taken + k

/-- Some bytes of the memory have been sent, and the memory has not changed. -/
structure Delivered (world : World) (ptr k : Nat) (now : World) : Prop where
  mem : now.mem = world.mem
  sent : now.sent = world.sent ++ bytesAt world.mem ptr k

/-- Some calls of `read` or `write` have been made. -/
structure Called (world : World) (i : Nat) (now : World) : Prop where
  input : now.input = world.input
  script : now.script = world.script
  calls : now.calls = world.calls + i

/-- What the calls of `read` or `write` are to return. -/
def World.plan (world : World) (n : Nat) : Plan := ⟨n, fun i => world.script (world.calls + i)⟩

/-- What the calls of `tread` are to return. -/
def World.timed (world : World) (n : Nat) : Plan where
  n := n
  outcomes i :=
    if world.ready (world.selects + i) ≤ 0 then .failed etime else world.script (world.calls + i)

section Calls

variable {world now : World} {ptr k i : Nat}

theorem Received.read (hreceived : Received world ptr k now) (hcalled : Called world i now)
    {outcome : Outcome} (houtcome : world.script (world.calls + i) = outcome) (len : Nat) :
    (kernel (.read (ptr + k) len) now).1 = outcome.answer len ∧
      Received world ptr (k + outcome.bytes len) (kernel (.read (ptr + k) len) now).2 ∧
      Called world (i + 1) (kernel (.read (ptr + k) len) now).2 := by
  obtain ⟨hmem, htaken⟩ := hreceived
  obtain ⟨hinput, hscript, hcalls⟩ := hcalled
  dsimp only [kernel]
  rw [hscript, hcalls, houtcome]
  refine ⟨rfl, ⟨?_, ?_⟩, hinput, rfl, Nat.add_assoc ..⟩
  · have hfill := fill_append world.mem ptr (bytesAt world.input world.taken k)
      (bytesAt world.input (world.taken + k) (outcome.bytes len))
    rw [length_bytesAt, bytesAt_append] at hfill
    rw [← hfill, ← hmem, hinput, htaken]
  · rw [htaken, Nat.add_assoc]

theorem Delivered.write (hdelivered : Delivered world ptr k now) (hcalled : Called world i now)
    {outcome : Outcome} (houtcome : world.script (world.calls + i) = outcome) (len : Nat) :
    (kernel (.write (ptr + k) len) now).1 = outcome.answer len ∧
      Delivered world ptr (k + outcome.bytes len) (kernel (.write (ptr + k) len) now).2 ∧
      Called world (i + 1) (kernel (.write (ptr + k) len) now).2 := by
  obtain ⟨hmem, hsent⟩ := hdelivered
  obtain ⟨hinput, hscript, hcalls⟩ := hcalled
  dsimp only [kernel]
  rw [hscript, hcalls, houtcome, hsent, hmem]
  refine ⟨rfl, ⟨rfl, ?_⟩, hinput, rfl, Nat.add_assoc ..⟩
  rw [List.append_assoc, bytesAt_append]

theorem received_start (world : World) (ptr : Nat) : Received world ptr 0 world := by
  refine ⟨?_, rfl⟩
  funext index
  simp [fill, bytesAt]

theorem called_start (world : World) : Called world 0 world := ⟨rfl, rfl, rfl⟩

end Calls

section Functions

variable {n : Nat} (hn : n < 2 ^ 64) (ptr : Nat) (world : World)
include hn

theorem readn_completes : Completes (world.plan n) (Received world ptr) (readn ptr n) world := by
  refine @transfer_completes (world.plan n) read ptr (Called world) _ hn ?_ _
    (called_start world) (received_start world ptr)
  intro i now hcalled hreceived
  obtain ⟨hanswer, hnext, hcalls⟩ := hreceived.read hcalled rfl ((world.plan n).left i)
  exact Wp.gives (exactly_gives kernel (.read _ _) now)
    (.ret ⟨congrArg _ hanswer, hnext, fun _ => hcalls⟩)

theorem writen_completes : Completes (world.plan n) (Delivered world ptr) (writen ptr n) world := by
  refine @transfer_completes (world.plan n) write ptr (Called world) _ hn ?_ _
    (called_start world) ⟨rfl, (List.append_nil _).symm⟩
  intro i now hcalled hdelivered
  obtain ⟨hanswer, hnext, hcalls⟩ := hdelivered.write hcalled rfl ((world.plan n).left i)
  exact Wp.gives (exactly_gives kernel (.write _ _) now)
    (.ret ⟨congrArg _ hanswer, hnext, fun _ => hcalls⟩)

theorem treadn_completes (timout : Nat) :
    Completes (world.timed n) (Received world ptr) (treadn timout ptr n) world := by
  refine @transfer_completes (world.timed n) (tread timout) ptr
    (fun i now => Called world i now ∧ now.ready = world.ready ∧ now.selects = world.selects + i)
    _ hn ?_ _ ⟨called_start world, rfl, rfl⟩ (received_start world ptr)
  rintro i now ⟨hcalled, hready, hselects⟩ hreceived
  refine Wp.gives (exactly_gives kernel (.select timout) now) ?_
  change Wp _ _ _ (if now.ready now.selects ≤ 0 then _ else _)
    { now with selects := now.selects + 1 }
  have hsame : now.ready now.selects = world.ready (world.selects + i) := by rw [hready, hselects]
  by_cases hnone : now.ready now.selects ≤ 0
  · have houtcome : (world.timed n).outcomes i = .failed etime := if_pos (hsame ▸ hnone)
    have hanswer : (world.timed n).answer i = -1 := by rw [Plan.answer, houtcome, Outcome.answer]
    have hbytes : (world.timed n).bytes i = 0 := by rw [Plan.bytes, houtcome, Outcome.bytes]
    rw [if_pos hnone, Plan.moved_succ, hanswer, hbytes]
    split
    · exact Wp.gives (exactly_gives kernel (.setErrno etime) _)
        (.ret ⟨rfl, { hreceived with }, fun hpos => absurd hpos (Nat.lt_irrefl 0)⟩)
    · exact .ret ⟨rfl, { hreceived with }, fun hpos => absurd hpos (Nat.lt_irrefl 0)⟩
  · have houtcome : (world.timed n).outcomes i = world.script (world.calls + i) :=
      if_neg (hsame ▸ hnone)
    have hread : Received world ptr ((world.timed n).moved i)
      { now with selects := now.selects + 1 } := { hreceived with }
    obtain ⟨hanswer, hnext, hcalls⟩ := hread.read { hcalled with } houtcome.symm
      ((world.timed n).left i)
    rw [if_neg hnone]
    exact Wp.gives (exactly_gives kernel (.read _ _) _) (.ret ⟨congrArg _ hanswer, hnext,
      fun _ => ⟨hcalls, hready, congrArg (· + 1) hselects⟩⟩)

end Functions

/-! ## Lists of results

The other modules give `writen` and `treadn` what the calls return as a list.  The programs
do the same with a script that says what the list says.
-/

/-- From the `i`th call on, the calls are to return what a list says. -/
def Plan.Lists {Result : Type} (plan : Plan) (outcome : Option Result → Outcome) (i : Nat)
    (results : List Result) : Prop :=
  ∀ j, plan.outcomes (i + j) = outcome results[j]?

section Lists

variable {plan : Plan} {mem : Nat → Byte} {i : Nat} {Result : Type}
  {outcome : Option Result → Outcome} {result : Result} {results : List Result}

theorem Plan.Lists.first (hlists : plan.Lists outcome i results) :
    plan.outcomes i = outcome results[0]? :=
  hlists 0

theorem Plan.Lists.rest (hlists : plan.Lists outcome i (result :: results)) :
    plan.Lists outcome (i + 1) results := by
  intro j
  rw [Nat.add_assoc, Nat.add_comm 1 j]
  exact hlists (j + 1)

def writeOutcome : Option Write → Outcome
  | some (.wrote count) => .count count
  | some (.failed errno) => .failed errno
  | none => .failed 0

/-- After some calls the loop over the list goes on as the script says. -/
def WritenStops (plan : Plan) (mem : Nat → Byte) (i : Nat) (result : Writen) : Prop :=
  ∃ m, plan.Stops m ∧ plan.moved i ≤ plan.moved m ∧ result.value = plan.returned m ∧
    result.sent = bytesAt mem (plan.moved i) (plan.moved m - plan.moved i)

theorem writenStops_now (hstops : plan.Stops i) {result : Writen}
    (hvalue : result.value = plan.returned i) (hsent : result.sent = []) :
    WritenStops plan mem i result :=
  ⟨i, hstops, Nat.le_refl _, hvalue, by rw [hsent, Nat.sub_self]; rfl⟩

theorem writenLoop_stops (hn : plan.n < 2 ^ 63) {results : List Write}
    (hall : ∀ j < i, 0 < plan.bytes j) (hresults : plan.Lists writeOutcome i results) :
    WritenStops plan mem i (writenLoop mem plan.n (plan.left i) results) := by
  induction results generalizing i with
  | nil =>
    rw [writenLoop]
    split
    · rename_i hnone
      obtain ⟨hstops, hreturned⟩ := Plan.stops_of_left hall hnone
      exact writenStops_now hstops (by rw [hreturned, hnone]) rfl
    · rename_i hleft
      obtain ⟨hstops, hreturned⟩ := Plan.stops_of_failed hall (by omega) hresults.first
      exact writenStops_now hstops hreturned.symm rfl
  | cons result results ih =>
    have hfirst := hresults.first
    unfold writenLoop
    split
    · rename_i hnone
      obtain ⟨hstops, hreturned⟩ := Plan.stops_of_left hall hnone
      exact writenStops_now hstops (by rw [hreturned, hnone]) rfl
    · rename_i hleft
      cases result with
      | failed errno =>
        obtain ⟨hstops, hreturned⟩ := Plan.stops_of_failed hall (by omega) hfirst
        exact writenStops_now hstops hreturned.symm rfl
      | wrote count =>
        cases count with
        | zero =>
          obtain ⟨hstops, hreturned⟩ := Plan.stops_of_none hall (by omega) hfirst
          exact writenStops_now hstops hreturned.symm rfl
        | succ count =>
          have hbytes := Plan.bytes_of_count hn hfirst
          have hle := plan.moved_le i
          have hpos : 0 < plan.bytes i := by omega
          obtain ⟨m, hstops, hmore, hvalue, hsent⟩ :=
            ih (Nat.forall_lt_succ_right.mpr ⟨hall, hpos⟩) hresults.rest
          have hnext : plan.left (i + 1) = plan.left i - plan.bytes i := Nat.sub_add_eq ..
          rw [Plan.moved_succ] at hmore hsent
          rw [hnext] at hvalue hsent
          dsimp only
          rw [← hbytes]
          refine ⟨m, hstops, by omega, hvalue, ?_⟩
          have hat : plan.n - plan.left i = plan.moved i := Nat.sub_sub_self hle
          have hcount : plan.bytes i + (plan.moved m - (plan.moved i + plan.bytes i)) =
            plan.moved m - plan.moved i := by omega
          dsimp only
          rw [hsent, hat, bytesAt_append, hcount]

theorem bytesAt_shift (mem : Nat → Byte) (ptr count : Nat) :
    bytesAt (fun index => mem (ptr + index)) 0 count = bytesAt mem ptr count := by
  rw [bytesAt, bytesAt, ← Nat.add_zero ptr, ← List.map_add_range', List.map_map]
  rfl

/-- With a script that says what the list says, `writen` returns and sends the same. -/
theorem writen_runs {n : Nat} (hn : n < 2 ^ 63) (ptr : Nat) {results : List Write}
    (hresults : (world.plan n).Lists writeOutcome 0 results) :
    ∃ final, Runs kernel (writen ptr n) world
        (.ok (Printer.writen (fun index => world.mem (ptr + index)) n results).value) final ∧
      final.sent = world.sent ++
        (Printer.writen (fun index => world.mem (ptr + index)) n results).sent := by
  obtain ⟨m, final, hstops, hdelivered, hruns⟩ :=
    writen_completes (Nat.lt_trans hn (by decide)) ptr world
  obtain ⟨m', hstops', -, hvalue, hsent⟩ :=
    @writenLoop_stops (world.plan n) (fun index => world.mem (ptr + index)) 0 hn results
      (by simp) hresults
  obtain rfl := hstops.unique hstops'
  rw [← hvalue] at hruns
  rw [Plan.moved, Nat.sub_zero, bytesAt_shift] at hsent
  exact ⟨final, hruns, hdelivered.sent.trans (congrArg _ hsent.symm)⟩

def readOutcome : Option Tread → Outcome
  | some (.data bytes) => .count bytes.length
  | some (.failed errno) => .failed errno
  | none => .failed etime

/-- What `treadn` returns and what it has stored. -/
def readResult (nbytes : Nat) : Except Nat Bytes → Int × Bytes
  | .error _ => (-1, [])
  | .ok bytes => ((bytes.take nbytes).length, bytes.take nbytes)

/-- A result is what the script says. -/
def TreadnStops (plan : Plan) (result : Int × Bytes) : Prop :=
  ∃ m, plan.Stops m ∧ plan.returned m = result.1 ∧ plan.moved m = result.2.length

section

variable (hn : plan.n < 2 ^ 63)
include hn

theorem treadnStops_now (hstops : plan.Stops i)
    (hreturned : plan.returned i = amountWritten plan.n (plan.left i)) {got : Bytes}
    (hmoved : plan.moved i = (got.take plan.n).length) :
    TreadnStops plan (readResult plan.n (.ok got)) := by
  have hle := plan.moved_le i
  rw [Plan.amountWritten_left, wrap_of_lt (by omega) (by omega), hmoved] at hreturned
  exact ⟨i, hstops, hreturned, hmoved⟩

variable {got : Bytes} (hmoved : plan.moved i = got.length) (hlt : got.length < plan.n)
  (hall : ∀ j < i, 0 < plan.bytes j)
include hmoved hlt hall

theorem treadn_failed {errno : Nat} (hfailed : plan.outcomes i = .failed errno) :
    TreadnStops plan (readResult plan.n (if got = [] then .error errno else .ok got)) := by
  have hleft : plan.left i = plan.n - got.length := by rw [Plan.left, hmoved]
  obtain ⟨hstops, hreturned⟩ := Plan.stops_of_failed hall (by omega) hfailed
  split
  · rename_i hnil
    subst hnil
    exact ⟨i, hstops, hreturned.trans (if_pos hleft), hmoved⟩
  · rename_i hne
    have hpos := List.length_pos_iff.mpr hne
    rw [if_neg (by omega)] at hreturned
    exact treadnStops_now hn hstops hreturned
      (by rw [hmoved, List.take_of_length_le (Nat.le_of_lt hlt)])

theorem treadn_stops {reads : List Tread} (hreads : plan.Lists readOutcome i reads) :
    TreadnStops plan (readResult plan.n (Printer.treadn plan.n got reads)) := by
  induction reads generalizing i got with
  | nil => exact treadn_failed hn hmoved hlt hall hreads.first
  | cons read rest ih =>
    have hleft : plan.left i = plan.n - got.length := by rw [Plan.left, hmoved]
    cases read with
    | failed errno => exact treadn_failed hn hmoved hlt hall hreads.first
    | data bytes =>
      cases bytes with
      | nil =>
        obtain ⟨hstops, hreturned⟩ := Plan.stops_of_none hall (by omega) hreads.first
        exact treadnStops_now hn hstops hreturned
          (by rw [hmoved, List.take_of_length_le (Nat.le_of_lt hlt)])
      | cons byte bytes =>
        have hbytes := Plan.bytes_of_count hn hreads.first
        have hlength : (got ++ byte :: bytes).length = got.length + (bytes.length + 1) :=
          List.length_append
        rw [List.length_cons] at hbytes
        have hall' := Nat.forall_lt_succ_right.mpr ⟨hall, show 0 < plan.bytes i by omega⟩
        have hnext := plan.moved_succ i
        rw [Printer.treadn]
        split
        · exact ih (by omega) ‹_› hall' hreads.rest
        · obtain ⟨hstops, hreturned⟩ := Plan.stops_of_left hall' (by rw [Plan.left]; omega)
          refine treadnStops_now hn hstops hreturned ?_
          rw [List.length_take]
          omega

end

theorem bytesAt_of_prefix {start : Nat} {first stream : Bytes}
    (hstream : bytesAt mem start stream.length = stream) (hfirst : first <+: stream) :
    bytesAt mem start first.length = first := by
  obtain ⟨rest, rfl⟩ := hfirst
  rw [List.length_append, ← bytesAt_append] at hstream
  exact (List.append_inj hstream (length_bytesAt ..)).1

theorem readResult_delivered (n : Nat) (reads : List Tread) :
    (readResult n (Printer.treadn n [] reads)).2 <+: delivered reads := by
  cases hread : Printer.treadn n [] reads with
  | error errno => exact List.nil_prefix
  | ok bytes => exact (List.take_prefix n bytes).trans (treadn_delivered hread)

/-- With a script and a stream that say what the list says, `treadn` returns and stores the
same. -/
theorem treadn_runs {n : Nat} (hn : n < 2 ^ 63) (hpos : 0 < n) (ptr timout : Nat)
    {reads : List Tread} (hreads : (world.timed n).Lists readOutcome 0 reads)
    (hinput : bytesAt world.input world.taken (delivered reads).length = delivered reads) :
    ∃ final, Runs kernel (treadn timout ptr n) world
        (.ok (readResult n (Printer.treadn n [] reads)).1) final ∧
      final.mem = fill world.mem ptr (readResult n (Printer.treadn n [] reads)).2 := by
  obtain ⟨m, final, hstops, hreceived, hruns⟩ :=
    treadn_completes (Nat.lt_trans hn (by decide)) ptr world timout
  obtain ⟨m', hstops', hreturned, hmoved⟩ :=
    @treadn_stops (world.timed n) 0 hn [] rfl hpos (by simp) reads hreads
  obtain rfl := hstops.unique hstops'
  rw [hreturned] at hruns
  have hmem := hreceived.mem
  rw [hmoved, bytesAt_of_prefix hinput (readResult_delivered _ reads)] at hmem
  exact ⟨final, hruns, hmem⟩

end Lists

/-! ## Transfers without errors -/

/-- No call returns 0 or an error. -/
def World.Flows (world : World) : Prop := ∀ i, ∃ bytes, world.script i = .count (bytes + 1)

theorem moved_of_flows (hflows : world.Flows) {n m : Nat} (hstops : (world.plan n).Stops m) :
    (world.plan n).moved m = n ∧ (world.plan n).returned m = wrap 64 n := by
  have hcount (i : Nat) : ∃ bytes, (world.plan n).outcomes i = .count (bytes + 1) := hflows _
  have hall : (world.plan n).moved m = n := by
    by_contra hne
    have hle := (world.plan n).moved_le m
    have hleft : 0 < (world.plan n).left m := Nat.sub_pos_of_lt (Nat.lt_of_le_of_ne hle hne)
    obtain ⟨bytes, hbytes⟩ := hcount m
    have hzero := hstops.2
    rw [Plan.bytes, hbytes, Outcome.bytes, ssizeMax] at hzero
    omega
  obtain ⟨bytes, hbytes⟩ := hcount 0
  refine ⟨hall, ?_⟩
  rw [Plan.returned_of_first hstops.1, Plan.amountWritten_left, hall]
  exact fun _ => .inr (by rw [hbytes, Outcome.isError])

/-- The three functions move what the script lets them move, in order, and return how much it
was; what `writen` sends is what `readn` receives when no call returns 0 or an error. -/
theorem transfers_complete {n : Nat} (hn : n < 2 ^ 64) (ptr timout : Nat) (world : World) :
    Completes (world.plan n) (Received world ptr) (readn ptr n) world ∧
    Completes (world.timed n) (Received world ptr) (treadn timout ptr n) world ∧
    Completes (world.plan n) (Delivered world ptr) (writen ptr n) world ∧
    ∀ (other : World) (dest : Nat), world.Flows → other.Flows →
      ∃ bytes sent, Runs kernel (writen ptr n) world (.ok (wrap 64 n)) sent ∧
        sent.sent = world.sent ++ bytes ∧ (bytesAt other.input other.taken n = bytes →
        ∃ received, Runs kernel (readn dest n) other (.ok (wrap 64 n)) received ∧
          bytesAt received.mem dest n = bytesAt world.mem ptr n) := by
  refine ⟨readn_completes hn ptr world, treadn_completes hn ptr world timout,
    writen_completes hn ptr world, fun other dest hflows hother => ?_⟩
  obtain ⟨m, sent, hstops, hdelivered, hwrite⟩ := writen_completes hn ptr world
  obtain ⟨hmoved, hreturned⟩ := moved_of_flows hflows hstops
  rw [hmoved] at hdelivered
  rw [hreturned] at hwrite
  refine ⟨bytesAt world.mem ptr n, sent, hwrite, hdelivered.sent, fun hinput => ?_⟩
  obtain ⟨m, received, hstops, hreceived, hread⟩ := readn_completes hn dest other
  obtain ⟨hmoved, hreturned⟩ := moved_of_flows hother hstops
  rw [hmoved] at hreceived
  rw [hreturned] at hread
  have hholds := bytesAt_of_holds (holds_fill other.mem dest (bytesAt world.mem ptr n))
  rw [length_bytesAt] at hholds
  exact ⟨received, hread, by rw [hreceived.mem, hinput, hholds]⟩

/-- Calls that move as many bytes as the script lets them. -/
def flowing (most : Nat) : World where
  mem addr := UInt8.ofNat addr
  input pos := UInt8.ofNat pos
  taken := 0
  sent := []
  script _ := .count (most + 1)
  calls := 0
  ready _ := 1
  selects := 0
  errno := 0

theorem transfers_complete_single :
    (3 < 2 ^ 64 ∧ (flowing 0).Flows) ∧
    Completes ((flowing 0).plan 3) (Received (flowing 0) 8) (readn 8 3) (flowing 0) ∧
    ∃ bytes sent, Runs kernel (writen 8 3) (flowing 0) (.ok (wrap 64 3)) sent ∧
      sent.sent = (flowing 0).sent ++ bytes := by
  have hflows : (flowing 0).Flows := fun _ => ⟨0, rfl⟩
  obtain ⟨hread, -, -, hboth⟩ := transfers_complete (show 3 < 2 ^ 64 by decide) 8 1 (flowing 0)
  obtain ⟨bytes, sent, hwrite, hsent, -⟩ := hboth (flowing 0) 8 hflows hflows
  exact ⟨⟨by decide, hflows⟩, hread, bytes, sent, hwrite, hsent⟩

/-- More than the largest `ssize_t`: all bytes are read, and the result is negative. -/
theorem long_readn_negative :
    ∃ final, Runs kernel (readn 0 (2 ^ 63)) (flowing ssizeMax) (.ok (-2 ^ 63)) final ∧
      final.taken = 2 ^ 63 := by
  obtain ⟨m, final, hstops, hreceived, hread⟩ :=
    readn_completes (show 2 ^ 63 < 2 ^ 64 by decide) 0 (flowing ssizeMax)
  obtain ⟨hmoved, hreturned⟩ := moved_of_flows (fun _ => ⟨ssizeMax, rfl⟩) hstops
  have htaken := hreceived.taken
  rw [hmoved] at htaken
  rw [hreturned, show wrap 64 ((2 ^ 63 : Nat) : Int) = -2 ^ 63 by decide] at hread
  exact ⟨final, hread, htaken.trans (Nat.zero_add _)⟩

end ApueFormal.Printer.Transfer
