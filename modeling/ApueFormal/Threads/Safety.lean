import ApueFormal.Threads.Freed
import ApueFormal.Threads.Run

/-!
# Safety of the two locks

The counts of `mutex2.c` are right in every state of every run, an object is freed when
its last reference is released, and nobody waits for ever for a lock.
-/

namespace ApueFormal.Threads

open Function Program

section Statements

variable {A T : Type} [DecidableEq A]

def World.outstanding [Fintype T] (world : World A T) (fp : A) : Nat :=
  Threads.outstanding (fun t => (world.thread t).owned) (fun t => (world.thread t).inCall) fp

/-- The object is on its hash chain exactly once. -/
def World.OnChainOnce (world : World A T) (fp : A) : Prop :=
  ∃ foo nodes, world.mem.cell fp = .live foo ∧
    Chain world.mem.look (world.mem.fh (hash foo.fId)) nodes ∧ (nodes.map Prod.fst).count fp = 1

/-- The only reference is that of a `foo_alloc` that has not linked the object yet, or of a
`foo_rele` that has already unlinked it. -/
structure World.OffChain [Fintype T] (world : World A T) (fp : A) : Prop where
  last : world.outstanding fp = 1
  off : ∀ idx nodes, Chain world.mem.look (world.mem.fh idx) nodes → fp ∉ nodes.map Prod.fst
  call : ∃ t call program, (world.thread t).job = some (call, program) ∧
    (world.thread t).inCall = some fp ∧ ((∃ id, call = .fooAlloc id) ∨ call = .fooRele fp)

/-- The object has been given out to a `foo_alloc` that is about to set its count. -/
structure World.Raw [Fintype T] (world : World A T) (fp : A) : Prop where
  none : world.outstanding fp = 0
  call : ∃ t id next, (world.thread t).job = some (.fooAlloc id, .call (.setCount fp 1) next)

variable [DecidableEq T]

/-- A step of a thread, in a call or between two calls. -/
inductive Step (pkg : Package A) (world : World A T) (t : T) :
    List (Event A T) → World A T → Prop where
  | invoke {call : Call A} {world' : World A T}
      (hinvoke : world.invoke pkg t call = some world') : Step pkg world t [.invoke t call] world'
  | run {choice : Choice A} {events : List (Event A T)} {world' : World A T}
      (hrun : world.run t choice = .ok (events, world')) : Step pkg world t events world'

/-- A run without an end; the thread that takes each step is given. -/
def Endless (pkg : Package A) (worlds : Nat → World A T) (actor : Nat → T) : Prop :=
  ∀ n, ∃ events, Step pkg (worlds n) (actor n) events (worlds (n + 1))

/-- What holds in a state to which a run has led. -/
structure RefCounted [Fintype T] (pkg : Package A) (trace : List (Event A T))
    (world : World A T) : Prop where
  /-- A count is the number of references. -/
  count : ∀ fp foo, world.mem.cell fp = .live foo → foo.fCount = world.outstanding fp ∨ world.Raw fp
  live : ∀ fp, 0 < world.outstanding fp → world.mem.Live fp
  chain : ∀ fp, 0 < world.outstanding fp → world.OnChainOnce fp ∨ world.OffChain fp
  /-- An object is freed once at most. -/
  once : ∀ fp, trace.countP (Event.frees fp) ≤ 1
  /-- It is freed in the step in which its last reference is released. -/
  last : ∀ t events world', Step pkg world t events world' → ∀ fp,
    0 < events.countP (Event.frees fp) ↔ 0 < world.outstanding fp ∧ world'.outstanding fp = 0
  /-- No thread touches what is not allocated, and no walk comes to the end of a chain. -/
  safe : ∀ t choice, world.run t choice ≠ .fault
  /-- While there is a call, some call can go on. -/
  progress : ∀ t, (world.thread t).job ≠ none →
    ∃ t' choice events world', world.run t' choice = .ok (events, world')
  /-- Every call returns, or from some time on it takes no more steps. -/
  returns : ∀ worlds actor, worlds 0 = world → Endless pkg worlds actor →
    ∀ t n, ∃ m ≥ n, ((worlds m).thread t).job = none ∨ ∀ k ≥ m, actor k ≠ t

end Statements

section Proofs

theorem Making.reference {A : Type} {fp : A} {status : Status A} {inCall : Option A}
    (hmaking : Making .own fp status inCall) :
    inCall = some fp ∨ inCall = none ∧ ∃ id, status = some (.fooAlloc id, .pending) := by
  cases hmaking with
  | fresh => exact .inr ⟨rfl, _, rfl⟩
  | made => exact .inl rfl
  | failed => exact .inl rfl
  | unlinked hguard => exact .inl (hguard rfl)

theorem Making.call {A : Type} {guard : Guard} {fp : A} {status : Status A} {inCall : Option A}
    (hmaking : Making guard fp status inCall) :
    ∃ call phase, status = some (call, phase) ∧
      ((∃ id, call = .fooAlloc id) ∨ call = .fooRele fp) := by
  cases hmaking with
  | fresh | made | failed => exact ⟨_, _, rfl, .inl ⟨_, rfl⟩⟩
  | unlinked => exact ⟨_, _, rfl, .inr rfl⟩

variable {A T : Type} [DecidableEq A] [DecidableEq T] [Fintype T] {guard : Guard}
  {ok : T → Phase A → Prop} {pkg : Package A} {world : World A T} {gh : Ghost A T} {t : T} {fp : A}

namespace Sim

variable (hsim : Sim guard ok world gh)
include hsim

theorem outstanding_eq (fp : A) : world.outstanding fp = outstanding gh.owned gh.inCall fp := by
  refine Finset.sum_congr rfl fun t _ => ?_
  dsimp only
  rw [(hsim.fits t).owned, (hsim.fits t).inCall]
  rfl

theorem job_eq {call : Call A} {phase : Phase A} (hstatus : gh.status t = some (call, phase)) :
    ∃ program, (world.thread t).job = some (call, program) := by
  have hpoint := (hsim.fits t).point
  cases hjob : (world.thread t).job with
  | none =>
    rw [hjob] at hpoint
    cases hpoint with
    | idle hidle => cases hstatus.symm.trans hidle.status
  | some job =>
    rw [hjob] at hpoint
    cases hpoint with
    | busy hstatus' _ =>
      cases hstatus.symm.trans hstatus'
      exact ⟨_, rfl⟩

omit hsim in
/-- An object with a reference is in the table, or it is its last reference that a call has. -/
theorem placed (hsim : Sim .own ok world gh) (hpos : 0 < world.outstanding fp) :
    InTable gh.table fp ∨ ∃ t draft, gh.priv t = some (fp, draft) ∧ gh.inCall t = some fp := by
  rw [hsim.outstanding_eq] at hpos
  obtain ⟨t, _, ht⟩ := Finset.exists_ne_zero_of_sum_ne_zero (Nat.pos_iff_ne_zero.mp hpos)
  by_cases howned : 0 < gh.owned t fp
  · exact .inl (hsim.inv.placed.owned _ _ howned)
  · have hinCall : gh.inCall t = some fp := by
      by_contra hne
      rw [one_of_ne hne] at ht
      omega
    refine (hsim.inv.placed.inCall _ _ hinCall).imp_right fun hmine => ?_
    obtain ⟨⟨_, draft⟩, hpriv, rfl⟩ := Option.map_eq_some_iff.mp hmine
    exact ⟨t, draft, hpriv, hinCall⟩

theorem onChainOnce (hin : InTable gh.table fp) : world.OnChainOnce fp := by
  obtain ⟨idx, id, hmem⟩ := hin
  obtain ⟨next, hlook⟩ := hsim.inv.linked.get hmem
  obtain ⟨foo, hcell, heq⟩ := Mem.view_eq_some hlook
  have hid : foo.fId = id := congrArg Prod.fst heq
  obtain rfl := hsim.inv.linked.hashed _ _ _ hmem
  refine ⟨foo, gh.table (hash id), hcell, hid ▸ hsim.inv.linked.chain _, ?_⟩
  exact List.count_eq_one_of_mem (hsim.inv.linked.nodup _) (List.mem_map.mpr ⟨_, hmem, rfl⟩)

omit hsim in
theorem offChain (hsim : Sim .own ok world gh) {draft : Draft A}
    (hpriv : gh.priv t = some (fp, draft)) (hinCall : gh.inCall t = some fp) :
    world.OffChain fp := by
  have hmine := mine_eq_some hpriv
  refine ⟨?_, fun idx nodes hchain hmem => ?_, ?_⟩
  · rw [hsim.outstanding_eq, hsim.inv.private_outstanding hmine, hinCall, one_self]
  · cases hchain.unique (hsim.inv.linked.chain idx)
    obtain ⟨node, hnode, rfl⟩ := List.mem_map.mp hmem
    exact hsim.inv.placed.outside _ _ hmine ⟨idx, node.2, hnode⟩
  · have hmaking := hsim.inv.making _ _ _ hpriv
    obtain ⟨call, phase, hstatus, hcall⟩ := hmaking.call
    obtain ⟨program, hjob⟩ := hsim.job_eq hstatus
    exact ⟨t, call, program, hjob, (hsim.fits t).inCall.trans hinCall, hcall⟩

theorem count_eq (hin : InTable gh.table fp) :
    world.mem.count fp = some (world.outstanding fp : Int) := by
  rw [hsim.outstanding_eq]
  exact hsim.inv.counted fp hin

end Sim

/-- Without a reference, `foo_alloc` calls `malloc` or sets the count. -/
inductive Tracks (call : Call A) : FooProg A (Option A) → Option A → Prop where
  | ret {value inCall : Option A} : Tracks call (.ret value) inCall
  | op {op : Op A} {next : op.Answer → FooProg A (Option A)} {inCall : Option A}
      (hop : inCall = none → op = .malloc ∨ ∃ fp, op = .setCount fp 1)
      (hnext : ∀ answer, Tracks call (next answer) (call.has op inCall)) :
      Tracks call (.call op next) inCall

omit [DecidableEq A] in
theorem fooAlloc_tracks (id : Int) : Tracks (.fooAlloc id) (fooAlloc (A := A) id) none := by
  refine .op (fun _ => .inl rfl) fun ptr => ?_
  cases ptr with
  | none => exact .ret
  | some fp =>
    refine .op (fun _ => .inr ⟨fp, rfl⟩) fun _ => .op nofun fun _ => .op nofun fun inited => ?_
    cases inited with
    | true =>
      exact .op nofun fun _ => .op nofun fun _ => .op nofun fun _ => .op nofun fun _ =>
        .op nofun fun _ => .op nofun fun _ => .op nofun fun _ => .ret
    | false => exact .op nofun fun _ => .ret

variable {id : Int} {program : FooProg A (Option A)}

omit [Fintype T] in
theorem Trace.tracks {trace : List (Event A T)} (htrace : Trace mutex2 trace world)
    (hjob : (world.thread t).job = some (.fooAlloc id, program)) :
    Tracks (.fooAlloc id) program (world.thread t).inCall := by
  induction htrace generalizing program with
  | start => cases hjob
  | @invoke trace world world' t' call _ hinvoke ih =>
    obtain ⟨_, _, rfl⟩ := World.invoke_eq_some.mp hinvoke
    rcases eq_or_ne t t' with rfl | ht
    · simp only [World.withThread, update_self] at hjob ⊢
      cases hjob
      exact fooAlloc_tracks id
    · simp only [World.withThread, update_of_ne ht] at hjob ⊢
      exact ih hjob
  | @run trace events world world' t' choice _ hrun ih =>
    rcases eq_or_ne t t' with rfl | ht
    · cases World.run_ok hrun with
      | result =>
        simp only [World.withThread, update_self] at hjob
        cases hjob
      | op hold =>
        simp only [World.after, World.withThread, update_self] at hjob ⊢
        cases hjob
        cases ih hold with
        | op _ hnext => exact hnext _
      | loop hold =>
        simp only [World.withThread, update_self] at hjob
        cases hjob
        cases ih hold
    · rw [World.run_thread hrun ht] at hjob ⊢
      exact ih hjob

theorem Move.priv_of_alloc {okay : Phase A → Prop} {here : Local A} {value : Int}
    {accepted : (Op.setCount fp value).Answer → Local A → Prop} {phase : Phase A}
    (hmove : Move guard okay here (.setCount fp value) accepted)
    (hstatus : here.status = some (.fooAlloc id, phase)) :
    ∃ draft, here.priv = some (fp, draft) := by
  cases hmove with
  | draftCount _ hpriv => exact ⟨_, hpriv⟩
  | hold _ hstatus' | found _ _ hstatus' | release _ hstatus' | releaseLast _ _ hstatus' =>
    cases hstatus.symm.trans hstatus'

namespace Sim

variable {trace : List (Event A T)} (hsim : Sim .own ok world gh)
  (htrace : Trace mutex2 trace world)
include hsim htrace

theorem raw {draft : Draft A} (hpriv : gh.priv t = some (fp, draft)) (hinCall : gh.inCall t = none)
    (hstatus : gh.status t = some (.fooAlloc id, .pending)) : world.Raw fp := by
  refine ⟨?_, t, id, ?_⟩
  · rw [hsim.outstanding_eq, hsim.inv.private_outstanding (mine_eq_some hpriv), hinCall, one_none]
  · obtain ⟨program, hjob⟩ := hsim.job_eq hstatus
    have htracks := htrace.tracks hjob
    have hnone : (world.thread t).inCall = none := (hsim.fits t).inCall.trans hinCall
    cases htracks with
    | ret => cases hstatus.symm.trans (hsim.finish hjob).1
    | op hop =>
      obtain ⟨phase, accepted, _, hmove, _⟩ := hsim.at_op hjob
      rcases hop hnone with rfl | ⟨ptr, rfl⟩
      · cases hmove with
        | malloc _ hpriv' => cases hpriv.symm.trans hpriv'
      · obtain ⟨draft', hpriv'⟩ := hmove.priv_of_alloc hstatus
        cases hpriv.symm.trans hpriv'
        exact ⟨_, hjob⟩

theorem count_or_raw {foo : Foo A T} (hcell : world.mem.cell fp = .live foo) :
    foo.fCount = world.outstanding fp ∨ world.Raw fp := by
  rcases hsim.inv.placed.live fp ⟨foo, hcell⟩ with hin | ⟨t, hmine⟩
  · have hcount := hsim.count_eq hin
    rw [Mem.count, Mem.view_live hcell] at hcount
    exact .inl (Option.some.inj hcount)
  · obtain ⟨⟨_, draft⟩, hpriv, rfl⟩ := Option.map_eq_some_iff.mp hmine
    rcases (hsim.inv.making _ _ _ hpriv).reference with hinCall | ⟨hinCall, id, hstatus⟩
    · obtain ⟨foo', hcell', hdescribes⟩ := hsim.inv.drafted.describes _ _ _ hpriv
      cases hcell.symm.trans hcell'
      rw [hdescribes.count, hsim.inv.drafted.count _ _ _ hpriv hinCall,
        (hsim.offChain hpriv hinCall).last]
      exact .inl rfl
    · exact .inr (hsim.raw htrace hpriv hinCall hstatus)

end Sim

/-! ## The last reference -/

theorem World.outstanding_after (world : World A T) (t : T) (call : Call A) (op : Op A)
    (mem : Mem A T) (program : FooProg A (Option A)) (fp : A) :
    (world.after t call op mem program).outstanding fp + one (world.thread t).inCall fp =
      world.outstanding fp + one (call.has op (world.thread t).inCall) fp := by
  have hinCall : (fun t' => ((world.after t call op mem program).thread t').inCall) =
      update (fun t' => (world.thread t').inCall) t (call.has op (world.thread t).inCall) := by
    funext t'
    rcases eq_or_ne t' t with rfl | ht
    · simp [World.after, World.withThread]
    · simp [World.after, World.withThread, ht]
  have howned : (fun t' => ((world.after t call op mem program).thread t').owned) =
      fun t' => (world.thread t').owned := by
    funext t'
    rcases eq_or_ne t' t with rfl | ht
    · simp [World.after, World.withThread]
    · simp [World.after, World.withThread, ht]
  unfold World.outstanding
  rw [hinCall, howned]
  exact outstanding_update _ _ t _ fp

namespace Sim

theorem frees_last (hsim : Sim .own ok world gh) {call : Call A}
    {next : (Op.free fp).Answer → FooProg A (Option A)}
    (hjob : (world.thread t).job = some (call, .call (.free fp) next)) :
    world.outstanding fp = 1 ∧ (world.thread t).inCall = some fp := by
  obtain ⟨phase, accepted, _, hmove, _⟩ := hsim.at_op hjob
  cases hmove with
  | free hpriv _ _ _ hstatus =>
    rcases (hsim.inv.making _ _ _ hpriv).reference with hinCall | ⟨_, id, hstatus'⟩
    · exact ⟨(hsim.offChain hpriv hinCall).last, (hsim.fits t).inCall.trans hinCall⟩
    · cases hstatus.symm.trans hstatus'

theorem last_frees (hsim : Sim .own ok world gh) {call : Call A} {op : Op A}
    {next : op.Answer → FooProg A (Option A)}
    (hjob : (world.thread t).job = some (call, .call op next)) (hlast : world.outstanding fp = 1)
    (hinCall : (world.thread t).inCall = some fp)
    (hgone : call.has op (world.thread t).inCall ≠ some fp) : op = .free fp := by
  obtain ⟨phase, accepted, _, hmove, _⟩ := hsim.at_op hjob
  have hgh : gh.inCall t = some fp := (hsim.fits t).inCall.symm.trans hinCall
  cases op with
  | free ptr =>
    cases (hsim.frees_last hjob).2.symm.trans hinCall
    rfl
  | setCount ptr value =>
    cases hmove with
    | draftCount _ _ hinCall' | hold _ _ _ hinCall' | found _ _ _ _ hinCall' =>
      cases hgh.symm.trans hinCall'
    | release hknown _ _ hinCall' _ hcount =>
      cases hgh.symm.trans hinCall'
      obtain ⟨hin, _, hvalue⟩ := hsim.inv.knows.known _ _ _ hknown
      rw [hsim.count_eq hin, hlast] at hvalue
      exact absurd (Option.some.inj hvalue).symm hcount
    | releaseLast hguard => cases hguard
  | _ => exact absurd (by cases call <;> exact hinCall) hgone

theorem last (hobeys : Obeys pkg .own) (hsim : Sim .own (fun _ _ => True) world gh)
    {events : List (Event A T)} {world' : World A T} (hstep : Step pkg world t events world')
    (fp : A) : 0 < events.countP (Event.frees fp) ↔
      0 < world.outstanding fp ∧ world'.outstanding fp = 0 := by
  -- A step that frees nothing and changes no reference.
  have hsame : ∀ {gh' : Ghost A T}, Sim .own (fun _ _ => True) world' gh' →
      outstanding gh'.owned gh'.inCall fp = outstanding gh.owned gh.inCall fp →
      ¬ (0 < world.outstanding fp ∧ world'.outstanding fp = 0) := by
    intro gh' hsim' heq hlast
    rw [hsim.outstanding_eq, hsim'.outstanding_eq, heq] at hlast
    omega
  cases hstep with
  | invoke hinvoke =>
    obtain ⟨_, _, gh', hsim', _, heq, _⟩ := hsim.invoke hobeys hinvoke
    exact iff_of_false (by simp [Event.frees]) (hsame hsim' (heq fp))
  | run hrun =>
    cases World.run_ok hrun with
    | result hjob =>
      obtain ⟨_, gh', hsim', _, heq, _⟩ := hsim.finish hjob
      exact iff_of_false (by simp [Event.frees]) (hsame hsim' (heq fp))
    | loop hjob => exact iff_of_false (by simp) (hsame (hsim.unroll hjob) rfl)
    | @op call op next answer mem hjob hexec =>
      have hafter := world.outstanding_after t call op mem (next answer) fp
      rcases Op.events_frees fp t op with ⟨hcount, rfl⟩ | ⟨hcount, hop⟩
      · obtain ⟨hlast, hinCall⟩ := hsim.frees_last hjob
        have hnone : call.has (.free fp) (world.thread t).inCall = none := by
          cases call <;> rfl
        rw [hinCall, one_self, ← hinCall, hnone, one_none] at hafter
        exact iff_of_true (by omega) (by omega)
      · refine iff_of_false (by omega) fun hgone => hop ?_
        have hinCall : (world.thread t).inCall = some fp := by
          by_contra hne
          rw [one_of_ne hne] at hafter
          omega
        rw [hinCall, one_self, ← hinCall] at hafter
        refine hsim.last_frees hjob (by omega) hinCall fun hhas => ?_
        rw [hhas, one_self] at hafter
        omega

end Sim

namespace Sim

theorem stuck (hsim : Sim guard (fun _ _ => True) world gh) {choice : Choice A}
    (hjob : (world.thread t).job ≠ none)
    (hstuck : ∀ events world', world.run t choice ≠ .ok (events, world')) :
    ∃ op accepted, Move guard (fun _ => True) (gh.loc world.mem t) op accepted ∧
      Waits choice world.mem op := by
  have hran := world.ran t choice
  generalize hrun : world.run t choice = outcome at hran
  cases hran with
  | idle hidle => exact absurd hidle hjob
  | fail | fault => exact absurd hrun (hsim.no_fault t choice)
  | blocked hjob hexec =>
    obtain ⟨_, accepted, _, hmove, _⟩ := hsim.at_op hjob
    exact ⟨_, accepted, hmove, exec_blocked hexec⟩
  | _ => exact absurd hrun (hstuck _ _)

theorem not_idle (hsim : Sim guard ok world gh) (hidle : ¬ Idle (gh.loc world.mem t)) :
    (world.thread t).job ≠ none := by
  intro hjob
  have hpoint := (hsim.fits t).point
  rw [hjob] at hpoint
  cases hpoint with
  | idle hidle' => exact hidle hidle'

theorem progress (hsim : Sim guard (fun _ _ => True) world gh)
    (hjob : (world.thread t).job ≠ none) :
    ∃ t' choice events world', world.run t' choice = .ok (events, world') := by
  by_contra hdead
  push Not at hdead
  let choice : Choice A := ⟨none, 0, 0, none, false⟩
  -- The lock of the table is taken before that of an object.
  have hheld : ∀ t', gh.held t' = none := by
    intro t'
    by_contra hheld
    obtain ⟨op, accepted, hmove, hwaits⟩ := hsim.stuck
      (hsim.not_idle fun hidle => hheld hidle.held) (hdead t' choice)
    cases hwaits with
    | hash =>
      cases hmove with
      | lockHash _ hnone => exact hheld hnone
    | lock =>
      cases hmove with
      | lock hnone => exact hheld hnone
    | malloc hptr => cases hptr
  have hlock : ∀ {fp t'}, world.mem.mutex fp ≠ some (some (some t')) := by
    intro fp t' hlock
    have hheld' := (hsim.inv.locked.held _ _).mpr hlock
    rw [hheld] at hheld'
    cases hheld'
  obtain ⟨op, accepted, hmove, hwaits⟩ := hsim.stuck hjob (hdead t choice)
  cases hwaits with
  | @hash t' hhash =>
    have htable : tableFor world.mem.hashlock gh.table t' ≠ none := by
      rw [hhash, tableFor_self]
      nofun
    obtain ⟨op', accepted', hmove', hwaits'⟩ := hsim.stuck
      (hsim.not_idle fun hidle => htable hidle.table) (hdead t' choice)
    cases hwaits' with
    | hash =>
      cases hmove' with
      | lockHash hnone => exact htable hnone
    | lock hlock' => exact hlock hlock'
    | malloc hptr => cases hptr
  | lock hlock' => exact hlock hlock'
  | malloc hptr => cases hptr

end Sim

section Returns

variable {worlds : Nat → World A T} {actor : Nat → T} {n : Nat}
  {job : Call A × FooProg A (Option A)}

namespace Sim

variable (hobeys : Obeys pkg guard)
include hobeys

theorem stepped (hsim : Sim guard (fun _ _ => True) world gh)
    {events : List (Event A T)} {world' : World A T} (hstep : Step pkg world t events world') :
    ∃ gh', Sim guard (fun _ _ => True) world' gh' ∧ ∀ t' ≠ t,
      world'.thread t' = world.thread t' ∧ gh'.loc world'.mem t' = gh.loc world.mem t' := by
  cases hstep with
  | invoke hinvoke =>
    obtain ⟨_, _, gh', hsim', _, _, _, _, hothers⟩ := hsim.invoke hobeys hinvoke
    exact ⟨gh', hsim', hothers⟩
  | run hrun =>
    obtain ⟨gh', hsim', _, hothers⟩ := (hsim.run _ _).2 _ _ hrun
    exact ⟨gh', hsim', hothers⟩

variable (hendless : Endless pkg worlds actor)
include hendless

theorem passed (hsim : Sim guard (fun _ _ => True) (worlds n) gh) (steps : Nat)
    (hothers : ∀ k, n ≤ k → k < n + steps → actor k ≠ t) :
    ∃ gh', Sim guard (fun _ _ => True) (worlds (n + steps)) gh' ∧
      (worlds (n + steps)).thread t = (worlds n).thread t ∧
      gh'.loc (worlds (n + steps)).mem t = gh.loc (worlds n).mem t := by
  induction steps with
  | zero => exact ⟨gh, hsim, rfl, rfl⟩
  | succ steps ih =>
    obtain ⟨gh', hsim', hthread, hloc⟩ := ih fun k hle hlt => hothers k hle (by omega)
    obtain ⟨events, hstep⟩ := hendless (n + steps)
    obtain ⟨gh'', hsim'', hsame⟩ := hsim'.stepped hobeys hstep
    obtain ⟨hthread', hloc'⟩ := hsame t (hothers (n + steps) (by omega) (by omega)).symm
    exact ⟨gh'', hsim'', hthread'.trans hthread, hloc'.trans hloc⟩

theorem next_step (hsim : Sim guard (fun _ _ => True) (worlds n) gh)
    (hjob : ((worlds n).thread t).job = some job) :
    (∀ k ≥ n, actor k ≠ t) ∨ ∃ k ≥ n, ∃ gh' choice events,
      Sim guard (fun _ _ => True) (worlds k) gh' ∧ ((worlds k).thread t).job = some job ∧
      gh'.loc (worlds k).mem t = gh.loc (worlds n).mem t ∧
      (worlds k).Ran t choice (.ok (events, worlds (k + 1))) := by
  by_cases hnever : ∀ k ≥ n, actor k ≠ t
  · exact .inl hnever
  push Not at hnever
  have hexists : ∃ steps, actor (n + steps) = t := by
    obtain ⟨k, hle, hk⟩ := hnever
    exact ⟨k - n, by rwa [Nat.add_sub_cancel' hle]⟩
  have hothers : ∀ k, n ≤ k → k < n + Nat.find hexists → actor k ≠ t := by
    intro k hle hlt hk
    refine Nat.find_min hexists (m := k - n) (by omega) ?_
    rwa [Nat.add_sub_cancel' hle]
  obtain ⟨gh', hsim', hthread, hloc⟩ := hsim.passed hobeys hendless (Nat.find hexists) hothers
  rw [← hthread] at hjob
  obtain ⟨events, hstep⟩ := hendless (n + Nat.find hexists)
  rw [Nat.find_spec hexists] at hstep
  cases hstep with
  | invoke hinvoke => cases hjob.symm.trans (World.invoke_eq_some.mp hinvoke).1
  | run hrun =>
    exact .inr ⟨_, Nat.le_add_right .., gh', _, events, hsim', hjob, hloc, World.run_ok hrun⟩

theorem returns_of_wp {call : Call A} {here : Local A}
    (hwp : Wp (theory guard (fun _ => True)) (fun _ => False) (Ends call) program here)
    (hsim : Sim guard (fun _ _ => True) (worlds n) gh)
    (hjob : ((worlds n).thread t).job = some (call, program))
    (hhere : gh.loc (worlds n).mem t = here) :
    ∃ m ≥ n, ((worlds m).thread t).job = none ∨ ∀ k ≥ m, actor k ≠ t := by
  induction hwp generalizing n gh with
  | ret hpost =>
    rcases hsim.next_step hobeys hendless hjob with
      hnever | ⟨k, hle, gh', choice, events, hsim', hjob', hloc, hran⟩
    · exact ⟨n, le_rfl, .inr hnever⟩
    · refine ⟨k + 1, by omega, .inl ?_⟩
      generalize worlds (k + 1) = after at hran
      cases hran with
      | result => simp [World.withThread, Thread.finish]
      | op hop | loop hop => cases hjob'.symm.trans hop
  | fail hpost => exact hpost.elim
  | @call op next here accepted hopeless hmay hnext hgive ih =>
    subst hhere
    rcases hsim.next_step hobeys hendless hjob with
      hnever | ⟨k, hle, gh', choice, events, hsim', hjob', hloc, hran⟩
    · exact ⟨n, le_rfl, .inr hnever⟩
    · generalize hworld : worlds (k + 1) = after at hran
      cases hran with
      | result hresult | loop hresult => cases hjob'.symm.trans hresult
      | op hop hexec =>
        cases hjob'.symm.trans hop
        obtain ⟨phase, hstatus⟩ := hsim'.busy hjob'
        rw [← hloc] at hmay
        obtain ⟨gh'', hsim'', _, _, _, haccepted⟩ :=
          (hsim'.move hstatus hmay hnext (allowed_always choice op)).2 _ _ hexec
        rw [← hworld] at hsim''
        obtain ⟨m, hm, hreturns⟩ := ih _ _ haccepted hsim'' (by
          rw [hworld]
          simp [World.after, World.withThread]) (by rw [hworld]; rfl)
        exact ⟨m, by omega, hreturns⟩
  | @loop σ τ body start next here hlive hunroll ih =>
    subst hhere
    rcases hsim.next_step hobeys hendless hjob with
      hnever | ⟨k, hle, gh', choice, events, hsim', hjob', hloc, hran⟩
    · exact ⟨n, le_rfl, .inr hnever⟩
    · generalize hworld : worlds (k + 1) = after at hran
      cases hran with
      | result hresult | op hresult => cases hjob'.symm.trans hresult
      | loop hloop =>
        cases hjob'.symm.trans hloop
        have hsim'' := hsim'.unroll hjob'
        rw [← hworld] at hsim''
        obtain ⟨m, hm, hreturns⟩ := ih hsim'' (by
          rw [hworld]
          simp [World.withThread]) (by rw [hworld]; exact hloc)
        exact ⟨m, by omega, hreturns⟩

theorem returns (hsim : Sim guard (fun _ _ => True) (worlds 0) gh) (t : T) (n : Nat) :
    ∃ m ≥ n, ((worlds m).thread t).job = none ∨ ∀ k ≥ m, actor k ≠ t := by
  have hsims : ∀ k, ∃ gh, Sim guard (fun _ _ => True) (worlds k) gh := by
    intro k
    induction k with
    | zero => exact ⟨gh, hsim⟩
    | succ k ih =>
      obtain ⟨gh', hsim'⟩ := ih
      obtain ⟨events, hstep⟩ := hendless k
      obtain ⟨gh'', hsim'', _⟩ := hsim'.stepped hobeys hstep
      exact ⟨gh'', hsim''⟩
  obtain ⟨gh', hsim'⟩ := hsims n
  have hpoint := (hsim'.fits t).point
  cases hjob : ((worlds n).thread t).job with
  | none => exact ⟨n, le_rfl, .inl hjob⟩
  | some job =>
    rw [hjob] at hpoint
    cases hpoint with
    | busy _ hwp => exact hsim'.returns_of_wp hobeys hendless hwp hjob rfl

end Sim

end Returns

/-- The counts of `mutex2.c` are right in every state of every run, objects are freed with
their last references, and there is no deadlock. -/
theorem mutex2_refCounted (A T : Type) [DecidableEq A] [DecidableEq T] [Fintype T]
    (trace : List (Event A T)) (world : World A T) (htrace : Trace mutex2 trace world) :
    RefCounted mutex2 trace world := by
  obtain ⟨gh, _, hsim⟩ := htrace.spec mutex2_obeys
  constructor
  case count => exact fun fp foo hcell => hsim.count_or_raw htrace hcell
  case live =>
    intro fp hpos
    rcases hsim.placed hpos with hin | ⟨t, draft, hpriv, _⟩
    · obtain ⟨foo, _, hcell, _⟩ := hsim.onChainOnce hin
      exact ⟨foo, hcell⟩
    · obtain ⟨foo, hcell, _⟩ := hsim.inv.drafted.describes _ _ _ hpriv
      exact ⟨foo, hcell⟩
  case chain =>
    intro fp hpos
    rcases hsim.placed hpos with hin | ⟨t, draft, hpriv, hinCall⟩
    · exact .inl (hsim.onChainOnce hin)
    · exact .inr (hsim.offChain hpriv hinCall)
  case once =>
    intro fp
    rcases htrace.frees fp with ⟨_, hone⟩ | ⟨_, hzero⟩
    · exact hone.le
    · exact hzero.trans_le (Nat.zero_le 1)
  case last => exact fun t events world' hstep fp => hsim.last mutex2_obeys hstep fp
  case safe => exact hsim.no_fault
  case progress => exact fun t hjob => hsim.progress hjob
  case returns =>
    rintro worlds actor rfl hendless t n
    exact hsim.returns mutex2_obeys hendless t n

end Proofs

section Schedules

variable {A T : Type} [DecidableEq A] [DecidableEq T]

inductive Action (A T : Type) where
  | invoke (t : T) (call : Call A)
  | run (t : T) (choice : Choice A)

def replay (pkg : Package A) : World A T → List (Action A T) → Option (List (Event A T) × World A T)
  | world, [] => some ([], world)
  | world, .invoke t call :: rest =>
    match world.invoke pkg t call with
    | none => none
    | some world' => (replay pkg world' rest).map (Prod.map (.invoke t call :: ·) id)
  | world, .run t choice :: rest =>
    match world.run t choice with
    | .ok (events, world') => (replay pkg world' rest).map (Prod.map (events ++ ·) id)
    | _ => none

theorem replay_trace {pkg : Package A} {world world' : World A T} {trace events : List (Event A T)}
    {actions : List (Action A T)} (htrace : Trace pkg trace world)
    (hreplay : replay pkg world actions = some (events, world')) :
    Trace pkg (trace ++ events) world' := by
  induction actions generalizing world trace events with
  | nil =>
    cases hreplay
    rwa [List.append_nil]
  | cons action rest ih =>
    cases action with
    | invoke t call =>
      rw [replay] at hreplay
      split at hreplay
      · cases hreplay
      · rename_i hinvoke
        obtain ⟨⟨events', _⟩, hrest, heq⟩ := Option.map_eq_some_iff.mp hreplay
        cases heq
        have htrace' := ih (htrace.invoke hinvoke) hrest
        rwa [List.append_assoc] at htrace'
    | run t choice =>
      rw [replay] at hreplay
      split at hreplay
      · rename_i hrun
        obtain ⟨⟨events', _⟩, hrest, heq⟩ := Option.map_eq_some_iff.mp hreplay
        cases heq
        have htrace' := ih (htrace.run hrun) hrest
        rwa [List.append_assoc] at htrace'
      · cases hreplay

def allocated : List (Action Unit Bool) :=
  .invoke true (.fooAlloc 1) :: List.replicate 12 (.run true ⟨some (), 0, 0, none, true⟩)

def steps (t : Bool) (call : Call Unit) (number : Nat) : List (Action Unit Bool) :=
  .invoke t call :: List.replicate number (.run t ⟨none, 0, 0, none, false⟩)

/-- `foo_find` takes a reference while `foo_rele`, which has read the count 1, has no lock. -/
theorem mutex2_refCounted_resurrected :
    ∃ (trace : List (Event Unit Bool)) (world : World Unit Bool),
    Trace mutex2 trace world ∧ world.outstanding () = 2 ∧ RefCounted mutex2 trace world := by
  obtain ⟨events, world, hreplay, hcount⟩ : ∃ events world, replay mutex2 (.initial Unit Bool)
        (allocated ++ steps true (.fooRele ()) 3 ++ steps false (.fooFind 1) 7) =
        some (events, world) ∧ world.outstanding () = 2 := ⟨_, _, rfl, by decide⟩
  have htrace := replay_trace .start hreplay
  exact ⟨_, world, htrace, hcount, mutex2_refCounted _ _ _ _ htrace⟩

/-- `foo_rele` has unlinked the object and not freed it yet. -/
theorem released_object_off_chain :
    ¬ ∀ (A T : Type) [DecidableEq A] [DecidableEq T] [Fintype T] (trace : List (Event A T))
      (world : World A T), Trace mutex2 trace world →
        ∀ fp, 0 < world.outstanding fp → world.OnChainOnce fp := by
  intro hclaim
  obtain ⟨events, world, hreplay, hcount, hempty⟩ : ∃ events world,
      replay mutex2 (.initial Unit Bool) (allocated ++ steps true (.fooRele ()) 10) =
        some (events, world) ∧ world.outstanding () = 1 ∧ ∀ idx, world.mem.fh idx = none :=
    ⟨_, _, rfl, by decide, by decide⟩
  have htrace := replay_trace .start hreplay
  obtain ⟨foo, nodes, _, hchain, hone⟩ := hclaim _ _ _ _ htrace () (by omega)
  rw [hempty] at hchain
  cases nodes with
  | nil => cases hone
  | cons node rest => cases hchain.1

end Schedules

/-- With the one lock of `mutex3.c` as well, what a thread has a reference to is on its chain
with the right count, nothing is freed twice or touched after that, and there is no deadlock. -/
theorem mutex3_safe (A T : Type) [DecidableEq A] [DecidableEq T] [Fintype T]
    (trace : List (Event A T)) (world : World A T) (htrace : Trace mutex3 trace world) :
    (∀ t fp, 0 < (world.thread t).owned fp →
      world.OnChainOnce fp ∧ world.mem.count fp = some (world.outstanding fp : Int)) ∧
    (∀ fp, trace.countP (Event.frees fp) ≤ 1) ∧ (∀ t choice, world.run t choice ≠ .fault) ∧
    (∀ t, (world.thread t).job ≠ none →
      ∃ t' choice events world', world.run t' choice = .ok (events, world')) ∧
    ∀ worlds actor, worlds 0 = world → Endless mutex3 worlds actor →
      ∀ t n, ∃ m ≥ n, ((worlds m).thread t).job = none ∨ ∀ k ≥ m, actor k ≠ t := by
  obtain ⟨gh, _, hsim⟩ := htrace.spec mutex3_obeys
  refine ⟨?_, ?_, hsim.no_fault, fun t hjob => hsim.progress hjob, ?_⟩
  · intro t fp howned
    rw [(hsim.fits t).owned] at howned
    have hin := hsim.inv.placed.owned t fp howned
    exact ⟨hsim.onChainOnce hin, hsim.count_eq hin⟩
  · intro fp
    rcases htrace.frees fp with ⟨_, hone⟩ | ⟨_, hzero⟩
    · exact hone.le
    · exact hzero.trans_le (Nat.zero_le 1)
  · rintro worlds actor rfl hendless t n
    exact hsim.returns mutex3_obeys hendless t n

theorem mutex3_safe_allocated : ∃ (trace : List (Event Unit Bool)) (world : World Unit Bool),
    Trace mutex3 trace world ∧ (world.thread true).owned () = 1 ∧ world.OnChainOnce () := by
  obtain ⟨events, world, hreplay, howned⟩ : ∃ events world,
      replay mutex3 (.initial Unit Bool) allocated = some (events, world) ∧
        (world.thread true).owned () = 1 := ⟨_, _, rfl, by decide⟩
  have htrace := replay_trace .start hreplay
  exact ⟨_, world, htrace, howned, ((mutex3_safe _ _ _ _ htrace).1 true () (by omega)).1⟩

end ApueFormal.Threads
