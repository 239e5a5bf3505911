import ApueFormal.Threads.Programs
import ApueFormal.Threads.Sound

/-!
# Runs of the threads

Every thread of a run is at a point of its program from which it comes to its end by
moves.  So every run of an implementation is a run of the object.
-/

namespace ApueFormal.Threads

open Program

section Threads

variable {A : Type}

/-- A thread that is in no call. -/
structure Idle (here : Local A) : Prop where
  status : here.status = none
  table : here.table = none
  held : here.held = none
  priv : here.priv = none
  pend : here.pend = none
  inCall : here.inCall = none

/-- What every move does to the thread itself. -/
structure Keeps (ok : Phase A → Prop) (op : Op A) (here after : Local A) : Prop where
  owned : after.owned = here.owned
  inCall : ∀ call phase, here.status = some (call, phase) →
    after.inCall = call.has op here.inCall ∧ ∃ phase', after.status = some (call, phase')
  /-- `foo_alloc` comes to a phase that it may come to. -/
  phase : ∀ id phase, here.status = some (.fooAlloc id, .pending) →
    after.status = some (.fooAlloc id, phase) → phase = .pending ∨ ok phase

variable {guard : Guard} {ok : Phase A → Prop} {here after : Local A} {op : Op A}
  {accepted : op.Answer → Local A → Prop} {answer : op.Answer} {call : Call A} {phase : Phase A}

theorem Keeps.of_same (howned : after.owned = here.owned) (hinCall : after.inCall = here.inCall)
    (hstatus : after.status = here.status) (hcount : ∀ fp count, op ≠ .setCount fp count)
    (hfree : ∀ fp, op ≠ .free fp) : Keeps ok op here after where
  owned := howned
  inCall call phase hcall := by
    refine ⟨?_, phase, hstatus.trans hcall⟩
    rw [hinCall]
    cases call <;> cases op <;> simp_all [Call.has]
  phase id phase hpending hphase := by
    rw [hstatus, hpending] at hphase
    cases hphase
    exact .inl rfl

theorem Keeps.of_status {phase' : Phase A} (hstatus : here.status = some (call, phase))
    (howned : after.owned = here.owned) (hinCall : after.inCall = call.has op here.inCall)
    (hafter : after.status = some (call, phase'))
    (hok : ∀ id, call = .fooAlloc id → phase = .pending → phase' = .pending ∨ ok phase') :
    Keeps ok op here after where
  owned := howned
  inCall call' phase'' hcall := by
    cases hstatus.symm.trans hcall
    exact ⟨hinCall, phase', hafter⟩
  phase id phase'' hpending hphase := by
    cases hstatus.symm.trans hpending
    cases hafter.symm.trans hphase
    exact hok id rfl rfl

variable [DecidableEq A]

theorem Move.keeps (hmove : Move guard ok here op accepted) (haccepted : accepted answer after) :
    Keeps ok op here after := by
  cases hmove with
  | lockHash =>
    obtain ⟨table, _, rfl⟩ := haccepted
    exact .of_same rfl rfl rfl nofun nofun
  | unlockHash | unlock =>
    subst haccepted
    cases guard <;> exact .of_same rfl rfl rfl nofun nofun
  | notFound _ _ _ hstatus =>
    subst haccepted
    cases guard <;> exact .of_status hstatus rfl rfl rfl nofun
  | lock | draftId | draftNext | mutexDestroy =>
    subst haccepted
    exact .of_same rfl rfl rfl nofun nofun
  | getHead | getNext | getId | getCount =>
    obtain ⟨_, rfl⟩ := haccepted
    exact .of_same rfl rfl rfl nofun nofun
  | malloc hstatus =>
    obtain ⟨_, hok, rfl⟩ | ⟨fp, draft, _, _, rfl⟩ := haccepted
    · exact .of_status hstatus rfl rfl rfl fun _ _ _ => .inr hok
    · exact .of_same rfl rfl rfl nofun nofun
  | draftCount hstatus =>
    subst haccepted
    exact .of_status hstatus rfl rfl hstatus fun _ _ _ => .inl rfl
  | mutexInit hstatus =>
    obtain ⟨_, _, rfl⟩ | ⟨_, hok, rfl⟩ := haccepted
    · exact .of_same rfl rfl rfl nofun nofun
    · exact .of_status hstatus rfl rfl rfl fun _ _ _ => .inr hok
  | publish _ hstatus _ _ _ _ _ _ _ hok =>
    subst haccepted
    exact .of_status hstatus rfl rfl rfl fun _ _ _ => .inr hok
  | hold _ hstatus | found _ _ hstatus | release _ hstatus =>
    subst haccepted
    exact .of_status hstatus rfl rfl rfl nofun
  | releaseLast _ _ hstatus =>
    subst haccepted
    exact .of_status hstatus rfl rfl hstatus nofun
  | unlinkHead _ _ hstatus | unlinkNext _ _ hstatus =>
    obtain ⟨draft, _, rfl⟩ := haccepted
    exact .of_status hstatus rfl rfl rfl nofun
  | @free _ _ call _ _ _ _ _ hstatus =>
    subst haccepted
    exact .of_status hstatus rfl (by cases call <;> rfl) rfl nofun

/-! ## Threads at work -/

/-- A thread is at a point of its program that fits to what it knows. -/
inductive AtPoint (guard : Guard) (ok : Phase A → Prop) :
    Option (Call A × FooProg A (Option A)) → Local A → Prop where
  | idle {here : Local A} (hidle : Idle here) : AtPoint guard ok none here
  | busy {here : Local A} {call : Call A} {program : FooProg A (Option A)} {phase : Phase A}
      (hstatus : here.status = some (call, phase))
      (hwp : Wp (theory guard ok) (fun _ => False) (Ends call) program here) :
      AtPoint guard ok (some (call, program)) here

structure Fits (guard : Guard) (ok : Phase A → Prop) (thread : Thread A) (here : Local A) :
    Prop where
  owned : thread.owned = here.owned
  inCall : thread.inCall = here.inCall
  point : AtPoint guard ok thread.job here

end Threads

section Blocking

variable {A T : Type} [DecidableEq A] [DecidableEq T] {t : T} {choice : Choice A} {op : Op A}
  {mem : Mem A T}

inductive Waits (choice : Choice A) (mem : Mem A T) : Op A → Prop where
  | hash {t : T} (hhash : mem.hashlock = some t) : Waits choice mem .lockHash
  | lock {fp : A} {t : T} (hlock : mem.mutex fp = some (some (some t))) :
      Waits choice mem (.lock fp)
  /-- The system cannot give out this object. -/
  | malloc {fp : A} (hptr : choice.ptr = some fp) (hgiven : mem.Given fp) :
      Waits choice mem .malloc

theorem exec_blocked (hexec : exec t choice op mem = .blocked) : Waits choice mem op := by
  cases op with
  | lockHash =>
    rw [exec] at hexec
    split at hexec
    · cases hexec
    · exact .hash ‹_›
  | lock fp =>
    rw [exec, Mem.onFoo] at hexec
    split at hexec
    · rename_i foo hcell
      split at hexec
      · cases hexec
      · cases hexec
      · rename_i hlock
        exact .lock ((Mem.view_live hcell).trans (congrArg some hlock))
    · cases hexec
  | malloc =>
    rw [exec] at hexec
    split at hexec
    · cases hexec
    · rename_i fp hptr
      split at hexec
      · cases hexec
      · rename_i hcell
        exact .malloc hptr fun heq => hcell heq
  | unlockHash =>
    rw [exec] at hexec
    split at hexec <;> cases hexec
  | _ =>
    simp only [exec, Mem.onFoo] at hexec
    repeat' split at hexec
    all_goals cases hexec

end Blocking

section Worlds

variable {A T : Type} [DecidableEq A] [DecidableEq T] [Fintype T] {guard : Guard}
  {ok : T → Phase A → Prop} {pkg : Package A} {world : World A T} {mem : Mem A T} {gh : Ghost A T}
  {t : T}

/-- A world of the implementation and the state of the object. -/
structure Sim (guard : Guard) (ok : T → Phase A → Prop) (world : World A T) (gh : Ghost A T) :
    Prop where
  inv : Inv guard world.mem gh
  fits : ∀ t, Fits guard (ok t) (world.thread t) (gh.loc world.mem t)

variable {call : Call A} {op : Op A}

section

variable (hsim : Sim guard ok world gh)
include hsim

theorem Sim.step {mem' : Mem A T} {gh' : Ghost A T} {thread : Thread A} (hinv : Inv guard mem' gh')
    (hfits : Fits guard (ok t) thread (gh'.loc mem' t))
    (hothers : ∀ t' ≠ t, gh'.loc mem' t' = gh.loc world.mem t') :
    Sim guard ok ({ world with mem := mem' }.withThread t thread) gh' where
  inv := hinv
  fits t' := by
    rcases eq_or_ne t' t with rfl | ht
    · simpa [World.withThread] using hfits
    · have hold := hsim.fits t'
      rw [← hothers t' ht] at hold
      simpa [World.withThread, ht] using hold

variable {next : op.Answer → FooProg A (Option A)}

theorem Sim.move {phase : Phase A} {accepted : op.Answer → Local A → Prop}
    (hstatus : gh.status t = some (call, phase))
    (hmove : Move guard (ok t) (gh.loc world.mem t) op accepted)
    (hnext : ∀ answer after, accepted answer after →
      Wp (theory guard (ok t)) (fun _ => False) (Ends call) (next answer) after) {choice : Choice A}
    (hallowed : Allowed (ok t) choice op) :
    exec t choice op world.mem ≠ .fault ∧
      ∀ answer mem', exec t choice op world.mem = .ok (answer, mem') →
        ∃ gh', Sim guard ok (world.after t call op mem' (next answer)) gh' ∧
          Advance t op gh.toSpec gh'.toSpec ∧ (∀ t' ≠ t, gh'.loc mem' t' = gh.loc world.mem t') ∧
          Keeps (ok t) op (gh.loc world.mem t) (gh'.loc mem' t) ∧
          accepted answer (gh'.loc mem' t) := by
  have hfits := hsim.fits t
  have hsafe := Move.sound hsim.inv hmove hallowed
  constructor
  · intro hfault
    rw [hfault] at hsafe
    exact hsafe
  · intro answer mem' hexec
    rw [hexec] at hsafe
    obtain ⟨gh', after, hreaches, haccepted⟩ := hsafe
    obtain rfl := hreaches.here
    have hkeeps := Move.keeps hmove haccepted
    obtain ⟨hinCall, phase', hphase⟩ := hkeeps.inCall _ _ hstatus
    refine ⟨gh', hsim.step hreaches.inv ⟨?_, ?_, .busy hphase (hnext _ _ haccepted)⟩
      hreaches.others, hreaches.advance, hreaches.others, hkeeps, haccepted⟩
    · exact hfits.owned.trans hkeeps.owned.symm
    · rw [hinCall, ← hfits.inCall]

theorem Sim.busy {program : FooProg A (Option A)}
    (hjob : (world.thread t).job = some (call, program)) :
    ∃ phase, gh.status t = some (call, phase) := by
  have hpoint := (hsim.fits t).point
  rw [hjob] at hpoint
  cases hpoint with
  | busy hstatus _ => exact ⟨_, hstatus⟩

theorem Sim.at_op (hjob : (world.thread t).job = some (call, .call op next)) :
    ∃ phase accepted, gh.status t = some (call, phase) ∧
      Move guard (ok t) (gh.loc world.mem t) op accepted ∧ ∀ answer after, accepted answer after →
        Wp (theory guard (ok t)) (fun _ => False) (Ends call) (next answer) after := by
  have hpoint := (hsim.fits t).point
  rw [hjob] at hpoint
  cases hpoint with
  | busy hstatus hwp =>
    cases hwp with
    | call accepted hopeless hmay hnext hgive => exact ⟨_, accepted, hstatus, hmay, hnext⟩

theorem Sim.unroll {σ β : Type} {body : σ → FooProg A (σ ⊕ β)} {start : σ}
    {next : β → FooProg A (Option A)}
    (hjob : (world.thread t).job = some (call, .loop body start next)) :
    Sim guard ok (world.withThread t
      { world.thread t with job := some (call, Prog.unroll body start next) }) gh := by
  have hfits := hsim.fits t
  have hpoint := hfits.point
  rw [hjob] at hpoint
  cases hpoint with
  | busy hstatus hwp =>
    cases hwp with
    | loop _ hunroll =>
      exact hsim.step hsim.inv ⟨hfits.owned, hfits.inCall, .busy hstatus hunroll⟩ fun _ _ => rfl

end

/-- The state of the object and of the threads at the start. -/
def Ghost.initial (A T : Type) : Ghost A T where
  toSpec := .initial A T
  inCall _ := none
  held _ := none
  priv _ := none
  known _ := none
  pend _ := none

theorem Sim.initial : Sim guard ok (.initial A T) (.initial A T) where
  inv := by
    have hout : ∀ fp, ¬ InTable (Ghost.initial A T).table fp := by
      rintro fp ⟨idx, id, hmem⟩
      exact absurd hmem (List.not_mem_nil)
    constructor
    case linked => exact ⟨fun _ => rfl, by rintro _ _ _ ⟨⟩, fun _ => List.nodup_nil⟩
    case locked =>
      refine ⟨fun t fp => iff_of_false (by rintro ⟨⟩) ?_,
        fun fp hin => absurd hin (hout fp)⟩
      simp [Mem.mutex, Mem.view, World.initial]
    case placed =>
      constructor
      case live => rintro _ ⟨_, ⟨⟩⟩
      case apart => rintro _ _ _ ⟨⟩
      all_goals rintro _ _ ⟨⟩
    case drafted => constructor <;> rintro _ _ _ ⟨⟩
    case making => rintro _ _ _ ⟨⟩
    case positive => exact fun _ fp hin => absurd hin (hout fp)
    case holds => rintro _ _ _ ⟨⟩
    case counted => exact fun fp hin => absurd hin (hout fp)
    case knows => exact ⟨by rintro _ _ _ ⟨⟩, by rintro _ _ ⟨⟩⟩
    case used => exact fun fp => iff_of_false id fun hgiven => hgiven.1 rfl
    case referred => exact fun t fp _ => rfl
  fits t := ⟨rfl, rfl, .idle ⟨rfl, rfl, rfl, rfl, rfl, rfl⟩⟩

theorem Sim.invoke (hobeys : Obeys pkg guard) (hsim : Sim guard ok world gh) {world' : World A T}
    (hinvoke : world.invoke pkg t call = some world') :
    gh.status t = none ∧ mayCall (gh.owned t) call ∧ ∃ gh', Sim guard ok world' gh' ∧
        gh'.toSpec = { gh.toSpec with
          owned := Function.update gh.owned t fun fp =>
            gh.owned t fp - one call.takes fp }.withStatus t (some (call, .pending)) ∧
        (∀ fp, outstanding gh'.owned gh'.inCall fp = outstanding gh.owned gh.inCall fp) ∧
        (world'.thread t).job = some (call, pkg call) ∧ Started call (gh'.loc world'.mem t) ∧
        ∀ t' ≠ t, world'.thread t' = world.thread t' ∧
          gh'.loc world'.mem t' = gh.loc world.mem t' := by
  have hfits := hsim.fits t
  have hpoint := hfits.point
  obtain ⟨hjob, hmay, rfl⟩ := World.invoke_eq_some.mp hinvoke
  rw [hjob] at hpoint
  cases hpoint with
  | idle hidle =>
    have howned : (world.thread t).owned = gh.owned t := hfits.owned
    rw [howned] at hmay
    have hinCall : gh.inCall t = none := hidle.inCall
    have hpos : ∀ fp, one call.takes fp ≤ gh.owned t fp := by
      intro fp
      by_cases htakes : call.takes = some fp
      · cases call with
        | fooRele ptr =>
          cases htakes
          rw [Call.takes, one_self]
          exact hmay
        | _ => cases htakes
      · rw [one_of_ne htakes]
        exact Nat.zero_le _
    have hstarted : Started call ((gh.settled t (fun fp => gh.owned t fp - one call.takes fp)
        (some (call, .pending)) call.takes).loc world.mem t) := by
      rw [Ghost.settled_loc]
      refine ⟨rfl, hidle.table, hidle.held, hidle.priv, hidle.pend, rfl, ?_⟩
      rintro fp rfl
      exact hmay
    have hsame : ∀ fp, gh.owned t fp - one call.takes fp + one call.takes fp =
        gh.owned t fp + one (gh.inCall t) fp := by
      intro fp
      rw [hinCall, one_none, Nat.sub_add_cancel (hpos fp), Nat.add_zero]
    refine ⟨hidle.status, hmay, _, hsim.step (hsim.inv.settle hidle.priv hidle.held hidle.pend
      hsame (fun fp => ?_)) ⟨?_, ?_, .busy hstarted.status (hobeys _ _ _ hstarted)⟩
      (fun t' ht => gh.settled_loc_of_ne _ ht ..), rfl, Inv.outstanding_settled hsame _, ?_,
      hstarted, fun t' ht => ⟨?_, gh.settled_loc_of_ne _ ht ..⟩⟩
    · cases call <;> rfl
    · simp [Thread.start, Ghost.settled_loc, howned]
    · simp [Thread.start, Ghost.settled_loc]
    · simp [World.withThread, Thread.start]
    · simp [World.withThread, ht]

theorem Sim.finish (hsim : Sim guard ok world gh) {value : Option A}
    (hjob : (world.thread t).job = some (call, .ret value)) :
    gh.status t = some (call, .finished value) ∧
      ∃ gh', Sim guard ok (world.withThread t ((world.thread t).finish call value)) gh' ∧
        gh'.toSpec = { gh.toSpec with
          owned := Function.update gh.owned t fun fp =>
            gh.owned t fp + one (call.gains value) fp }.withStatus t none ∧
        (∀ fp, outstanding gh'.owned gh'.inCall fp = outstanding gh.owned gh.inCall fp) ∧
        Idle (gh'.loc world.mem t) ∧ ∀ t' ≠ t, gh'.loc world.mem t' = gh.loc world.mem t' := by
  have hfits := hsim.fits t
  have hpoint := hfits.point
  rw [hjob] at hpoint
  cases hpoint with
  | busy hstatus hwp =>
    cases hwp with
    | ret hpost =>
      have hfinished : gh.status t = some (call, .finished value) := hpost.status
      have hpend : gh.pend t = none := hpost.pend
      have howned : (world.thread t).owned = gh.owned t := hfits.owned
      have hgains : ∀ fp, one (call.gains value) fp = one (gh.inCall t) fp := by
        intro fp
        have hnone : mine gh.priv t = none := mine_eq_none hpost.priv
        have hreferred := hsim.inv.referred t fp (by simp [hnone])
        rw [hfinished, refs_finished, hpend, one_none, Nat.add_zero] at hreferred
        exact hreferred
      have hidle : Idle ((gh.settled t (fun fp => gh.owned t fp + one (call.gains value) fp)
          none none).loc world.mem t) := by
        rw [Ghost.settled_loc]
        exact ⟨rfl, hpost.table, hpost.held, hpost.priv, hpost.pend, rfl⟩
      have hsame : ∀ fp, gh.owned t fp + one (call.gains value) fp + one none fp =
          gh.owned t fp + one (gh.inCall t) fp := by
        intro fp
        rw [one_none, Nat.add_zero, hgains]
      refine ⟨hfinished, _, hsim.step (hsim.inv.settle hpost.priv hpost.held hpost.pend hsame
        (fun _ => rfl)) ⟨?_, ?_, .idle hidle⟩ (fun t' ht => gh.settled_loc_of_ne _ ht ..), rfl,
        Inv.outstanding_settled hsame _, hidle, fun t' ht => gh.settled_loc_of_ne _ ht ..⟩
      · simp [Thread.finish, Ghost.settled_loc, howned]
      · simp [Thread.finish, Ghost.settled_loc]

/-! ## Forward simulation -/

omit [DecidableEq A] in
theorem allowed_always (choice : Choice A) (op : Op A) : Allowed (fun _ => True) choice op := by
  cases op with
  | malloc => cases hptr : choice.ptr <;> simp [Allowed, hptr]
  | mutexInit fp => simp [Allowed]
  | _ => trivial

variable {trace : List (Event A T)}

theorem SpecTrace.advance {spec spec' : Spec A T} (htrace : SpecTrace trace spec)
    (hadvance : Advance t op spec spec') : SpecTrace (trace ++ op.events t) spec' := by
  cases hadvance with
  | same hop heq =>
    rw [Op.events_eq_nil hop, heq, List.append_nil]
    exact htrace
  | commit hop hcommit =>
    rw [Op.events_eq_nil hop, List.append_nil]
    exact htrace.commit hcommit
  | free hop hstatus heq =>
    rw [hop, heq]
    exact htrace.free hstatus

theorem Sim.no_fault (hsim : Sim guard (fun _ _ => True) world gh) (t : T) (choice : Choice A) :
    world.run t choice ≠ .fault := by
  intro hfault
  have hran := world.ran t choice
  rw [hfault] at hran
  cases hran with
  | fail hjob =>
    have hpoint := (hsim.fits t).point
    rw [hjob] at hpoint
    cases hpoint with
    | busy _ hwp =>
      cases hwp with
      | fail hpost => exact hpost.elim
  | @fault call op next hjob hexec =>
    obtain ⟨phase, accepted, hstatus, hmove, hnext⟩ := hsim.at_op hjob
    exact (hsim.move hstatus hmove hnext (allowed_always choice op)).1 hexec

theorem Sim.run (hsim : Sim guard (fun _ _ => True) world gh) (t : T) (choice : Choice A) :
    world.run t choice ≠ .fault ∧ ∀ events world', world.run t choice = .ok (events, world') →
        ∃ gh', Sim guard (fun _ _ => True) world' gh' ∧
          (∀ trace, SpecTrace trace gh.toSpec → SpecTrace (trace ++ events) gh'.toSpec) ∧
          ∀ t' ≠ t, world'.thread t' = world.thread t' ∧
            gh'.loc world'.mem t' = gh.loc world.mem t' := by
  refine ⟨hsim.no_fault t choice, fun events world' hrun => ?_⟩
  cases World.run_ok hrun with
  | @result call value hjob =>
    obtain ⟨hstatus, gh', hsim', hspec, _, _, hothers⟩ := hsim.finish hjob
    refine ⟨gh', hsim', fun trace htrace => ?_, fun t' ht =>
      ⟨World.run_thread hrun ht, hothers t' ht⟩⟩
    rw [hspec]
    exact htrace.result hstatus
  | @op call op next answer mem hjob hexec =>
    obtain ⟨phase, accepted, hstatus, hmove, hnext⟩ := hsim.at_op hjob
    obtain ⟨gh', hsim', hadvance, hothers, _⟩ :=
      (hsim.move hstatus hmove hnext (allowed_always choice op)).2 _ _ hexec
    exact ⟨gh', hsim', fun trace htrace => htrace.advance hadvance,
      fun t' ht => ⟨World.run_thread hrun ht, hothers t' ht⟩⟩
  | @loop call σ β body start next hjob =>
    refine ⟨gh, hsim.unroll hjob, fun trace htrace => ?_,
      fun t' ht => ⟨World.run_thread hrun ht, rfl⟩⟩
    rwa [List.append_nil]

theorem Trace.spec (hobeys : Obeys pkg guard) (htrace : Trace pkg trace world) :
    ∃ gh, SpecTrace trace gh.toSpec ∧ Sim guard (fun _ _ => True) world gh := by
  induction htrace with
  | start => exact ⟨.initial A T, .start, .initial⟩
  | invoke _ hinvoke ih =>
    obtain ⟨gh, hspec, hsim⟩ := ih
    obtain ⟨hidle, hmay, gh', hsim', heq, _⟩ := hsim.invoke hobeys hinvoke
    refine ⟨gh', ?_, hsim'⟩
    rw [heq]
    exact hspec.invoke hidle hmay
  | run _ hrun ih =>
    obtain ⟨gh, hspec, hsim⟩ := ih
    obtain ⟨gh', hsim', hstep, _⟩ := (hsim.run _ _).2 _ _ hrun
    exact ⟨gh', hstep _ hspec, hsim'⟩

end Worlds

end ApueFormal.Threads
