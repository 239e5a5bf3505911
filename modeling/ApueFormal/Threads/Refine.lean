import ApueFormal.Threads.Freed
import ApueFormal.Threads.Run

/-!
# The two files are equivalent

Every run of the object is a run of each implementation: a call runs without a break to
the moment at which it takes effect, and it then waits.  With the forward simulation the
two implementations have the same runs.
-/

namespace ApueFormal.Threads

open Function Program

section Rest

variable {A : Type}

/-- A thread that is not between the first and the last lock of its call. -/
inductive Rests (pkg : Package A) : Option (Call A × FooProg A (Option A)) → Local A → Prop where
  | idle {here : Local A} (hidle : Idle here) : Rests pkg none here
  | started {call : Call A} {here : Local A} (hstarted : Started call here) :
      Rests pkg (some (call, pkg call)) here
  | freeing {call : Call A} {here : Local A} {fp : A} {value : Option A}
      {next : Unit → FooProg A (Option A)}
      (hstatus : here.status = some (call, .freeing fp value)) (htable : here.table = none)
      (hheld : here.held = none) :
      Rests pkg (some (call, .call (.free fp) next)) here
  | finished {call : Call A} {here : Local A} {value : Option A}
      (hfinished : Finished call value here) : Rests pkg (some (call, .ret value)) here

variable {pkg : Package A} {job : Option (Call A × FooProg A (Option A))} {here : Local A}

namespace Rests

variable (hrests : Rests pkg job here)
include hrests

theorem table : here.table = none := by
  cases hrests with
  | idle hidle | started hidle | finished hidle => exact hidle.table
  | freeing _ htable => exact htable

theorem held : here.held = none := by
  cases hrests with
  | idle hidle | started hidle | finished hidle => exact hidle.held
  | freeing _ _ hheld => exact hheld

theorem priv {call : Call A}
    (hstatus : here.status = some (call, .pending)) : here.priv = none := by
  cases hrests with
  | idle hidle | started hidle | finished hidle => exact hidle.priv
  | freeing hstatus' => cases hstatus.symm.trans hstatus'

theorem of_none (hstatus : here.status = none) : job = none := by
  cases hrests with
  | idle _ => rfl
  | started hstarted | finished hstarted => cases hstatus.symm.trans hstarted.status
  | freeing hstatus' => cases hstatus.symm.trans hstatus'

variable {call : Call A} {value : Option A} {fp : A}

theorem of_pending (hstatus : here.status = some (call, .pending)) :
    job = some (call, pkg call) ∧ Started call here := by
  cases hrests with
  | idle hidle | finished hidle => cases hstatus.symm.trans hidle.status
  | started hstarted =>
    cases hstatus.symm.trans hstarted.status
    exact ⟨rfl, hstarted⟩
  | freeing hstatus' => cases hstatus.symm.trans hstatus'

theorem of_freeing (hstatus : here.status = some (call, .freeing fp value)) :
    ∃ next, job = some (call, .call (.free fp) next) := by
  cases hrests with
  | idle hidle | started hidle | finished hidle => cases hstatus.symm.trans hidle.status
  | freeing hstatus' =>
    cases hstatus.symm.trans hstatus'
    exact ⟨_, rfl⟩

theorem of_finished
    (hstatus : here.status = some (call, .finished value)) : job = some (call, .ret value) := by
  cases hrests with
  | idle hidle | started hidle => cases hstatus.symm.trans hidle.status
  | freeing hstatus' => cases hstatus.symm.trans hstatus'
  | finished hfinished =>
    cases hstatus.symm.trans hfinished.status
    rfl

end Rests

end Rest

section Solo

variable {A T : Type} [DecidableEq T] {guard : Guard} {ok : T → Phase A → Prop} {pkg : Package A}
  {world : World A T} {gh : Ghost A T} {t : T}

/-- There is a choice of the system with which `foo_alloc` comes to a phase that it may come to. -/
def Choosable (ok : Phase A → Prop) (spec : Spec A T) : Prop :=
  ok (.finished none) ∨ ∃ fp, ¬ spec.used fp ∧ (ok (.finished (some fp)) ∨ ok (.freeing fp none))

/-- The other threads have no locks and no objects in the making. -/
def Others (pkg : Package A) (t : T) (world : World A T) (gh : Ghost A T) : Prop :=
  ∀ t' ≠ t, Rests pkg (world.thread t').job (gh.loc world.mem t')

theorem Others.hash (hothers : Others pkg t world gh) {t' : T}
    (hhash : world.mem.hashlock = some t') : t' = t := by
  by_contra ht
  have htable : tableFor world.mem.hashlock gh.table t' = none := (hothers t' ht).table
  rw [hhash, tableFor_self] at htable
  cases htable

theorem Others.held (hothers : Others pkg t world gh) {t' : T} {fp : A}
    (hheld : gh.held t' = some fp) : t' = t := by
  by_contra ht
  cases hheld.symm.trans (hothers t' ht).held

variable [DecidableEq A] [Fintype T]

theorem Sim.fresh (hsim : Sim guard ok world gh) (hothers : Others pkg t world gh)
    (hpriv : gh.priv t = none) {fp : A} (hused : ¬ gh.used fp) : ¬ world.mem.Given fp := by
  refine fun hgiven => hused ((hsim.inv.used fp).mpr ⟨hgiven, fun t' call hmine hstatus => ?_⟩)
  have hnone : gh.priv t' = none := by
    rcases eq_or_ne t' t with rfl | ht
    · exact hpriv
    · exact (hothers t' ht).priv hstatus
  rw [mine_eq_none hnone] at hmine
  cases hmine

theorem Sim.goes (hsim : Sim guard ok world gh) (hothers : Others pkg t world gh) {op : Op A}
    {accepted : op.Answer → Local A → Prop}
    (hmove : Move guard (ok t) (gh.loc world.mem t) op accepted)
    (hchoosable : ∀ id, gh.status t = some (.fooAlloc id, .pending) → Choosable (ok t) gh.toSpec) :
    ∃ choice, Allowed (ok t) choice op ∧ ¬ Waits choice world.mem op := by
  let choice : Choice A := ⟨none, 0, 0, none, false⟩
  cases hmove with
  | lockHash htable =>
    refine ⟨choice, trivial, ?_⟩
    rintro ⟨hhash⟩
    obtain rfl := hothers.hash hhash
    change tableFor world.mem.hashlock gh.table _ = none at htable
    rw [hhash, tableFor_self] at htable
    cases htable
  | lock hheld =>
    refine ⟨choice, trivial, fun hwaits => ?_⟩
    obtain ⟨t', hlock⟩ : ∃ t', world.mem.mutex _ = some (some (some t')) := by
      cases hwaits with
      | lock hlock => exact ⟨_, hlock⟩
    have hheld' := (hsim.inv.locked.held _ _).mpr hlock
    obtain rfl := hothers.held hheld'
    cases hheld.symm.trans hheld'
  | malloc hstatus hpriv =>
    rcases hchoosable _ hstatus with hok | ⟨fp, hused, hok⟩
    · exact ⟨choice, hok, nofun⟩
    · refine ⟨{ choice with ptr := some fp }, hok, ?_⟩
      rintro (_ | _ | ⟨hptr, hgiven⟩)
      cases hptr
      exact hsim.fresh hothers hpriv hused hgiven
  | mutexInit hstatus hpriv hinCall hheld hok =>
    rcases hok with hok | hok
    · exact ⟨{ choice with initOk := true }, hok, nofun⟩
    · exact ⟨choice, hok, nofun⟩
  | _ => exact ⟨choice, trivial, nofun⟩

/-- A thread has done nothing that is seen, or its call has taken effect as it should. -/
def Settles (ok : Phase A → Prop) (t : T) (spec spec' : Spec A T) : Prop :=
  spec' = spec ∨ (Commit t spec spec' ∧
    ∀ id phase, spec'.status t = some (.fooAlloc id, phase) → ok phase)

structure Solo (guard : Guard) (ok : T → Phase A → Prop) (pkg : Package A) (t : T)
    (trace : List (Event A T)) (spec : Spec A T) (world : World A T) (gh : Ghost A T) : Prop where
  trace : Trace pkg trace world
  sim : Sim guard ok world gh
  rests : ∀ t, Rests pkg (world.thread t).job (gh.loc world.mem t)
  settles : Settles (ok t) t spec gh.toSpec
  done : ∀ call, gh.status t ≠ some (call, .pending)

theorem Settles.advance {okay : Phase A → Prop} {spec spec' spec'' : Spec A T} {op : Op A}
    (hop : ∀ fp, op ≠ .free fp) (hadvance : Advance t op spec spec')
    (hphase : ∀ id phase, spec.status t = some (.fooAlloc id, .pending) →
      spec'.status t = some (.fooAlloc id, phase) → phase = .pending ∨ okay phase)
    (hsettles : Settles okay t spec' spec'') : Settles okay t spec spec'' := by
  cases hadvance with
  | same _ heq =>
    subst heq
    exact hsettles
  | commit _ hcommit =>
    rcases hsettles with rfl | ⟨hagain, _⟩
    · refine .inr ⟨hcommit, fun id phase hstatus => ?_⟩
      have hnot := hcommit.not_pending (.fooAlloc id)
      obtain ⟨call, phase', hpending, _, rfl⟩ := hcommit
      cases (Spec.after_status ..).symm.trans hstatus
      refine (hphase id phase hpending hstatus).resolve_left ?_
      rintro rfl
      exact hnot hstatus
    · obtain ⟨call, hpending⟩ := hagain.pending
      exact absurd hpending (hcommit.not_pending call)
  | free heq => exact absurd heq (hop _)

theorem solo {call : Call A} {program : FooProg A (Option A)} {here : Local A}
    (hwp : Wp (theory guard (ok t)) (fun _ => False) (Ends call) program here)
    {trace : List (Event A T)} (htrace : Trace pkg trace world) (hsim : Sim guard ok world gh)
    (hjob : (world.thread t).job = some (call, program)) (hhere : gh.loc world.mem t = here)
    (hothers : Others pkg t world gh)
    (hchoosable : ∀ id, gh.status t = some (.fooAlloc id, .pending) → Choosable (ok t) gh.toSpec) :
    ∃ world' gh', Solo guard ok pkg t trace gh.toSpec world' gh' := by
  induction hwp generalizing world gh with
  | @ret value here hpost =>
    subst hhere
    refine ⟨world, gh, htrace, hsim, fun t' => ?_, .inl rfl, fun call' hpending => ?_⟩
    · rcases eq_or_ne t' t with rfl | ht
      · rw [hjob]
        exact .finished hpost
      · exact hothers t' ht
    · cases hpost.status.symm.trans hpending
  | fail hpost => exact hpost.elim
  | @call op next here accepted hopeless hmay hnext hgive ih =>
    subst hhere
    obtain ⟨phase, hstatus⟩ := hsim.busy hjob
    by_cases hfree : ∃ fp, op = .free fp
    · obtain ⟨fp, rfl⟩ := hfree
      cases hmay with
      | free hpriv htable hheld hpend hfreeing hgains =>
        refine ⟨world, gh, htrace, hsim, fun t' => ?_, .inl rfl, fun call' hpending => ?_⟩
        · rcases eq_or_ne t' t with rfl | ht
          · cases hstatus.symm.trans hfreeing
            rw [hjob]
            exact .freeing hfreeing htable hheld
          · exact hothers t' ht
        · cases hfreeing.symm.trans hpending
    · have hop : ∀ fp, op ≠ .free fp := fun fp heq => hfree ⟨fp, heq⟩
      obtain ⟨choice, hallowed, hwaits⟩ := hsim.goes hothers hmay hchoosable
      obtain ⟨hfault, hok⟩ := hsim.move hstatus hmay hnext hallowed
      cases hexec : exec t choice op world.mem with
      | ok result =>
        obtain ⟨gh', hsim', hadvance, hsame, hkeeps, haccepted⟩ := hok result.1 result.2 hexec
        have htrace' := htrace.run (World.run_op hjob hexec)
        rw [Op.events_eq_nil hop, List.append_nil] at htrace'
        have hjob' : ((world.after t call op result.2 (next result.1)).thread t).job =
            some (call, next result.1) := by
          simp [World.after, World.withThread]
        have hothers' : Others pkg t (world.after t call op result.2 (next result.1)) gh' := by
          intro t' ht
          have hrests := hothers t' ht
          rw [← hsame t' ht] at hrests
          simpa [World.after, World.withThread, ht] using hrests
        have hchoosable' : ∀ id, gh'.status t = some (.fooAlloc id, .pending) →
            Choosable (ok t) gh'.toSpec := by
          intro id hid
          cases hadvance with
          | same _ heq =>
            rw [heq] at hid ⊢
            exact hchoosable id hid
          | commit _ hcommit => exact absurd hid (hcommit.not_pending _)
          | free heq => exact absurd heq (hop _)
        obtain ⟨world'', gh'', hsolo⟩ :=
          ih _ _ haccepted htrace' hsim' hjob' rfl hothers' hchoosable'
        exact ⟨world'', gh'', { hsolo with
          settles := hsolo.settles.advance hop hadvance hkeeps.phase }⟩
      | blocked => exact absurd (exec_blocked hexec) hwaits
      | fault => exact absurd hexec hfault
  | @loop σ τ body start next here hlive hunroll ih =>
    subst hhere
    have hrun : world.run t ⟨none, 0, 0, none, false⟩ = .ok ([], world.withThread t
        { world.thread t with job := some (call, Prog.unroll body start next) }) := by
      unfold World.run
      rw [hjob]
    have htrace' := htrace.run hrun
    rw [List.append_nil] at htrace'
    refine ih htrace' (hsim.unroll hjob) ?_ rfl ?_ hchoosable
    · simp [World.withThread]
    · intro t' ht
      simpa [World.withThread, ht] using hothers t' ht

end Solo

section Backward

variable {A T : Type} [DecidableEq A] [DecidableEq T] [Fintype T] {guard : Guard}
  {ok : T → Phase A → Prop} {pkg : Package A} {world : World A T} {gh : Ghost A T} {t : T}
  {trace : List (Event A T)}

/-- A run of the implementation after which all threads rest. -/
structure Resting (guard : Guard) (pkg : Package A) (trace : List (Event A T)) (spec : Spec A T)
    (ok : T → Phase A → Prop) (world : World A T) (gh : Ghost A T) : Prop where
  trace : Trace pkg trace world
  sim : Sim guard ok world gh
  rests : ∀ t, Rests pkg (world.thread t).job (gh.loc world.mem t)
  spec : gh.toSpec = spec

namespace Resting

theorem invoke {spec : Spec A T} (hobeys : Obeys pkg guard)
    (hresting : Resting guard pkg trace spec ok world gh) {call : Call A}
    (hidle : spec.status t = none) (hmay : mayCall (spec.owned t) call) :
    ∃ world' gh', Resting guard pkg (trace ++ [.invoke t call])
      ({ spec with
        owned := update spec.owned t fun fp =>
          spec.owned t fp - one call.takes fp }.withStatus t (some (call, .pending)))
      ok world' gh' := by
  obtain ⟨htrace, hsim, hrests, rfl⟩ := hresting
  have hjob := (hrests t).of_none hidle
  have howned : (world.thread t).owned = gh.owned t := (hsim.fits t).owned
  have hinvoke : world.invoke pkg t call =
      some (world.withThread t ((world.thread t).start pkg call)) := by
    unfold World.invoke
    rw [hjob, howned]
    exact if_pos hmay
  obtain ⟨_, _, gh', hsim', hspec, _, hjob', hstarted, hothers⟩ := hsim.invoke hobeys hinvoke
  refine ⟨_, gh', htrace.invoke hinvoke, hsim', fun t' => ?_, hspec⟩
  rcases eq_or_ne t' t with rfl | ht
  · rw [hjob']
    exact .started hstarted
  · rw [(hothers t' ht).1, (hothers t' ht).2]
    exact hrests t'

theorem result {spec : Spec A T} (hresting : Resting guard pkg trace spec ok world gh)
    {call : Call A} {value : Option A} (hstatus : spec.status t = some (call, .finished value)) :
    ∃ world' gh', Resting guard pkg (trace ++ [.result t value])
      ({ spec with
        owned := update spec.owned t fun fp =>
          spec.owned t fp + one (call.gains value) fp }.withStatus t none)
      ok world' gh' := by
  obtain ⟨htrace, hsim, hrests, rfl⟩ := hresting
  have hjob := (hrests t).of_finished hstatus
  have hrun : world.run t ⟨none, 0, 0, none, false⟩ =
      .ok ([.result t value], world.withThread t ((world.thread t).finish call value)) := by
    unfold World.run
    rw [hjob]
  obtain ⟨_, gh', hsim', hspec, _, hidle, hothers⟩ := hsim.finish hjob
  refine ⟨_, gh', htrace.run hrun, hsim', fun t' => ?_, hspec⟩
  rcases eq_or_ne t' t with rfl | ht
  · simpa [World.withThread, Thread.finish] using Rests.idle hidle
  · have hrest := hrests t'
    rw [← hothers t' ht] at hrest
    simpa [World.withThread, ht] using hrest

omit [DecidableEq T] in
/-- The phase of a call decides what the system has to choose. -/
theorem choosable {spec : Spec A T} {id : Int} {phase : Phase A}
    (heffect : spec.Effect (.fooAlloc id) phase) : Choosable (· = phase) spec := by
  cases phase with
  | pending => exact False.elim heffect
  | freeing fp value =>
    cases value with
    | none => exact .inr ⟨fp, heffect, .inr rfl⟩
    | some _ => exact False.elim heffect
  | finished value =>
    cases value with
    | none => exact .inl rfl
    | some fp => exact .inr ⟨fp, heffect, .inl rfl⟩

theorem commit {spec spec' : Spec A T} (hobeys : Obeys pkg guard)
    (hresting : Resting guard pkg trace spec ok world gh) (hcommit : Commit t spec spec') :
    ∃ ok' world' gh', Resting guard pkg trace spec' ok' world' gh' := by
  obtain ⟨htrace, hsim, hrests, rfl⟩ := hresting
  have hcommit' := hcommit
  obtain ⟨call, phase, hstatus, heffect, rfl⟩ := hcommit
  obtain ⟨hjob, hstarted⟩ := (hrests t).of_pending hstatus
  have hwp := hobeys (· = phase) call _ hstarted
  have hsim' : Sim guard (update ok t (· = phase)) world gh := by
    refine ⟨hsim.inv, fun t' => ?_⟩
    have hfits := hsim.fits t'
    rcases eq_or_ne t' t with rfl | ht
    · rw [update_self]
      refine ⟨hfits.owned, hfits.inCall, ?_⟩
      rw [hjob]
      exact .busy hstarted.status hwp
    · rwa [update_of_ne ht]
  have hself : update ok t (· = phase) t = (· = phase) := update_self ..
  rw [← hself] at hwp
  obtain ⟨world', gh', hsolo⟩ := solo hwp htrace hsim' hjob rfl (fun t' _ => hrests t')
    fun id hid => by
      cases hstatus.symm.trans hid
      rw [hself]
      exact choosable heffect
  refine ⟨_, world', gh', hsolo.trace, hsolo.sim, hsolo.rests, ?_⟩
  rcases hsolo.settles with hsame | ⟨hagain, hphase⟩
  · rw [← hsame] at hstatus
    exact absurd hstatus (hsolo.done call)
  · refine hagain.unique hcommit' fun id phase' hphase' => ?_
    have hok := hphase id phase' hphase'
    rw [hself] at hok
    subst hok
    obtain ⟨call', phase'', hstatus', _, heq⟩ := hagain
    cases hstatus.symm.trans hstatus'
    rw [heq, Spec.after_status] at hphase'
    cases hphase'
    exact Spec.after_status ..

theorem free {spec : Spec A T} (hresting : Resting guard pkg trace spec ok world gh) {call : Call A}
    {fp : A} {value : Option A} (hstatus : spec.status t = some (call, .freeing fp value)) :
    ∃ world' gh', Resting guard pkg (trace ++ [.free t fp])
      (spec.withStatus t (some (call, .finished value))) ok world' gh' := by
  obtain ⟨htrace, hsim, hrests, rfl⟩ := hresting
  obtain ⟨next, hjob⟩ := (hrests t).of_freeing hstatus
  have hpoint := (hsim.fits t).point
  rw [hjob] at hpoint
  cases hpoint with
  | busy _ hwp =>
    cases hwp with
    | call accepted hopeless hmay hnext hgive =>
      let choice : Choice A := ⟨none, 0, 0, none, false⟩
      have hallowed : Allowed (ok t) choice (.free fp) := trivial
      obtain ⟨hfault, hok⟩ := hsim.move hstatus hmay hnext hallowed
      cases hexec : exec t choice (.free fp) world.mem with
      | ok result =>
        obtain ⟨gh', hsim', hadvance, hsame, _, haccepted⟩ := hok result.1 result.2 hexec
        have htrace' := htrace.run (World.run_op hjob hexec)
        have hspec : gh'.toSpec = gh.toSpec.withStatus t (some (call, .finished value)) := by
          cases hadvance with
          | same hop | commit hop => exact absurd rfl (hop fp)
          | free hop hstatus' heq =>
            cases hop
            cases hstatus.symm.trans hstatus'
            exact heq
        have hfinished : gh'.status t = some (call, .finished value) := by
          rw [hspec]
          exact update_self ..
        have hjob' : ((world.after t call (.free fp) result.2 (next result.1)).thread t).job =
            some (call, next result.1) := by
          simp [World.after, World.withThread]
        have hothers : Others pkg t (world.after t call (.free fp) result.2 (next result.1))
            gh' := by
          intro t' ht
          have hrest := hrests t'
          rw [← hsame t' ht] at hrest
          simpa [World.after, World.withThread, ht] using hrest
        obtain ⟨world'', gh'', hsolo⟩ := solo (hnext _ _ haccepted) htrace' hsim' hjob' rfl
          hothers fun id hid => by cases hfinished.symm.trans hid
        refine ⟨world'', gh'', hsolo.trace, hsolo.sim, hsolo.rests, ?_⟩
        rcases hsolo.settles with heq | ⟨hagain, _⟩
        · rw [heq, hspec]
        · obtain ⟨call', hpending⟩ := hagain.pending
          cases hfinished.symm.trans hpending
      | blocked => cases exec_blocked hexec
      | fault => exact absurd hexec hfault

end Resting

theorem SpecTrace.impl (hobeys : Obeys pkg guard) {spec : Spec A T}
    (htrace : SpecTrace trace spec) :
    ∃ ok world gh, Resting guard pkg trace spec ok world gh := by
  induction htrace with
  | start =>
    exact ⟨fun _ _ => True, .initial A T, .initial A T, .start, .initial,
      fun t => .idle ⟨rfl, rfl, rfl, rfl, rfl, rfl⟩, rfl⟩
  | invoke _ hidle hmay ih =>
    obtain ⟨ok, world, gh, hresting⟩ := ih
    exact ⟨ok, hresting.invoke hobeys hidle hmay⟩
  | commit _ hcommit ih =>
    obtain ⟨ok, world, gh, hresting⟩ := ih
    exact hresting.commit hobeys hcommit
  | free _ hstatus ih =>
    obtain ⟨ok, world, gh, hresting⟩ := ih
    exact ⟨ok, hresting.free hstatus⟩
  | result _ hstatus ih =>
    obtain ⟨ok, world, gh, hresting⟩ := ih
    exact ⟨ok, hresting.result hstatus⟩

end Backward

/-- For every run of the first implementation there is one of the second with the same calls,
the same results and the same objects freed. -/
def Refines (A T : Type) [DecidableEq A] [DecidableEq T] (pkg pkg' : Package A) : Prop :=
  ∀ (trace : List (Event A T)) (world : World A T), Trace pkg trace world →
    ∃ world' : World A T, Trace pkg' trace world' ∧
      ∀ fp, world'.mem.cell fp = .freed ↔ world.mem.cell fp = .freed

theorem refines_of_obeys {A T : Type} [DecidableEq A] [DecidableEq T] [Fintype T]
    {pkg pkg' : Package A} {guard guard' : Guard} (hobeys : Obeys pkg guard)
    (hobeys' : Obeys pkg' guard') : Refines A T pkg pkg' := by
  intro trace world htrace
  obtain ⟨gh, hspec, _⟩ := htrace.spec hobeys
  obtain ⟨ok, world', gh', hresting⟩ := hspec.impl hobeys'
  refine ⟨world', hresting.trace, fun fp => ?_⟩
  rcases hresting.trace.frees fp with ⟨hfreed, hcount⟩ | ⟨hfreed, hcount⟩ <;>
    rcases htrace.frees fp with ⟨hfreed', hcount'⟩ | ⟨hfreed', hcount'⟩
  · exact iff_of_true hfreed hfreed'
  · omega
  · omega
  · exact iff_of_false hfreed hfreed'

/-- The two locks of `mutex2.c` and the one lock of `mutex3.c` cannot be told apart. -/
theorem mutex2_mutex3_equivalent (A T : Type) [DecidableEq A] [DecidableEq T] [Fintype T] :
    Refines A T mutex2 mutex3 ∧ Refines A T mutex3 mutex2 :=
  ⟨refines_of_obeys mutex2_obeys mutex3_obeys, refines_of_obeys mutex3_obeys mutex2_obeys⟩

end ApueFormal.Threads
