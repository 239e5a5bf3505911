import ApueFormal.Threads.Frames

/-!
# The moves are sound

A move of a thread is safe in every memory that the invariant allows: the operation is no
fault, the invariant holds again, the other threads know what they knew, and the object
stays as it is or the call of the thread takes effect.
-/

namespace ApueFormal.Threads

open Function Program

/-- What an operation of a thread does to the object. -/
inductive Advance {A T : Type} [DecidableEq A] [DecidableEq T] [Fintype T] (t : T) (op : Op A)
    (spec spec' : Spec A T) : Prop where
  | same (hop : ∀ fp, op ≠ .free fp) (heq : spec' = spec)
  | commit (hop : ∀ fp, op ≠ .free fp) (hcommit : Commit t spec spec')
  | free {call : Call A} {fp : A} {value : Option A} (hop : op = .free fp)
      (hstatus : spec.status t = some (call, .freeing fp value))
      (heq : spec' = spec.withStatus t (some (call, .finished value)))

/-- An operation of a thread leads to a state in which the thread knows `after`. -/
structure Reaches {A T : Type} [DecidableEq A] [DecidableEq T] [Fintype T] (guard : Guard) (t : T)
    (op : Op A) (mem : Mem A T) (gh : Ghost A T) (mem' : Mem A T) (gh' : Ghost A T)
    (after : Local A) : Prop where
  inv : Inv guard mem' gh'
  here : gh'.loc mem' t = after := by simp [Ghost.loc]
  others : ∀ t' ≠ t, gh'.loc mem' t' = gh.loc mem t' := by
    intro t' ht
    simp [Ghost.loc, ht]
  advance : Advance t op gh.toSpec gh'.toSpec

section Soundness

variable {A T : Type} [DecidableEq A] [DecidableEq T] [Fintype T] {guard : Guard}
  {ok : Phase A → Prop} {mem : Mem A T} {gh : Ghost A T} {t : T} {fp : A} {choice : Choice A}

/-- The operation is no fault, and it leads to what is accepted. -/
def Safe (guard : Guard) (t : T) (op : Op A) (mem : Mem A T) (gh : Ghost A T)
    (accepted : op.Answer → Local A → Prop) : Outcome (op.Answer × Mem A T) → Prop
  | .ok result => ∃ gh' after, Reaches guard t op mem gh result.2 gh' after ∧
      accepted result.1 after
  | .blocked => True
  | .fault => False

variable (hinv : Inv guard mem gh)
include hinv

theorem lockHash_reaches (hfree : mem.hashlock = none) :
    Reaches guard t .lockHash mem gh { mem with hashlock := some t } gh
      { gh.loc mem t with table := some gh.table } where
  inv := hinv.takeHash hfree
  others t' ht := by simp [Ghost.loc, hfree, tableFor_of_ne ht]
  advance := .same nofun rfl

theorem unlockHash_reaches (hhash : mem.hashlock = some t) (hpend : gh.pend t = none) :
    ∃ gh', Reaches guard t .unlockHash mem gh { mem with hashlock := none } gh'
        ((gh.loc mem t).dropTable guard) ∧ gh'.toSpec = gh.toSpec := by
  cases guard with
  | own =>
    refine ⟨gh, ⟨hinv.giveHash hhash nofun hpend, ?_, ?_, .same nofun rfl⟩, rfl⟩
    · simp [Ghost.loc, Local.dropTable]
    · intro t' ht
      simp [Ghost.loc, hhash, tableFor_of_ne ht]
  | hash =>
    have hforget := hinv.forget t
    refine ⟨_, ⟨hforget.giveHash hhash (fun _ => update_self ..) hpend, ?_, ?_,
      .same nofun rfl⟩, rfl⟩
    · simp [Ghost.loc, Local.dropTable]
    · intro t' ht
      simp [Ghost.loc, hhash, ht, tableFor_of_ne ht]

variable {id count : Int} {foo : Foo A T} {op : Op A} {draft : Draft A}

theorem notFound_reaches (hhash : mem.hashlock = some t)
    (hpend : gh.pend t = none) (hpriv : gh.priv t = none)
    (hstatus : gh.status t = some (.fooFind id, .pending)) (hlookup : lookup gh.table id = none) :
    ∃ gh', Reaches guard t .unlockHash mem gh { mem with hashlock := none } gh'
      { (gh.loc mem t).dropTable guard with status := some (.fooFind id, .finished none) } := by
  have hinv' : Inv guard mem
      { gh with status := update gh.status t (some (.fooFind id, .finished none)) } :=
    hinv.setStatus hpriv fun ptr => by rw [hstatus]; rfl
  obtain ⟨gh', hreaches, hspec⟩ := unlockHash_reaches hinv' hhash hpend
  refine ⟨gh', hreaches.inv, hreaches.here.trans ?_, fun t' ht => ?_, ?_⟩
  · cases guard <;> simp [Ghost.loc, Local.dropTable]
  · rw [hreaches.others t' ht]
    simp [Ghost.loc, ht]
  · rw [hspec]
    exact .commit (by rintro _ ⟨⟩) ⟨.fooFind id, .finished none, hstatus, hlookup.symm, rfl⟩

section

variable (hcell : mem.cell fp = .live foo)
include hcell

theorem lock_reaches (hfree : foo.fLock = some none) (hin : InTable gh.table fp)
    (hheld : gh.held t = none) (hguard : guard = .hash → gh.inCall t = some fp) :
    Reaches guard t (.lock fp) mem gh (mem.put fp { foo with fLock := some (some t) })
      { gh with held := update gh.held t (some fp) } { gh.loc mem t with held := some fp } where
  inv := by
    have hmutex : mem.mutex fp = some (some none) := by rw [Mem.mutex, Mem.view_live hcell, hfree]
    refine hinv.changeLock hcell (by simp [hfree]) (fun t' => ?_) (fun ptr hptr => ?_)
      (fun _ => .inl hin) (fun hhash _ => hguard hhash) (fun hown => ?_)
    · rcases eq_or_ne t' t with rfl | ht
      · simp
      · rw [update_of_ne ht, hinv.locked.held, hmutex]
        simp [ht.symm]
    · simp [hheld, hptr.symm]
    · subst hown
      by_contra hsome
      obtain ⟨entry, hentry⟩ := Option.ne_none_iff_exists'.mp hsome
      obtain ⟨_, hprotects, _⟩ := hinv.knows.known _ _ _ hentry
      cases hheld.symm.trans hprotects
  advance := .same nofun rfl

theorem unlock_reaches (hlock : foo.fLock = some (some t)) (hheld : gh.held t = some fp) :
    ∃ gh', Reaches guard t (.unlock fp) mem gh (mem.put fp { foo with fLock := some none }) gh'
        ((gh.loc mem t).dropHeld guard) := by
  have hchange : ∀ gh' : Ghost A T, Inv guard mem gh' → gh'.held = gh.held →
      (guard = .own → gh'.known t = none) → Inv guard (mem.put fp { foo with fLock := some none })
        { gh' with held := update gh'.held t none } := by
    intro gh' hinv' hsame hknown
    refine hinv'.changeLock hcell (by simp [hlock]) (fun t' => ?_) (fun ptr hptr => ?_)
      (by rintro ⟨⟩) (by rintro _ ⟨⟩) hknown
    · rw [hsame]
      refine iff_of_false (fun hupdate => ?_) (by rintro ⟨⟩)
      rcases update_cases hupdate with ⟨_, heq⟩ | ⟨ht, hheld'⟩
      · cases heq
      · exact ht (hinv.held_unique hheld' hheld)
    · simp [hsame, hheld, hptr.symm]
  cases guard with
  | own =>
    have hforget := hinv.forget t
    refine ⟨_, hchange _ hforget rfl fun _ => update_self .., ?_, ?_, .same (by rintro _ ⟨⟩) rfl⟩
    · simp [Ghost.loc, Local.dropHeld]
    · intro t' ht
      simp [Ghost.loc, ht]
  | hash =>
    refine ⟨_, hchange _ hinv rfl (by rintro ⟨⟩), ?_, ?_, .same (by rintro _ ⟨⟩) rfl⟩
    · simp [Ghost.loc, Local.dropHeld]
    · intro t' ht
      simp [Ghost.loc, ht]

omit hcell in
theorem Reaches.refl (hop : ∀ fp, op ≠ .free fp) :
    Reaches guard t op mem gh mem gh (gh.loc mem t) :=
  ⟨hinv, rfl, fun _ _ => rfl, .same hop rfl⟩

theorem getCount_reaches (hguards : (gh.loc mem t).Guards fp guard) :
    Reaches guard t (.getCount fp) mem gh mem
      { gh with known := update gh.known t (some (fp, foo.fCount)) }
      { gh.loc mem t with known := some (fp, foo.fCount) } where
  inv := by
    cases guard with
    | own =>
      obtain ⟨hheld, hpriv⟩ := hguards
      have hnone : mine gh.priv t = none := mine_eq_none hpriv
      exact hinv.learn ((hinv.placed.held _ _ hheld).resolve_right (by simp [hnone])) hheld
        (Mem.view_live hcell)
    | hash =>
      obtain ⟨table, htable, hin⟩ := hguards
      obtain ⟨hhash, rfl⟩ := tableFor_eq_some.mp htable
      exact hinv.learn hin hhash (Mem.view_live hcell)
  advance := .same nofun rfl

/-! ### Objects of the thread -/

omit hcell in
theorem put_reaches {foo' : Foo A T} {draft' : Draft A}
    (hop : ∀ fp, op ≠ .free fp) (hcell : mem.cell fp = .live foo)
    (hpriv : gh.priv t = some (fp, draft)) (hdescribes : draft'.Describes foo')
    (hlock : ∀ t', foo'.fLock = some (some t') ↔ foo.fLock = some (some t'))
    (hcount : draft'.count = draft.count) :
    Reaches guard t op mem gh (mem.put fp foo')
      { gh with priv := update gh.priv t (some (fp, draft')) }
      { gh.loc mem t with priv := some (fp, draft') } where
  inv := hinv.putPrivate hpriv hcell hdescribes hlock fun hinCall =>
    hcount.trans (hinv.drafted.count _ _ _ hpriv hinCall)
  advance := .same hop rfl

theorem draftCount_reaches (hpriv : gh.priv t = some (fp, draft))
    (hdescribes : draft.Describes foo) (hinCall : gh.inCall t = none) :
    Reaches guard t (.setCount fp 1) mem gh (mem.put fp { foo with fCount := 1 })
      { gh with
        priv := update gh.priv t (some (fp, { draft with count := 1 }))
        inCall := update gh.inCall t (some fp) }
      { gh.loc mem t with priv := some (fp, { draft with count := 1 }), inCall := some fp } where
  inv := by
    have hput : Inv guard (mem.put fp { foo with fCount := 1 })
        { gh with priv := update gh.priv t (some (fp, { draft with count := 1 })) } :=
      hinv.putPrivate hpriv hcell { hdescribes with count := rfl } (fun _ => Iff.rfl) (fun _ => rfl)
    exact hput.refer (update_self ..) rfl hinCall
  advance := .same nofun rfl

omit hcell in
theorem malloc_reaches (hcell : mem.cell fp = .fresh) (hpriv : gh.priv t = none)
    (hinCall : gh.inCall t = none) (hstatus : gh.status t = some (.fooAlloc id, .pending))
    (hdescribes : draft.Describes foo) (hlock : foo.fLock = none) :
    Reaches guard t .malloc mem gh (mem.put fp foo)
      { gh with priv := update gh.priv t (some (fp, draft)) }
      { gh.loc mem t with priv := some (fp, draft) } where
  inv := hinv.allocate hcell hpriv hinCall hstatus hdescribes hlock
  advance := .same nofun rfl

omit hcell in
theorem noMemory_reaches (hpriv : gh.priv t = none)
    (hstatus : gh.status t = some (.fooAlloc id, .pending)) :
    Reaches guard t .malloc mem gh mem
      { gh with status := update gh.status t (some (.fooAlloc id, .finished none)) }
      { gh.loc mem t with status := some (.fooAlloc id, .finished none) } where
  inv := hinv.setStatus hpriv fun ptr => by rw [hstatus]; rfl
  advance := .commit nofun ⟨.fooAlloc id, .finished none, hstatus, trivial, rfl⟩

omit hcell in
theorem noMutex_reaches (hpriv : gh.priv t = some (fp, draft))
    (hinCall : gh.inCall t = some fp) (hstatus : gh.status t = some (.fooAlloc id, .pending)) :
    Reaches guard t (.mutexInit fp) mem gh mem
      { gh with
        used := update gh.used fp True
        status := update gh.status t (some (.fooAlloc id, .freeing fp none)) }
      { gh.loc mem t with status := some (.fooAlloc id, .freeing fp none) } where
  inv := hinv.spend hpriv hinCall hstatus
  advance := .commit nofun
    ⟨.fooAlloc id, .freeing fp none, hstatus, hinv.not_used hpriv hstatus, rfl⟩

omit hcell in
theorem publish_reaches (hhash : mem.hashlock = some t)
    (hstatus : gh.status t = some (.fooAlloc draft.id, .pending))
    (hpriv : gh.priv t = some (fp, draft)) (hinCall : gh.inCall t = some fp)
    (hinited : draft.inited = true) (hpend : gh.pend t = none)
    (hnext : draft.next = headOf (gh.table (hash draft.id))) :
    Reaches guard t (.setHead (hash draft.id) (some fp)) mem gh
      { mem with fh := update mem.fh (hash draft.id) (some fp) }
      { gh with
        table := insert gh.table fp draft.id
        used := update gh.used fp True
        status := update gh.status t (some (.fooAlloc draft.id, .finished (some fp)))
        priv := update gh.priv t none }
      { gh.loc mem t with
        status := some (.fooAlloc draft.id, .finished (some fp))
        table := some (insert gh.table fp draft.id)
        priv := none } where
  inv := hinv.publish hpriv hinCall hinited hpend hnext
  here := by simp [Ghost.loc, hhash]
  others t' ht := by simp [Ghost.loc, hhash, ht, tableFor_of_ne ht]
  advance := .commit nofun
    ⟨.fooAlloc draft.id, .finished (some fp), hstatus, hinv.not_used hpriv hstatus, rfl⟩

omit hcell in
theorem free_reaches (hpriv : gh.priv t = some (fp, draft))
    (hheld : gh.held t = none) (hpend : gh.pend t = none) {call : Call A} {value : Option A}
    (hstatus : gh.status t = some (call, .freeing fp value)) (hgains : call.gains value = none) :
    Reaches guard t (.free fp) mem gh { mem with cell := update mem.cell fp .freed }
      { gh with
        status := update gh.status t (some (call, .finished value))
        priv := update gh.priv t none
        inCall := update gh.inCall t none }
      { gh.loc mem t with
        status := some (call, .finished value)
        priv := none
        inCall := none } where
  inv := hinv.discard hpriv hheld hpend hstatus hgains
  advance := .free rfl hstatus rfl

/-! ### Objects of the table -/

section

variable (hknown : gh.known t = some (fp, count))
include hknown

variable (hpriv : gh.priv t = none)
include hpriv

theorem recount_reaches {count' : Int} {inCall pend : Option A} {status : Status A}
    (hcount : count' + one (gh.inCall t) fp = count + one inCall fp)
    (hinCall : ∀ ptr, gh.inCall t = some ptr → ptr = fp)
    (hnew : ∀ ptr, inCall = some ptr → ptr = fp)
    (hrefs : ∀ ptr, refs status ptr = one inCall ptr + one pend ptr)
    (hheld : guard = .hash → gh.held t = none) (hpend : pend ≠ none → guard = .hash)
    (hpos : guard = .own → count' ≠ 0)
    (hadvance : Advance t (.setCount fp count') gh.toSpec (gh.toSpec.withStatus t status)) :
    Reaches guard t (.setCount fp count') mem gh (mem.put fp { foo with fCount := count' })
      { gh with
        status := update gh.status t status
        inCall := update gh.inCall t inCall
        known := update gh.known t (some (fp, count'))
        pend := update gh.pend t pend }
      { gh.loc mem t with
        status := status
        inCall := inCall
        known := some (fp, count')
        pend := pend } where
  inv := hinv.recount hknown hcell hpriv hcount hinCall hnew hrefs hheld hpend hpos
  advance := hadvance

theorem gain_reaches (hinCall : gh.inCall t = none) {call : Call A} {value : Option A}
    (hstatus : gh.status t = some (call, .pending))
    (hrefs : ∀ ptr, refs (some (call, .pending)) ptr = 0) (hgains : call.gains value = some fp)
    (heffect : gh.toSpec.Effect call (.finished value))
    (hafter : gh.toSpec.after t call (.finished value) =
      gh.toSpec.withStatus t (some (call, .finished value))) :
    Reaches guard t (.setCount fp (count + 1)) mem gh (mem.put fp { foo with fCount := count + 1 })
      { gh with
        status := update gh.status t (some (call, .finished value))
        inCall := update gh.inCall t (some fp)
        known := update gh.known t (some (fp, count + 1))
        pend := update gh.pend t (gh.pend t) }
      { gh.loc mem t with
        status := some (call, .finished value)
        inCall := some fp
        known := some (fp, count + 1) } := by
  have hpend : gh.pend t = none :=
    hinv.pend_eq_none hpriv fun ptr => by rw [hstatus, hrefs, hinCall, one_none]
  have hcount := hinv.known_count hknown
  refine recount_reaches hinv hcell hknown hpriv ?_ ?_ ?_ ?_ ?_ ?_ (fun _ => by omega) ?_
  · simp [hinCall]
  · simp [hinCall]
  · simp [eq_comm]
  · intro ptr
    rw [refs_finished, hgains, hpend]
    rfl
  · intro hguard
    by_contra hsome
    obtain ⟨ptr, hheld⟩ := Option.ne_none_iff_exists'.mp hsome
    cases hinCall.symm.trans (hinv.holds hguard _ _ hheld)
  · simp [hpend]
  · exact .commit (by rintro _ ⟨⟩) ⟨call, .finished value, hstatus, heffect, hafter.symm⟩

theorem release_reaches (hinCall : gh.inCall t = some fp) (hheld : guard = .hash → gh.held t = none)
    (hstatus : gh.status t = some (.fooRele fp, .pending)) (hcount : count ≠ 1) :
    Reaches guard t (.setCount fp (count - 1)) mem gh (mem.put fp { foo with fCount := count - 1 })
      { gh with
        status := update gh.status t (some (.fooRele fp, .finished none))
        inCall := update gh.inCall t none
        known := update gh.known t (some (fp, count - 1))
        pend := update gh.pend t (gh.pend t) }
      { gh.loc mem t with
        status := some (.fooRele fp, .finished none)
        inCall := none
        known := some (fp, count - 1) } := by
  have hpend : gh.pend t = none :=
    hinv.pend_eq_none hpriv fun ptr => by rw [hstatus, hinCall]; rfl
  have htotal := hinv.total hknown
  rw [hpend, one_none] at htotal
  refine recount_reaches hinv hcell hknown hpriv ?_ ?_ (by rintro _ ⟨⟩) ?_ hheld ?_
    (fun _ => by omega) ?_
  · simp [hinCall]
  · simp [hinCall, eq_comm]
  · intro ptr
    rw [hpend]
    rfl
  · simp [hpend]
  · refine .commit (by rintro _ ⟨⟩) ⟨.fooRele fp, .finished none, hstatus, ?_, rfl⟩
    change gh.toSpec.total fp ≠ 1
    omega

end

theorem releaseLast_reaches (hguard : guard = .hash) (hknown : gh.known t = some (fp, 1))
    (hpriv : gh.priv t = none) (hinCall : gh.inCall t = some fp) (hheld : gh.held t = none)
    (hstatus : gh.status t = some (.fooRele fp, .pending)) :
    Reaches guard t (.setCount fp 0) mem gh (mem.put fp { foo with fCount := 0 })
      { gh with
        status := update gh.status t (gh.status t)
        inCall := update gh.inCall t none
        known := update gh.known t (some (fp, 0))
        pend := update gh.pend t (some fp) }
      { gh.loc mem t with known := some (fp, 0), inCall := none, pend := some fp } := by
  refine recount_reaches hinv hcell hknown hpriv ?_ ?_ (by rintro _ ⟨⟩) ?_ (fun _ => hheld)
    (fun _ => hguard) (fun hown => by cases hguard.symm.trans hown) ?_
  · simp [hinCall]
  · simp [hinCall, eq_comm]
  · intro ptr
    rw [hstatus, one_none, Nat.zero_add]
    rfl
  · refine .same (by rintro _ ⟨⟩) ?_
    rw [Spec.withStatus, update_eq_self]

end

omit hinv in
omit [Fintype T] in
theorem doomed_count (hdoomed : (gh.loc mem t).Doomed fp guard) :
    ∃ count : Int, gh.known t = some (fp, count) ∧ count = one (gh.inCall t) fp ∧
      count + one (gh.pend t) fp = 1 ∧ (∀ ptr, gh.inCall t = some ptr → ptr = fp) ∧
      (guard = .own → gh.inCall t = some fp) := by
  cases guard with
  | own =>
    obtain ⟨hknown, hinCall, hpend⟩ := hdoomed
    change gh.known t = _ at hknown
    change gh.inCall t = _ at hinCall
    change gh.pend t = _ at hpend
    exact ⟨1, hknown, by simp [hinCall], by simp [hpend], by simp [hinCall, eq_comm],
      fun _ => hinCall⟩
  | hash =>
    obtain ⟨hknown, hinCall, hpend⟩ := hdoomed
    change gh.known t = _ at hknown
    change gh.inCall t = _ at hinCall
    change gh.pend t = _ at hpend
    exact ⟨0, hknown, by simp [hinCall], by simp [hpend], by simp [hinCall], by rintro ⟨⟩⟩

theorem unlink_reaches (op : Op A) (hop : ∀ fp, op ≠ .free fp)
    (mem' : Mem A T) (hhash : mem.hashlock = some t)
    (hstatus : gh.status t = some (.fooRele fp, .pending)) (hpriv : gh.priv t = none)
    (hdoomed : (gh.loc mem t).Doomed fp guard) (hcell : mem.cell fp = .live foo)
    (hlinked : Linked mem'.look mem'.fh (remove gh.table fp)) (hmutex : mem'.mutex = mem.mutex)
    (hcounts : mem'.count = mem.count) (hlive : mem'.Live = mem.Live)
    (hgiven : mem'.Given = mem.Given) (hsame : mem'.hashlock = mem.hashlock)
    (hframe : ∀ ptr, ptr = fp ∨ ¬ InTable gh.table ptr → mem'.cell ptr = mem.cell ptr) :
    ∃ gh' draft, draft.inited = true ∧
      Reaches guard t op mem gh mem' gh' ((gh.loc mem t).unlinked gh.table fp draft) := by
  obtain ⟨count, hknown, hcount, htotal, hinCall, hown⟩ := doomed_count hdoomed
  have hin := (hinv.knows.known _ _ _ hknown).1
  have hlock : foo.fLock ≠ none := by
    have hmutex := hinv.locked.inited fp hin
    rw [Mem.mutex, Mem.view_live hcell] at hmutex
    exact fun heq => hmutex (congrArg some heq)
  have hone : gh.toSpec.total fp = 1 := by
    have := hinv.total hknown
    omega
  let draft : Draft A := ⟨foo.fCount, foo.fId, foo.fNext, true⟩
  have hdescribes : draft.Describes foo := ⟨rfl, rfl, rfl, by simp [draft, hlock]⟩
  refine ⟨_, draft, rfl, hinv.unlink hpriv hknown hcount hinCall hown hcell hdescribes hlinked
    hmutex hcounts hlive hgiven hsame hframe, ?_, ?_, ?_⟩
  · simp [Ghost.loc, Local.unlinked, hsame, hhash]
  · intro t' ht
    simp [Ghost.loc, hsame, hhash, ht, tableFor_of_ne ht]
  · exact .commit hop ⟨.fooRele fp, .freeing fp none, hstatus, ⟨rfl, hone⟩, rfl⟩

theorem unlinkNext_reaches (hhash : mem.hashlock = some t)
    {idx : Fin 29} {before rest : List (A × Int)} {prev : A} {prevId : Int}
    (hchain : gh.table idx = before ++ (prev, prevId) :: (fp, id) :: rest)
    (hstatus : gh.status t = some (.fooRele fp, .pending)) (hpriv : gh.priv t = none)
    (hdoomed : (gh.loc mem t).Doomed fp guard) :
    ∃ foo gh' draft, mem.cell prev = .live foo ∧ draft.inited = true ∧
      Reaches guard t (.setNext prev (headOf rest)) mem gh
        (mem.put prev { foo with fNext := headOf rest }) gh'
        ((gh.loc mem t).unlinked gh.table fp draft) := by
  have hprev : (prev, prevId) ∈ gh.table idx := by
    rw [hchain]
    simp
  have hmem : (fp, id) ∈ gh.table idx := by
    rw [hchain]
    simp
  obtain ⟨foo, hcell⟩ := hinv.live ⟨idx, id, hmem⟩
  obtain ⟨next, hlook⟩ := hinv.linked.get hprev
  obtain ⟨foo', hcell', heq⟩ := Mem.view_eq_some hlook
  have hne : fp ≠ prev := by
    have hnodup := hinv.linked.nodup idx
    rw [hchain] at hnodup
    simp only [List.map_append, List.map_cons, List.nodup_append, List.nodup_cons,
      List.mem_cons, not_or] at hnodup
    exact fun heq => hnodup.2.1.1.1 heq.symm
  have hlinked : Linked (mem.put prev { foo' with fNext := headOf rest }).look mem.fh
      (remove gh.table fp) := by
    rw [Mem.look, Mem.view_put]
    cases heq
    exact hinv.linked.removeNext hchain
  have hframe : ∀ ptr, ptr = fp ∨ ¬ InTable gh.table ptr →
      (mem.put prev { foo' with fNext := headOf rest }).cell ptr = mem.cell ptr := by
    intro ptr hptr
    refine update_of_ne ?_ _ _
    rintro rfl
    exact hptr.elim (fun heq => hne heq.symm) fun hout => hout ⟨idx, prevId, hprev⟩
  obtain ⟨gh', draft, hinited, hreaches⟩ := unlink_reaches hinv (.setNext prev (headOf rest))
    (by rintro _ ⟨⟩) _ hhash hstatus hpriv hdoomed hcell hlinked
    (Mem.view_put_same hcell' rfl) (Mem.view_put_same hcell' rfl) (Mem.live_put hcell')
    (Mem.given_put hcell') rfl hframe
  exact ⟨foo', gh', draft, hcell', hinited, hreaches⟩

omit hinv in
/-- The choices of the system that agree with the phases that `foo_alloc` may come to. -/
def Allowed (ok : Phase A → Prop) (choice : Choice A) : Op A → Prop
  | .malloc =>
    match choice.ptr with
    | none => ok (.finished none)
    | some fp => ok (.finished (some fp)) ∨ ok (.freeing fp none)
  | .mutexInit fp => if choice.initOk then ok (.finished (some fp)) else ok (.freeing fp none)
  | _ => True

variable {accepted : op.Answer → Local A → Prop}

omit hinv in
theorem Safe.of_ok {answer : op.Answer} {mem' : Mem A T} {gh' : Ghost A T} {after : Local A}
    (hexec : exec t choice op mem = .ok (answer, mem'))
    (hreaches : Reaches guard t op mem gh mem' gh' after) (haccepted : accepted answer after) :
    Safe guard t op mem gh accepted (exec t choice op mem) := by
  rw [hexec]
  exact ⟨gh', after, hreaches, haccepted⟩

theorem reach_inTable (hreach : Reach (gh.loc mem t) fp) : InTable gh.table fp := by
  cases hreach with
  | owned howned => exact hinv.placed.owned _ _ howned
  | inCall hinCall hpriv =>
    have hnone : mine gh.priv t = none := mine_eq_none hpriv
    exact (hinv.placed.inCall _ _ hinCall).resolve_right (by simp [hnone])
  | table htable hmem =>
    obtain ⟨_, rfl⟩ := tableFor_eq_some.mp htable
    exact hmem

theorem sees : Sees (gh.loc mem t) gh.table where
  hashed := hinv.linked.hashed
  nodup := hinv.linked.nodup
  owned fp howned := hinv.placed.owned t fp howned
  inCall _ hinCall hpriv := reach_inTable hinv (.inCall hinCall hpriv)

theorem lock_safe (hin : InTable gh.table fp) (hheld : gh.held t = none)
    (hguard : guard = .hash → gh.inCall t = some fp) :
    Safe guard t (.lock fp) mem gh (fun _ after => after = { gh.loc mem t with held := some fp })
      (exec t choice (.lock fp) mem) := by
  obtain ⟨foo, hcell⟩ := hinv.live hin
  rw [exec, Mem.onFoo_live hcell]
  cases hlock : foo.fLock with
  | none =>
    refine absurd ?_ (hinv.locked.inited _ hin)
    rw [Mem.mutex, Mem.view_live hcell, hlock]
  | some holder =>
    cases holder with
    | none => exact ⟨_, _, lock_reaches hinv hcell hlock hin hheld hguard, rfl⟩
    | some t' => trivial

theorem malloc_safe
    (hstatus : gh.status t = some (.fooAlloc id, .pending)) (hpriv : gh.priv t = none)
    (hinCall : gh.inCall t = none) (hallowed : Allowed ok choice .malloc) :
    Safe guard t .malloc mem gh (fun answer after =>
        (answer = none ∧ ok (.finished none) ∧
          after = { gh.loc mem t with status := some (.fooAlloc id, .finished none) }) ∨
        ∃ fp draft, answer = some fp ∧ (ok (.finished (some fp)) ∨ ok (.freeing fp none)) ∧
          after = { gh.loc mem t with priv := some (fp, draft) })
      (exec t choice .malloc mem) := by
  rw [exec]
  rw [Allowed] at hallowed
  cases hptr : choice.ptr with
  | none =>
    rw [hptr] at hallowed
    exact ⟨_, _, noMemory_reaches hinv hpriv hstatus, .inl ⟨rfl, hallowed, rfl⟩⟩
  | some fp =>
    rw [hptr] at hallowed
    cases hcell : mem.cell fp with
    | fresh =>
      have hdescribes : Draft.Describes ⟨choice.count, choice.id, choice.next, false⟩
          (⟨choice.count, none, choice.id, choice.next⟩ : Foo A T) :=
        ⟨rfl, rfl, rfl, by simp⟩
      simp only [hcell]
      exact ⟨_, _, malloc_reaches hinv hcell hpriv hinCall hstatus hdescribes rfl,
        .inr ⟨fp, _, rfl, hallowed, rfl⟩⟩
    | live foo | freed =>
      simp only [hcell]
      trivial

theorem mutexInit_safe (hstatus : gh.status t = some (.fooAlloc id, .pending))
    (hpriv : gh.priv t = some (fp, draft)) (hinCall : gh.inCall t = some fp)
    (hheld : gh.held t = none) (hallowed : Allowed ok choice (.mutexInit fp)) :
    Safe guard t (.mutexInit fp) mem gh (fun answer after =>
        (answer = true ∧ ok (.finished (some fp)) ∧
          after = { gh.loc mem t with priv := some (fp, { draft with inited := true }) }) ∨
        (answer = false ∧ ok (.freeing fp none) ∧
          after = { gh.loc mem t with status := some (.fooAlloc id, .freeing fp none) }))
      (exec t choice (.mutexInit fp) mem) := by
  obtain ⟨foo, hcell, hdescribes⟩ := hinv.drafted.describes _ _ _ hpriv
  have hfree := hinv.private_unlocked hpriv hheld hcell
  rw [exec, Mem.onFoo_live hcell]
  rw [Allowed] at hallowed
  cases hinit : choice.initOk with
  | true =>
    rw [if_pos hinit] at hallowed
    have hdescribes' : Draft.Describes { draft with inited := true }
        ({ foo with fLock := some none } : Foo A T) :=
      { hdescribes with inited := by simp }
    exact ⟨_, _, put_reaches hinv nofun hcell hpriv hdescribes' (fun t' => by simp [hfree t'])
      rfl, .inl ⟨rfl, hallowed, rfl⟩⟩
  | false =>
    rw [if_neg (by simp [hinit])] at hallowed
    exact ⟨_, _, noMutex_reaches hinv hpriv hinCall hstatus, .inr ⟨rfl, hallowed, rfl⟩⟩

theorem Move.sound (hmove : Move guard ok (gh.loc mem t) op accepted)
    (hallowed : Allowed ok choice op) : Safe guard t op mem gh accepted (exec t choice op mem) := by
  cases hmove with
  | lockHash htable hheld =>
    cases hfree : mem.hashlock with
    | none =>
      have hexec : exec t choice .lockHash mem = .ok ((), { mem with hashlock := some t }) := by
        simp [exec, hfree]
      exact .of_ok hexec (lockHash_reaches hinv hfree) ⟨_, sees hinv, rfl⟩
    | some t' =>
      rw [exec, hfree]
      trivial
  | unlockHash htable hpend =>
    obtain ⟨hhash, rfl⟩ := tableFor_eq_some.mp htable
    obtain ⟨gh', hreaches, _⟩ := unlockHash_reaches hinv hhash hpend
    exact .of_ok (if_pos hhash) hreaches rfl
  | @notFound table id htable hpend hpriv hstatus hlookup =>
    obtain ⟨hhash, rfl⟩ := tableFor_eq_some.mp htable
    obtain ⟨gh', hreaches⟩ := notFound_reaches hinv hhash hpend hpriv hstatus hlookup
    exact .of_ok (if_pos hhash) hreaches rfl
  | lock hheld hreach hguard => exact lock_safe hinv (reach_inTable hinv hreach) hheld hguard
  | unlock hheld =>
    have hmutex := (hinv.locked.held _ _).mp hheld
    obtain ⟨foo, hcell, hlock⟩ := Mem.view_eq_some hmutex
    obtain ⟨gh', hreaches⟩ := unlock_reaches hinv hcell hlock hheld
    exact .of_ok ((Mem.onFoo_live hcell).trans (if_pos hlock)) hreaches rfl
  | getHead htable =>
    obtain ⟨_, rfl⟩ := tableFor_eq_some.mp htable
    exact .of_ok rfl (.refl hinv nofun) ⟨(hinv.linked.chain _).head_eq, rfl⟩
  | @getNext table idx before rest fp id htable hchain =>
    obtain ⟨_, rfl⟩ := tableFor_eq_some.mp htable
    have hlook := (hchain ▸ hinv.linked.chain idx).get
    obtain ⟨foo, hcell, heq⟩ := Mem.view_eq_some hlook
    exact .of_ok (Mem.onFoo_live hcell) (.refl hinv nofun) ⟨congrArg Prod.snd heq, rfl⟩
  | getId htable hmem =>
    obtain ⟨_, rfl⟩ := tableFor_eq_some.mp htable
    obtain ⟨next, hlook⟩ := hinv.linked.get hmem
    obtain ⟨foo, hcell, heq⟩ := Mem.view_eq_some hlook
    exact .of_ok (Mem.onFoo_live hcell) (.refl hinv nofun) ⟨congrArg Prod.fst heq, rfl⟩
  | @getCount fp hguards =>
    obtain ⟨foo, hcell⟩ : ∃ foo, mem.cell fp = .live foo := by
      cases guard with
      | own =>
        obtain ⟨foo, hcell, _⟩ := Mem.view_eq_some ((hinv.locked.held _ _).mp hguards.1)
        exact ⟨foo, hcell⟩
      | hash =>
        obtain ⟨table, htable, hin⟩ := hguards
        obtain ⟨_, rfl⟩ := tableFor_eq_some.mp htable
        exact hinv.live hin
    refine .of_ok (Mem.onFoo_live hcell) (getCount_reaches hinv hcell hguards) ⟨?_, rfl⟩
    intro count hknown
    obtain ⟨_, _, hcount⟩ := hinv.knows.known _ _ _ hknown
    exact Option.some.inj ((Mem.view_live hcell).symm.trans hcount)
  | malloc hstatus hpriv hinCall => exact malloc_safe hinv hstatus hpriv hinCall hallowed
  | draftCount hstatus hpriv hinCall =>
    obtain ⟨foo, hcell, hdescribes⟩ := hinv.drafted.describes _ _ _ hpriv
    exact .of_ok (Mem.onFoo_live hcell)
      (draftCount_reaches hinv hcell hpriv hdescribes hinCall) rfl
  | @draftId fp draft id hpriv =>
    obtain ⟨foo, hcell, hdescribes⟩ := hinv.drafted.describes _ _ _ hpriv
    have hdescribes' : Draft.Describes { draft with id } { foo with fId := id } :=
      { hdescribes with id := rfl }
    exact .of_ok (Mem.onFoo_live hcell)
      (put_reaches hinv nofun hcell hpriv hdescribes' (fun _ => Iff.rfl) rfl) rfl
  | @draftNext fp draft next hpriv =>
    obtain ⟨foo, hcell, hdescribes⟩ := hinv.drafted.describes _ _ _ hpriv
    have hdescribes' : Draft.Describes { draft with next } { foo with fNext := next } :=
      { hdescribes with next := rfl }
    exact .of_ok (Mem.onFoo_live hcell)
      (put_reaches hinv nofun hcell hpriv hdescribes' (fun _ => Iff.rfl) rfl) rfl
  | mutexInit hstatus hpriv hinCall hheld _ =>
    exact mutexInit_safe hinv hstatus hpriv hinCall hheld hallowed
  | publish htable hstatus hpriv hinCall hcount hid hinited hnext hpend hok =>
    subst hid
    obtain ⟨hhash, rfl⟩ := tableFor_eq_some.mp htable
    exact .of_ok rfl (publish_reaches hinv hhash hstatus hpriv hinCall hinited hpend hnext) rfl
  | @hold fp count hknown hstatus hpriv hinCall =>
    obtain ⟨foo, hcell⟩ := hinv.live (hinv.knows.known _ _ _ hknown).1
    have heffect : gh.toSpec.Effect (.fooHold fp) (.finished none) := trivial
    exact .of_ok (Mem.onFoo_live hcell)
      (gain_reaches hinv hcell hknown hpriv hinCall hstatus (fun _ => rfl) rfl heffect rfl) rfl
  | found hknown htable hstatus hpriv hinCall hlookup =>
    obtain ⟨foo, hcell⟩ := hinv.live (hinv.knows.known _ _ _ hknown).1
    obtain ⟨_, rfl⟩ := tableFor_eq_some.mp htable
    exact .of_ok (Mem.onFoo_live hcell) (gain_reaches hinv hcell hknown hpriv hinCall hstatus
      (fun _ => rfl) rfl hlookup.symm rfl) rfl
  | release hknown hstatus hpriv hinCall hheld hcount =>
    obtain ⟨foo, hcell⟩ := hinv.live (hinv.knows.known _ _ _ hknown).1
    exact .of_ok (Mem.onFoo_live hcell)
      (release_reaches hinv hcell hknown hpriv hinCall hheld hstatus hcount) rfl
  | releaseLast hguard hknown hstatus hpriv hinCall hheld =>
    obtain ⟨foo, hcell⟩ := hinv.live (hinv.knows.known _ _ _ hknown).1
    exact .of_ok (Mem.onFoo_live hcell)
      (releaseLast_reaches hinv hcell hguard hknown hpriv hinCall hheld hstatus) rfl
  | @unlinkHead table idx fp id rest htable hchain hstatus hpriv hdoomed =>
    obtain ⟨hhash, rfl⟩ := tableFor_eq_some.mp htable
    obtain ⟨foo, hcell⟩ := hinv.live ⟨idx, id, hchain ▸ List.mem_cons_self⟩
    obtain ⟨gh', draft, hinited, hreaches⟩ := unlink_reaches hinv (.setHead idx (headOf rest))
      nofun { mem with fh := update mem.fh idx (headOf rest) } hhash hstatus hpriv
      hdoomed hcell (hinv.linked.removeHead hchain) rfl rfl rfl rfl rfl fun _ _ => rfl
    exact .of_ok rfl hreaches ⟨draft, hinited, rfl⟩
  | @unlinkNext table idx before rest prev fp prevId id htable hchain hstatus hpriv hdoomed =>
    obtain ⟨hhash, rfl⟩ := tableFor_eq_some.mp htable
    obtain ⟨foo, gh', draft, hcell, hinited, hreaches⟩ :=
      unlinkNext_reaches hinv hhash hchain hstatus hpriv hdoomed
    exact .of_ok (Mem.onFoo_live hcell) hreaches ⟨draft, hinited, rfl⟩
  | @mutexDestroy fp draft hpriv hinited hheld =>
    obtain ⟨foo, hcell, hdescribes⟩ := hinv.drafted.describes _ _ _ hpriv
    have hlock : foo.fLock = some none := hinv.private_inited hpriv hheld hcell hdescribes hinited
    have hdescribes' : Draft.Describes { draft with inited := false }
        ({ foo with fLock := none } : Foo A T) := { hdescribes with inited := by simp }
    exact .of_ok ((Mem.onFoo_live hcell).trans (if_pos hlock))
      (put_reaches hinv nofun hcell hpriv hdescribes' (fun t' => by simp [hlock]) rfl) rfl
  | free hpriv htable hheld hpend hstatus hgains =>
    obtain ⟨foo, hcell, _⟩ := hinv.drafted.describes _ _ _ hpriv
    exact .of_ok (Mem.onFoo_live hcell) (free_reaches hinv hpriv hheld hpend hstatus hgains) rfl

end Soundness

end ApueFormal.Threads
