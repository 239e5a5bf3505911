import ApueFormal.Threads.Invariant

/-!
# Changes that keep the invariant

Each theorem is about one change of the memory and of what a thread has.  The steps of
the programs are made of these changes.
-/

namespace ApueFormal.Threads

open Function Program

variable {A T : Type} {priv : T → Option (A × Draft A)} {draft : Draft A} {t : T}

theorem mine_eq_some {fp : A} (hpriv : priv t = some (fp, draft)) : mine priv t = some fp := by
  rw [mine, hpriv]
  rfl

theorem mine_eq_none (hpriv : priv t = none) : mine priv t = none := by
  rw [mine, hpriv]
  rfl

theorem mine_update [DecidableEq T] (priv : T → Option (A × Draft A)) (t : T)
    (value : Option (A × Draft A)) :
    mine (update priv t value) = update (mine priv) t (value.map Prod.fst) := by
  funext t'
  rcases eq_or_ne t' t with rfl | ht
  · rw [mine, update_self, update_self]
  · rw [mine, update_of_ne ht, update_of_ne ht, mine]

theorem mine_update_same [DecidableEq T] {fp : A} {draft' : Draft A}
    (hpriv : priv t = some (fp, draft)) :
    mine (update priv t (some (fp, draft'))) = mine priv := by
  rw [mine_update, Option.map_some, ← mine_eq_some hpriv, update_eq_self]

variable {value : Int}

section Facts

variable [DecidableEq A] [Fintype T] {guard : Guard} {mem : Mem A T} {gh : Ghost A T} {t' : T}
  {fp : A}

namespace Inv

variable (hinv : Inv guard mem gh)
include hinv

theorem live (hin : InTable gh.table fp) : ∃ foo, mem.cell fp = .live foo := by
  obtain ⟨idx, id, hmem⟩ := hin
  obtain ⟨next, hlook⟩ := hinv.linked.get hmem
  obtain ⟨foo, hcell, _⟩ := Mem.view_eq_some hlook
  exact ⟨foo, hcell⟩

theorem not_mine (hin : InTable gh.table fp) (t : T) : mine gh.priv t ≠ some fp :=
  fun hmine => hinv.placed.outside _ _ hmine hin

theorem held_unique (hheld : gh.held t = some fp) (hheld' : gh.held t' = some fp) : t = t' := by
  have hmutex := (hinv.locked.held _ _).mp hheld
  have hmutex' := (hinv.locked.held _ _).mp hheld'
  cases hmutex.symm.trans hmutex'
  rfl

theorem known_unique {value' : Int} (hknown : gh.known t = some (fp, value))
    (hknown' : gh.known t' = some (fp, value')) : t = t' := by
  obtain ⟨_, hprotects, _⟩ := hinv.knows.known _ _ _ hknown
  obtain ⟨_, hprotects', _⟩ := hinv.knows.known _ _ _ hknown'
  cases guard with
  | own => exact hinv.held_unique hprotects hprotects'
  | hash => exact Option.some.inj (hprotects.symm.trans hprotects')

theorem known_count (hknown : gh.known t = some (fp, value)) :
    value = outstanding gh.owned gh.inCall fp := by
  obtain ⟨hin, _, hcount⟩ := hinv.knows.known _ _ _ hknown
  exact Option.some.inj (hcount.symm.trans (hinv.counted fp hin))

theorem not_used (hpriv : gh.priv t = some (fp, draft)) {call : Call A}
    (hstatus : gh.status t = some (call, .pending)) : ¬ gh.used fp :=
  fun hused => ((hinv.used fp).mp hused).2 t call (mine_eq_some hpriv) hstatus

theorem pend_eq_none (hpriv : gh.priv t = none)
    (hrefs : ∀ ptr, refs (gh.status t) ptr = one (gh.inCall t) ptr) : gh.pend t = none := by
  by_contra hsome
  obtain ⟨ptr, hptr⟩ := Option.ne_none_iff_exists'.mp hsome
  have hreferred := hinv.referred t ptr (by simp [mine_eq_none hpriv])
  rw [hrefs, hptr, one_self] at hreferred
  omega

variable {foo : Foo A T} (hpriv : gh.priv t = some (fp, draft)) (hheld : gh.held t = none)
  (hcell : mem.cell fp = .live foo)
include hpriv hheld hcell

theorem private_unlocked (t' : T) : foo.fLock ≠ some (some t') := by
  intro hlock
  have hmine := mine_eq_some hpriv
  have hheld' : gh.held t' = some fp := by
    rw [hinv.locked.held, Mem.mutex, Mem.view_live hcell, hlock]
  rcases hinv.placed.held _ _ hheld' with hin | hmine'
  · exact hinv.placed.outside _ _ hmine hin
  · cases hinv.placed.apart _ _ _ hmine' hmine
    cases hheld.symm.trans hheld'

theorem private_inited (hdescribes : draft.Describes foo) (hinited : draft.inited = true) :
    foo.fLock = some none := by
  have hsome := hdescribes.inited.mpr hinited
  cases hlock : foo.fLock with
  | none => exact absurd hlock hsome
  | some holder =>
    cases holder with
    | none => rfl
    | some t' => exact absurd hlock (hinv.private_unlocked hpriv hheld hcell t')

end Inv

end Facts

theorem update_cases [DecidableEq T] {β : Type} {f : T → β} {t' : T} {value value' : β}
    (hupdate : update f t value t' = value') :
    (t' = t ∧ value = value') ∨ (t' ≠ t ∧ f t' = value') := by
  rcases eq_or_ne t' t with rfl | ht
  · exact .inl ⟨rfl, (update_self ..).symm.trans hupdate⟩
  · exact .inr ⟨ht, (update_of_ne ht ..).symm.trans hupdate⟩

theorem of_update_none [DecidableEq T] {β : Type} {f : T → Option β} {t' : T} {value : β}
    (hupdate : update f t none t' = some value) : t' ≠ t ∧ f t' = some value :=
  (update_cases hupdate).resolve_left (by simp)

section Parts

variable {guard : Guard} {table : Table A} {fp : A} {inCall held own pend : T → Option A}
  {known : T → Option (A × Int)} {status : T → Status A}

section

variable [DecidableEq T]

theorem Holds.update (hholds : Holds guard inCall held) (hnone : guard = .hash → held t = none)
    (value : Option A) : Holds guard (update inCall t value) held := by
  intro hguard t' ptr hheld
  refine (update_of_ne ?_ ..).trans (hholds hguard _ _ hheld)
  rintro rfl
  cases (hnone hguard).symm.trans hheld

theorem Used.setStatus {given used : A → Prop} (hused : Used given own status used)
    (hnone : own t = none) (value : Status A) : Used given own (update status t value) used := by
  intro ptr
  rw [hused ptr]
  refine and_congr_right fun _ => forall_congr' fun t' => ?_
  rcases eq_or_ne t' t with rfl | ht
  · simp [hnone]
  · rw [update_of_ne ht]

theorem making_update (hmaking : ∀ t fp draft, priv t = some (fp, draft) →
      Making guard fp (status t) (inCall t)) (hnone : priv t = none) (value : Status A)
    (ptr : Option A) (t' : T) (fp : A) (draft : Draft A) (hpriv : priv t' = some (fp, draft)) :
    Making guard fp (update status t value t') (update inCall t ptr t') := by
  have ht : t' ≠ t := by
    rintro rfl
    cases hnone.symm.trans hpriv
  rw [update_of_ne ht, update_of_ne ht]
  exact hmaking _ _ _ hpriv

end

variable [DecidableEq A]

theorem Drafted.elsewhere {cell : A → Cell A T} (hdrafted : Drafted cell inCall priv) {ptr : A}
    (hpriv : priv t = some (ptr, draft)) (hne : ptr ≠ fp) (value : Cell A T) :
    ∃ foo, update cell fp value ptr = .live foo ∧ draft.Describes foo := by
  rw [update_of_ne hne]
  exact hdrafted.describes _ _ _ hpriv

variable {count : A → Option Int} (hout : ¬ InTable table fp)
include hout

theorem Locked.outside {mutex : A → Option (Option (Option T))} (hlocked : Locked mutex table held)
    {value : Option (Option (Option T))}
    (hself : ∀ t, held t = some fp ↔ value = some (some (some t))) :
    Locked (update mutex fp value) table held where
  held t' ptr := by
    rcases eq_or_ne ptr fp with rfl | hptr
    · rw [update_self]
      exact hself t'
    · rw [update_of_ne hptr]
      exact hlocked.held t' ptr
  inited ptr hin := by
    rw [update_of_ne (hin.ne hout)]
    exact hlocked.inited ptr hin

theorem Knows.outside {hashlock : Option T}
    (hknows : Knows guard count hashlock table held known pend) (value : Option Int) :
    Knows guard (update count fp value) hashlock table held known pend := by
  refine ⟨fun t' ptr value hknown => ?_, hknows.pend⟩
  obtain ⟨hin, hprotects, hcount⟩ := hknows.known _ _ _ hknown
  exact ⟨hin, hprotects, (update_of_ne (hin.ne hout) ..).trans hcount⟩

variable [Fintype T] {owned : T → A → Nat}

theorem Counted.outside (hcounted : Counted count table owned inCall) (value : Option Int) :
    Counted (update count fp value) table owned inCall :=
  fun ptr hin => (update_of_ne (hin.ne hout) ..).trans (hcounted ptr hin)

end Parts

section Locks

variable [DecidableEq A] [Fintype T] {guard : Guard} {mem : Mem A T} {gh : Ghost A T} {fp : A}
  {foo : Foo A T}

namespace Inv

variable (hinv : Inv guard mem gh)
include hinv

theorem takeHash (hfree : mem.hashlock = none) : Inv guard { mem with hashlock := some t } gh :=
  { hinv with
    knows := by
      refine ⟨fun t' ptr value hknown => ?_, fun t' ptr hpend => ?_⟩
      · obtain ⟨hin, hprotects, hcount⟩ := hinv.knows.known _ _ _ hknown
        cases guard with
        | own => exact ⟨hin, hprotects, hcount⟩
        | hash => cases hfree.symm.trans hprotects
      · cases hfree.symm.trans (hinv.knows.pend _ _ hpend).2 }

theorem giveHash (hhash : mem.hashlock = some t)
    (hknown : guard = .hash → gh.known t = none) (hpend : gh.pend t = none) :
    Inv guard { mem with hashlock := none } gh :=
  { hinv with
    knows := by
      refine ⟨fun t' ptr value hknown' => ?_, fun t' ptr hpend' => ?_⟩
      · obtain ⟨hin, hprotects, hcount⟩ := hinv.knows.known _ _ _ hknown'
        cases guard with
        | own => exact ⟨hin, hprotects, hcount⟩
        | hash =>
          cases hhash.symm.trans hprotects
          cases (hknown rfl).symm.trans hknown'
      · cases hhash.symm.trans (hinv.knows.pend _ _ hpend').2
        cases hpend.symm.trans hpend' }

variable [DecidableEq T]

theorem forget (t : T) : Inv guard mem { gh with known := update gh.known t none } :=
  { hinv with
    knows := by
      refine ⟨fun t' ptr value hknown => ?_, hinv.knows.pend⟩
      exact hinv.knows.known _ _ _ (of_update_none hknown).2 }

theorem learn (hin : InTable gh.table fp) (hprotects : Protects guard mem.hashlock gh.held t fp)
    (hcount : mem.count fp = some value) :
    Inv guard mem { gh with known := update gh.known t (some (fp, value)) } :=
  { hinv with
    knows := by
      refine ⟨fun t' ptr value' hknown => ?_, hinv.knows.pend⟩
      rcases update_cases hknown with ⟨rfl, hsome⟩ | ⟨_, hknown⟩
      · cases hsome
        exact ⟨hin, hprotects, hcount⟩
      · exact hinv.knows.known _ _ _ hknown }

theorem changeLock (hcell : mem.cell fp = .live foo) {lock : Option T} {held : Option A}
    (hinited : foo.fLock ≠ none) (hlock : ∀ t', update gh.held t held t' = some fp ↔ lock = some t')
    (hother : ∀ ptr ≠ fp, held = some ptr ↔ gh.held t = some ptr)
    (hin : held = some fp → InTable gh.table fp ∨ mine gh.priv t = some fp)
    (hholds : guard = .hash → held = some fp → gh.inCall t = some fp)
    (hknown : guard = .own → gh.known t = none) :
    Inv guard (mem.put fp { foo with fLock := some lock })
      { gh with held := update gh.held t held } := by
  have hlook : (mem.put fp { foo with fLock := some lock }).look = mem.look :=
    Mem.view_put_same hcell rfl
  have hcount : (mem.put fp { foo with fLock := some lock }).count = mem.count :=
    Mem.view_put_same hcell rfl
  have hheld : ∀ t' ptr, ptr ≠ fp →
      (update gh.held t held t' = some ptr ↔ gh.held t' = some ptr) := by
    intro t' ptr hptr
    rcases eq_or_ne t' t with rfl | ht
    · rw [update_self]
      exact hother ptr hptr
    · rw [update_of_ne ht]
  constructor
  case linked =>
    rw [hlook]
    exact hinv.linked
  case locked =>
    rw [Mem.mutex, Mem.view_put]
    refine ⟨fun t' ptr => ?_, fun ptr hin => ?_⟩
    · rcases eq_or_ne ptr fp with rfl | hptr
      · rw [update_self, hlock]
        simp
      · rw [update_of_ne hptr]
        exact (hheld t' ptr hptr).trans (hinv.locked.held t' ptr)
    · rcases eq_or_ne ptr fp with rfl | hptr
      · rw [update_self]
        simp
      · rw [update_of_ne hptr]
        exact hinv.locked.inited ptr hin
  case placed =>
    rw [Mem.live_put hcell]
    refine { hinv.placed with held := fun t' ptr hheld' => ?_ }
    rcases update_cases hheld' with ⟨rfl, hsome⟩ | ⟨_, hheld'⟩
    · rcases eq_or_ne ptr fp with rfl | hptr
      · exact hin hsome
      · exact hinv.placed.held _ _ ((hother ptr hptr).mp hsome)
    · exact hinv.placed.held _ _ hheld'
  case drafted =>
    refine ⟨fun t' ptr draft hpriv => ?_, hinv.drafted.count⟩
    obtain ⟨foo', hcell', hdescribes⟩ := hinv.drafted.describes _ _ _ hpriv
    rcases eq_or_ne ptr fp with rfl | hptr
    · cases hcell.symm.trans hcell'
      refine ⟨_, update_self .., { hdescribes with inited := ?_ }⟩
      rw [← hdescribes.inited]
      simp [hinited]
    · exact ⟨foo', (update_of_ne hptr ..).trans hcell', hdescribes⟩
  case making => exact hinv.making
  case positive => exact hinv.positive
  case holds =>
    intro hguard t' ptr hheld'
    rcases update_cases hheld' with ⟨rfl, hsome⟩ | ⟨_, hheld'⟩
    · rcases eq_or_ne ptr fp with rfl | hptr
      · exact hholds hguard hsome
      · exact hinv.holds hguard _ _ ((hother ptr hptr).mp hsome)
    · exact hinv.holds hguard _ _ hheld'
  case counted =>
    rw [hcount]
    exact hinv.counted
  case knows =>
    rw [hcount]
    refine ⟨fun t' ptr value hknown' => ?_, hinv.knows.pend⟩
    obtain ⟨hin, hprotects, hcount⟩ := hinv.knows.known _ _ _ hknown'
    refine ⟨hin, ?_, hcount⟩
    cases guard with
    | own =>
      rcases eq_or_ne t' t with rfl | ht
      · cases (hknown rfl).symm.trans hknown'
      · exact (update_of_ne ht ..).trans hprotects
    | hash => exact hprotects
  case used =>
    rw [Mem.given_put hcell]
    exact hinv.used
  case referred => exact hinv.referred

end Inv

end Locks

section Places

variable [DecidableEq T] {live live' : A → Prop} {table : Table A} {owned : T → A → Nat}
  {inCall held own : T → Option A} {fp : A}

theorem update_of_none (hnone : own t = none) {t' : T} {ptr : A} (hown : own t' = some ptr)
    (value : Option A) : update own t value t' = some ptr := by
  refine (update_of_ne ?_ ..).trans hown
  rintro rfl
  cases hnone.symm.trans hown

theorem apart_of_none (hapart : ∀ t t' fp, own t = some fp → own t' = some fp → t = t')
    (t' t'' : T) (ptr : A) (hown : update own t none t' = some ptr)
    (hown' : update own t none t'' = some ptr) : t' = t'' :=
  hapart _ _ _ (of_update_none hown).2 (of_update_none hown').2

namespace Placed

variable (hplaced : Placed live table owned inCall held own)
include hplaced

theorem claim (hnone : own t = none) (hother : ∀ t', own t' ≠ some fp) (hout : ¬ InTable table fp)
    (hlive : ∀ ptr, live' ptr → ptr = fp ∨ live ptr) :
    Placed live' table owned inCall held (update own t (some fp)) where
  apart t' t'' ptr hown hown' := by
    rcases update_cases hown with ⟨ht, heq⟩ | ⟨_, hown⟩ <;>
      rcases update_cases hown' with ⟨ht', heq'⟩ | ⟨_, hown'⟩
    · exact ht.trans ht'.symm
    · exact absurd (hown'.trans heq.symm) (hother _)
    · exact absurd (hown.trans heq'.symm) (hother _)
    · exact hplaced.apart _ _ _ hown hown'
  outside t' ptr hown := by
    rcases update_cases hown with ⟨_, heq⟩ | ⟨_, hown⟩
    · cases heq
      exact hout
    · exact hplaced.outside _ _ hown
  live ptr hptr := by
    rcases hlive ptr hptr with rfl | hptr
    · exact .inr ⟨t, update_self ..⟩
    · refine (hplaced.live ptr hptr).imp_right ?_
      rintro ⟨t', hown⟩
      exact ⟨t', update_of_none hnone hown _⟩
  held t' ptr hheld :=
    (hplaced.held _ _ hheld).imp_right fun hown => update_of_none hnone hown _
  owned := hplaced.owned
  inCall t' ptr hinCall :=
    (hplaced.inCall _ _ hinCall).imp_right fun hown => update_of_none hnone hown _

theorem share (hown : own t = some fp) (id : Int) :
    Placed live (insert table fp id) owned inCall held (update own t none) := by
  have hstay : ∀ t' ptr, InTable table ptr ∨ own t' = some ptr →
      InTable (insert table fp id) ptr ∨ update own t none t' = some ptr := by
    rintro t' ptr (hin | hown')
    · exact .inl (inTable_insert.mpr (.inr hin))
    · rcases eq_or_ne t' t with rfl | ht
      · exact .inl (inTable_insert.mpr (.inl (Option.some.inj (hown'.symm.trans hown))))
      · exact .inr ((update_of_ne ht ..).trans hown')
  constructor
  case apart => exact apart_of_none hplaced.apart
  case outside =>
    intro t' ptr hown' hin
    obtain ⟨ht, hown'⟩ := of_update_none hown'
    rcases inTable_insert.mp hin with rfl | hin
    · exact ht (hplaced.apart _ _ _ hown' hown)
    · exact hplaced.outside _ _ hown' hin
  case live =>
    intro ptr hptr
    rcases hplaced.live ptr hptr with hin | ⟨t', hown'⟩
    · exact .inl (inTable_insert.mpr (.inr hin))
    · exact (hstay t' ptr (.inr hown')).imp_right fun hown' => ⟨t', hown'⟩
  case held => exact fun t' ptr hheld => hstay t' ptr (hplaced.held _ _ hheld)
  case owned => exact fun t' ptr howned => inTable_insert.mpr (.inr (hplaced.owned _ _ howned))
  case inCall => exact fun t' ptr hinCall => hstay t' ptr (hplaced.inCall _ _ hinCall)

theorem discard (hown : own t = some fp)
    (hheld : held t = none) (hlive : ∀ ptr, live' ptr → ptr ≠ fp ∧ live ptr) :
    Placed live' table owned (update inCall t none) held (update own t none) where
  apart := apart_of_none hplaced.apart
  outside t' ptr hown' := hplaced.outside _ _ (of_update_none hown').2
  live ptr hptr := by
    obtain ⟨hne, hptr⟩ := hlive ptr hptr
    refine (hplaced.live ptr hptr).imp_right ?_
    rintro ⟨t', hown'⟩
    refine ⟨t', (update_of_ne ?_ ..).trans hown'⟩
    rintro rfl
    exact hne (Option.some.inj (hown'.symm.trans hown))
  held t' ptr hheld' := by
    have ht : t' ≠ t := by
      rintro rfl
      cases hheld.symm.trans hheld'
    rw [update_of_ne ht]
    exact hplaced.held _ _ hheld'
  owned := hplaced.owned
  inCall t' ptr hinCall := by
    obtain ⟨ht, hinCall⟩ := of_update_none hinCall
    rw [update_of_ne ht]
    exact hplaced.inCall _ _ hinCall

variable [DecidableEq A]

/-- An object is taken out of the table by the thread that has the last reference. -/
theorem withdraw (hnone : own t = none) (hin : InTable table fp) (howned : ∀ t', owned t' fp = 0)
    (hheld : ∀ t', held t' = some fp → t' = t) (hinCall : ∀ t', inCall t' = some fp → t' = t) :
    Placed live (remove table fp) owned inCall held (update own t (some fp)) := by
  have hstay : ∀ t' ptr, (ptr = fp → t' = t) → InTable table ptr ∨ own t' = some ptr →
      InTable (remove table fp) ptr ∨ update own t (some fp) t' = some ptr := by
    rintro t' ptr ht (hptr | hown)
    · rcases eq_or_ne ptr fp with rfl | hne
      · rw [ht rfl]
        exact .inr (update_self ..)
      · exact .inl (inTable_remove.mpr ⟨hne, hptr⟩)
    · exact .inr (update_of_none hnone hown _)
  constructor
  case apart =>
    intro t' t'' ptr hown hown'
    rcases update_cases hown with ⟨ht, heq⟩ | ⟨_, hown⟩ <;>
      rcases update_cases hown' with ⟨ht', heq'⟩ | ⟨_, hown'⟩
    · exact ht.trans ht'.symm
    · cases heq
      exact absurd hin (hplaced.outside _ _ hown')
    · cases heq'
      exact absurd hin (hplaced.outside _ _ hown)
    · exact hplaced.apart _ _ _ hown hown'
  case outside =>
    intro t' ptr hown hptr
    rcases update_cases hown with ⟨_, heq⟩ | ⟨_, hown⟩
    · cases heq
      exact (inTable_remove.mp hptr).1 rfl
    · exact hplaced.outside _ _ hown (inTable_remove.mp hptr).2
  case live =>
    intro ptr hptr
    rcases hplaced.live ptr hptr with hptr | ⟨t', hown⟩
    · exact (hstay t ptr (fun _ => rfl) (.inl hptr)).imp_right fun hown => ⟨t, hown⟩
    · exact .inr ⟨t', update_of_none hnone hown _⟩
  case held =>
    exact fun t' ptr hptr => hstay t' ptr (fun heq => hheld t' (heq ▸ hptr)) (hplaced.held _ _ hptr)
  case owned =>
    refine fun t' ptr hptr => inTable_remove.mpr ⟨?_, hplaced.owned _ _ hptr⟩
    rintro rfl
    rw [howned] at hptr
    exact absurd hptr (lt_irrefl _)
  case inCall =>
    exact fun t' ptr hptr =>
      hstay t' ptr (fun heq => hinCall t' (heq ▸ hptr)) (hplaced.inCall _ _ hptr)

end Placed

end Places

variable {status : Status A}

section Private

variable [DecidableEq A] [Fintype T] {guard : Guard} {mem : Mem A T} {gh : Ghost A T} {fp : A}
  {foo : Foo A T}

namespace Inv

variable (hinv : Inv guard mem gh)
include hinv

theorem private_outstanding (hmine : mine gh.priv t = some fp) :
    outstanding gh.owned gh.inCall fp = one (gh.inCall t) fp := by
  have hout := hinv.placed.outside _ _ hmine
  refine outstanding_eq (fun t' => ?_) (fun t' ht hinCall => ?_)
  · by_contra howned
    exact hout (hinv.placed.owned _ _ (Nat.pos_of_ne_zero howned))
  · rcases hinv.placed.inCall _ _ hinCall with hin | hmine'
    · exact hout hin
    · exact ht (hinv.placed.apart _ _ _ hmine' hmine)

variable [DecidableEq T]
variable (hpriv : gh.priv t = some (fp, draft))
include hpriv

theorem putPrivate (hcell : mem.cell fp = .live foo)
    {foo' : Foo A T} {draft' : Draft A} (hdescribes : draft'.Describes foo')
    (hlock : ∀ t', foo'.fLock = some (some t') ↔ foo.fLock = some (some t'))
    (hcount : gh.inCall t = some fp → draft'.count = 1) :
    Inv guard (mem.put fp foo') { gh with priv := update gh.priv t (some (fp, draft')) } := by
  have hmine := mine_eq_some hpriv
  have hout := hinv.placed.outside _ _ hmine
  have hsame : mine (update gh.priv t (some (fp, draft'))) = mine gh.priv :=
    mine_update_same hpriv
  constructor <;> dsimp only
  case linked =>
    rw [Mem.look, Mem.view_put]
    exact hinv.linked.outside hout _
  case locked =>
    rw [Mem.mutex, Mem.view_put]
    refine hinv.locked.outside hout fun t' => ?_
    rw [hinv.locked.held, Mem.mutex, Mem.view_live hcell]
    simp [hlock]
  case placed =>
    rw [Mem.live_put hcell, hsame]
    exact hinv.placed
  case drafted =>
    refine ⟨fun t' ptr draft'' hupdate => ?_, fun t' ptr draft'' hupdate hinCall => ?_⟩
    · rcases update_cases hupdate with ⟨rfl, heq⟩ | ⟨ht, hpriv'⟩
      · cases heq
        exact ⟨foo', update_self .., hdescribes⟩
      · refine hinv.drafted.elsewhere hpriv' ?_ _
        rintro rfl
        exact ht (hinv.placed.apart _ _ _ (mine_eq_some hpriv') hmine)
    · rcases update_cases hupdate with ⟨rfl, heq⟩ | ⟨_, hpriv'⟩
      · cases heq
        exact hcount hinCall
      · exact hinv.drafted.count _ _ _ hpriv' hinCall
  case making =>
    intro t' ptr draft'' hupdate
    rcases update_cases hupdate with ⟨rfl, heq⟩ | ⟨_, hpriv'⟩
    · cases heq
      exact hinv.making _ _ _ hpriv
    · exact hinv.making _ _ _ hpriv'
  case positive => exact hinv.positive
  case holds => exact hinv.holds
  case counted =>
    rw [Mem.count, Mem.view_put]
    exact hinv.counted.outside hout _
  case knows =>
    rw [Mem.count, Mem.view_put]
    exact hinv.knows.outside hout _
  case used =>
    rw [Mem.given_put hcell, hsame]
    exact hinv.used
  case referred =>
    rw [hsame]
    exact hinv.referred

theorem refer (hcount : draft.count = 1) (hinCall : gh.inCall t = none) :
    Inv guard mem { gh with inCall := update gh.inCall t (some fp) } := by
  have hmine := mine_eq_some hpriv
  have hout := hinv.placed.outside _ _ hmine
  have hsame : ∀ ptr, InTable gh.table ptr →
      outstanding gh.owned (update gh.inCall t (some fp)) ptr =
        outstanding gh.owned gh.inCall ptr := by
    intro ptr hin
    have hne : some fp ≠ some ptr := fun heq => hin.ne hout (Option.some.inj heq).symm
    have hupdate := outstanding_update gh.owned gh.inCall t (some fp) ptr
    rwa [hinCall, one_none, one_of_ne hne, Nat.add_zero, Nat.add_zero] at hupdate
  refine { hinv with
    placed := ?_, drafted := ?_, making := ?_, holds := ?_, counted := ?_, positive := ?_,
    referred := ?_ }
  · refine { hinv.placed with inCall := fun t' ptr hinCall' => ?_ }
    rcases update_cases hinCall' with ⟨rfl, heq⟩ | ⟨_, hinCall'⟩
    · cases heq
      exact .inr hmine
    · exact hinv.placed.inCall _ _ hinCall'
  · refine { hinv.drafted with count := fun t' ptr draft' hpriv' hinCall' => ?_ }
    rcases update_cases hinCall' with ⟨rfl, _⟩ | ⟨_, hinCall'⟩
    · cases hpriv.symm.trans hpriv'
      exact hcount
    · exact hinv.drafted.count _ _ _ hpriv' hinCall'
  · intro t' ptr draft' hpriv'
    have hmaking := hinv.making _ _ _ hpriv'
    dsimp only
    rcases eq_or_ne t' t with rfl | ht
    · cases hpriv.symm.trans hpriv'
      rw [hinCall] at hmaking
      rw [update_self]
      cases hstatus : gh.status t' with
      | none =>
        rw [hstatus] at hmaking
        cases hmaking
      | some status =>
        rw [hstatus] at hmaking
        cases hmaking with
        | fresh => exact .made
        | unlinked _ => exact .unlinked fun _ => rfl
    · rwa [update_of_ne ht]
  · refine hinv.holds.update (fun hguard => ?_) _
    cases hheld : gh.held t with
    | none => rfl
    | some ptr => cases hinCall.symm.trans (hinv.holds hguard _ _ hheld)
  · intro ptr hin
    dsimp only
    rw [hsame ptr hin]
    exact hinv.counted ptr hin
  · intro hguard ptr hin
    dsimp only
    rw [hsame ptr hin]
    exact hinv.positive hguard ptr hin
  · intro t' ptr hmine'
    rw [hinv.referred t' ptr hmine']
    dsimp only
    rcases eq_or_ne t' t with rfl | ht
    · have hne : some fp ≠ some ptr := fun heq => hmine' (hmine.trans heq)
      rw [update_self, hinCall, one_none, one_of_ne hne]
    · rw [update_of_ne ht]

omit hpriv in
theorem allocate (hcell : mem.cell fp = .fresh)
    (hpriv : gh.priv t = none) (hinCall : gh.inCall t = none) {id : Int}
    (hstatus : gh.status t = some (.fooAlloc id, .pending)) (hdescribes : draft.Describes foo)
    (hlock : foo.fLock = none) :
    Inv guard (mem.put fp foo) { gh with priv := update gh.priv t (some (fp, draft)) } := by
  have hview : ∀ {β : Type} (part : Foo A T → β), mem.view part fp = none := fun part => by
    rw [Mem.view, hcell]
  have hout : ¬ InTable gh.table fp := fun hin => hinv.linked.looked hin (hview _)
  have hother : ∀ t', mine gh.priv t' ≠ some fp := by
    intro t' hmine
    obtain ⟨entry, hentry, rfl⟩ := Option.map_eq_some_iff.mp hmine
    obtain ⟨foo', hcell', _⟩ := hinv.drafted.describes _ _ _ hentry
    cases hcell.symm.trans hcell'
  have hmine : mine (update gh.priv t (some (fp, draft))) =
      update (mine gh.priv) t (some fp) := mine_update ..
  constructor <;> dsimp only
  case linked =>
    rw [Mem.look, Mem.view_put]
    exact hinv.linked.outside hout _
  case locked =>
    rw [Mem.mutex, Mem.view_put]
    refine hinv.locked.outside hout fun t' => ?_
    rw [hinv.locked.held, Mem.mutex, hview, hlock]
    simp
  case placed =>
    rw [hmine]
    refine hinv.placed.claim (mine_eq_none hpriv) hother hout ?_
    rintro ptr ⟨foo', hcell'⟩
    rcases update_cases hcell' with ⟨rfl, _⟩ | ⟨_, hcell'⟩
    · exact .inl rfl
    · exact .inr ⟨foo', hcell'⟩
  case drafted =>
    refine ⟨fun t' ptr draft' hupdate => ?_, fun t' ptr draft' hupdate hinCall' => ?_⟩
    · rcases update_cases hupdate with ⟨rfl, heq⟩ | ⟨_, hpriv'⟩
      · cases heq
        exact ⟨foo, update_self .., hdescribes⟩
      · refine hinv.drafted.elsewhere hpriv' ?_ _
        rintro rfl
        exact hother _ (mine_eq_some hpriv')
    · rcases update_cases hupdate with ⟨rfl, _⟩ | ⟨_, hpriv'⟩
      · cases hinCall.symm.trans hinCall'
      · exact hinv.drafted.count _ _ _ hpriv' hinCall'
  case making =>
    intro t' ptr draft' hupdate
    rcases update_cases hupdate with ⟨rfl, _⟩ | ⟨_, hpriv'⟩
    · rw [hstatus, hinCall]
      exact .fresh
    · exact hinv.making _ _ _ hpriv'
  case positive => exact hinv.positive
  case holds => exact hinv.holds
  case counted =>
    rw [Mem.count, Mem.view_put]
    exact hinv.counted.outside hout _
  case knows =>
    rw [Mem.count, Mem.view_put]
    exact hinv.knows.outside hout _
  case used =>
    intro ptr
    rw [hmine, hinv.used ptr]
    rcases eq_or_ne ptr fp with rfl | hptr
    · constructor
      · exact fun hused => absurd hcell hused.1
      · exact fun hused => absurd hstatus (hused.2 t _ (update_self ..))
    · refine and_congr ?_ (forall_congr' fun t' => forall_congr' fun call' => ?_)
      · simp [Mem.Given, Mem.put, hptr]
      · rcases eq_or_ne t' t with rfl | ht
        · rw [update_self, mine_eq_none hpriv]
          simp [hptr.symm]
        · rw [update_of_ne ht]
  case referred =>
    intro t' ptr hmine'
    refine hinv.referred t' ptr fun hmine'' => hmine' ?_
    rw [hmine]
    exact update_of_none (mine_eq_none hpriv) hmine'' _

omit hpriv in
theorem setStatus (hpriv : gh.priv t = none)
    (hrefs : ∀ ptr, refs status ptr = refs (gh.status t) ptr) :
    Inv guard mem { gh with status := update gh.status t status } :=
  { hinv with
    making := by simpa using making_update hinv.making hpriv status (gh.inCall t)
    used := hinv.used.setStatus (mine_eq_none hpriv) _
    referred := by
      intro t' ptr hmine
      rw [← hinv.referred t' ptr hmine]
      dsimp only
      rcases eq_or_ne t' t with rfl | ht
      · rw [update_self, hrefs]
      · rw [update_of_ne ht] }

theorem spend (hinCall : gh.inCall t = some fp) {id : Int}
    (hstatus : gh.status t = some (.fooAlloc id, .pending)) :
    Inv guard mem
      { gh with
        used := update gh.used fp True
        status := update gh.status t (some (.fooAlloc id, .freeing fp none)) } :=
  { hinv with
    making := by
      intro t' ptr draft' hpriv'
      dsimp only
      rcases eq_or_ne t' t with rfl | ht
      · cases hpriv.symm.trans hpriv'
        rw [update_self, hinCall]
        exact .failed
      · rw [update_of_ne ht]
        exact hinv.making _ _ _ hpriv'
    used := by
      have hmine := mine_eq_some hpriv
      obtain ⟨foo, hcell, _⟩ := hinv.drafted.describes _ _ _ hpriv
      intro ptr
      dsimp only
      rcases eq_or_ne ptr fp with rfl | hptr
      · rw [update_self, true_iff]
        refine ⟨by simp [Mem.Given, hcell], fun t' call' hmine' => ?_⟩
        rw [hinv.placed.apart _ _ _ hmine' hmine, update_self]
        simp
      · rw [update_of_ne hptr, hinv.used ptr]
        refine and_congr_right fun _ => forall_congr' fun t' => forall_congr' fun call' =>
          forall_congr' fun hmine' => ?_
        rw [update_of_ne]
        rintro rfl
        exact hptr (Option.some.inj (hmine'.symm.trans hmine))
    referred := by
      intro t' ptr hmine
      rw [← hinv.referred t' ptr hmine]
      dsimp only
      rcases eq_or_ne t' t with rfl | ht
      · rw [update_self, hstatus]
        rfl
      · rw [update_of_ne ht] }

theorem publish (hinCall : gh.inCall t = some fp) (hinited : draft.inited = true)
    (hpend : gh.pend t = none) (hnext : draft.next = headOf (gh.table (hash draft.id))) :
    Inv guard { mem with fh := update mem.fh (hash draft.id) (some fp) }
      { gh with
        table := insert gh.table fp draft.id
        used := update gh.used fp True
        status := update gh.status t (some (.fooAlloc draft.id, .finished (some fp)))
        priv := update gh.priv t none } := by
  have hmine := mine_eq_some hpriv
  have hout := hinv.placed.outside _ _ hmine
  obtain ⟨foo, hcell, hdescribes⟩ := hinv.drafted.describes _ _ _ hpriv
  have hnone : mine (update gh.priv t none) = update (mine gh.priv) t none :=
    mine_update ..
  constructor <;> dsimp only
  case linked =>
    refine hinv.linked.insert hout ?_
    rw [Mem.look, Mem.view_live hcell, hdescribes.id, hdescribes.next, hnext]
  case locked =>
    refine ⟨hinv.locked.held, fun ptr hin => ?_⟩
    rcases inTable_insert.mp hin with rfl | hin
    · have hlock := hdescribes.inited.mpr hinited
      intro hmutex
      exact hlock (Option.some.inj ((Mem.view_live hcell).symm.trans hmutex))
    · exact hinv.locked.inited ptr hin
  case placed =>
    rw [hnone]
    exact hinv.placed.share hmine _
  case drafted =>
    exact ⟨fun t' ptr draft' hupdate => hinv.drafted.describes _ _ _ (of_update_none hupdate).2,
      fun t' ptr draft' hupdate => hinv.drafted.count _ _ _ (of_update_none hupdate).2⟩
  case making =>
    intro t' ptr draft' hupdate
    obtain ⟨ht, hpriv'⟩ := of_update_none hupdate
    rw [update_of_ne ht]
    exact hinv.making _ _ _ hpriv'
  case positive =>
    intro hguard ptr hin
    rcases inTable_insert.mp hin with rfl | hin
    · rw [hinv.private_outstanding hmine, hinCall, one_self]
      exact Nat.one_pos
    · exact hinv.positive hguard ptr hin
  case holds => exact hinv.holds
  case counted =>
    intro ptr hin
    rcases inTable_insert.mp hin with rfl | hin
    · rw [hinv.private_outstanding hmine, hinCall, one_self]
      exact (Mem.view_live hcell).trans
        (congrArg some (hdescribes.count.trans (hinv.drafted.count _ _ _ hpriv hinCall)))
    · exact hinv.counted ptr hin
  case knows =>
    refine ⟨fun t' ptr value hknown => ?_, hinv.knows.pend⟩
    obtain ⟨hin, hrest⟩ := hinv.knows.known _ _ _ hknown
    exact ⟨inTable_insert.mpr (.inr hin), hrest⟩
  case used =>
    intro ptr
    rw [hnone]
    rcases eq_or_ne ptr fp with rfl | hptr
    · rw [update_self, true_iff]
      refine ⟨by simp [Mem.Given, hcell], fun t' call hmine' => ?_⟩
      obtain ⟨ht, hmine'⟩ := of_update_none hmine'
      exact absurd (hinv.placed.apart _ _ _ hmine' hmine) ht
    · rw [update_of_ne hptr, hinv.used ptr]
      refine and_congr_right fun _ => forall_congr' fun t' => forall_congr' fun call => ?_
      rcases eq_or_ne t' t with rfl | ht
      · rw [update_self, hmine]
        simp [hptr.symm]
      · rw [update_of_ne ht, update_of_ne ht]
  case referred =>
    intro t' ptr hmine'
    rw [hnone] at hmine'
    rcases eq_or_ne t' t with rfl | ht
    · rw [update_self, hinCall, hpend]
      rfl
    · rw [update_of_ne ht] at hmine' ⊢
      exact hinv.referred t' ptr hmine'

theorem discard
    (hheld : gh.held t = none) (hpend : gh.pend t = none) {call : Call A} {value : Option A}
    (hstatus : gh.status t = some (call, .freeing fp value)) (hgains : call.gains value = none) :
    Inv guard { mem with cell := update mem.cell fp .freed }
      { gh with
        status := update gh.status t (some (call, .finished value))
        priv := update gh.priv t none
        inCall := update gh.inCall t none } := by
  have hmine := mine_eq_some hpriv
  have hout := hinv.placed.outside _ _ hmine
  have hnone : mine (update gh.priv t none) = update (mine gh.priv) t none :=
    mine_update ..
  have hview : ∀ {β : Type} (part : Foo A T → β),
      Mem.view part { mem with cell := update mem.cell fp .freed } =
        update (mem.view part) fp none := by
    intro β part
    funext ptr
    rcases eq_or_ne ptr fp with rfl | hptr
    · simp [Mem.view]
    · simp [Mem.view, hptr]
  have hsame : ∀ ptr, InTable gh.table ptr → outstanding gh.owned (update gh.inCall t none) ptr =
        outstanding gh.owned gh.inCall ptr := by
    intro ptr hin
    have hupdate := outstanding_update gh.owned gh.inCall t none ptr
    have hrefs := hinv.referred t ptr (hinv.not_mine hin t)
    have hinCall : gh.inCall t ≠ some ptr := by
      intro hinCall
      rw [hstatus, refs_freeing, hinCall, one_self] at hrefs
      omega
    rwa [one_of_ne hinCall, one_none, Nat.add_zero, Nat.add_zero] at hupdate
  have hunheld : ∀ t', gh.held t' ≠ some fp := by
    intro t' hheld'
    rcases hinv.placed.held _ _ hheld' with hin | hmine'
    · exact hout hin
    · cases hinv.placed.apart _ _ _ hmine' hmine
      cases hheld.symm.trans hheld'
  constructor <;> dsimp only
  case linked =>
    rw [Mem.look, hview]
    exact hinv.linked.outside hout _
  case locked =>
    rw [Mem.mutex, hview]
    exact hinv.locked.outside hout fun t' => by simp [hunheld]
  case placed =>
    rw [hnone]
    refine hinv.placed.discard hmine hheld ?_
    rintro ptr ⟨foo, hcell⟩
    rcases update_cases hcell with ⟨_, heq⟩ | ⟨hptr, hcell⟩
    · cases heq
    · exact ⟨hptr, foo, hcell⟩
  case drafted =>
    refine ⟨fun t' ptr draft' hupdate => ?_, fun t' ptr draft' hupdate hinCall => ?_⟩ <;>
      obtain ⟨ht, hpriv'⟩ := of_update_none hupdate
    · refine hinv.drafted.elsewhere hpriv' ?_ _
      rintro rfl
      exact ht (hinv.placed.apart _ _ _ (mine_eq_some hpriv') hmine)
    · rw [update_of_ne ht] at hinCall
      exact hinv.drafted.count _ _ _ hpriv' hinCall
  case making =>
    intro t' ptr draft' hupdate
    obtain ⟨ht, hpriv'⟩ := of_update_none hupdate
    rw [update_of_ne ht, update_of_ne ht]
    exact hinv.making _ _ _ hpriv'
  case positive =>
    intro hguard ptr hin
    rw [hsame ptr hin]
    exact hinv.positive hguard ptr hin
  case holds => exact hinv.holds.update (fun _ => hheld) _
  case counted =>
    intro ptr hin
    rw [Mem.count, hview, hsame ptr hin]
    exact hinv.counted.outside hout _ ptr hin
  case knows =>
    rw [Mem.count, hview]
    exact hinv.knows.outside hout _
  case used =>
    intro ptr
    rw [hnone, hinv.used ptr]
    obtain ⟨foo, hcell, _⟩ := hinv.drafted.describes _ _ _ hpriv
    refine and_congr ?_ (forall_congr' fun t' => forall_congr' fun call' => ?_)
    · rcases eq_or_ne ptr fp with rfl | hptr
      · simp [Mem.Given, hcell]
      · simp [Mem.Given, hptr]
    · rcases eq_or_ne t' t with rfl | ht
      · simp [hstatus]
      · rw [update_of_ne ht, update_of_ne ht]
  case referred =>
    intro t' ptr hmine'
    rw [hnone] at hmine'
    rcases eq_or_ne t' t with rfl | ht
    · rw [update_self, update_self, refs_finished, hgains, hpend]
      rfl
    · rw [update_of_ne ht] at hmine'
      rw [update_of_ne ht, update_of_ne ht]
      exact hinv.referred t' ptr hmine'

end Inv

end Private

section Shared

variable [DecidableEq A] [Fintype T] {guard : Guard} {mem mem' : Mem A T} {gh : Ghost A T} {fp : A}
  {foo : Foo A T} {count count' : Int}

namespace Inv

variable (hinv : Inv guard mem gh)
include hinv

theorem total (hknown : gh.known t = some (fp, count)) :
    (gh.toSpec.total fp : Int) = count + one (gh.pend t) fp := by
  obtain ⟨hin, hprotects, _⟩ := hinv.knows.known _ _ _ hknown
  have hpend : ∀ t' ≠ t, gh.pend t' = none := by
    intro t' ht
    by_contra hsome
    obtain ⟨ptr, hptr⟩ := Option.ne_none_iff_exists'.mp hsome
    obtain ⟨rfl, hhash⟩ := hinv.knows.pend _ _ hptr
    exact ht (Option.some.inj (hhash.symm.trans hprotects))
  have hsplit : gh.toSpec.total fp =
      outstanding gh.owned gh.inCall fp + ∑ t', one (gh.pend t') fp := by
    rw [Spec.total, outstanding, ← Finset.sum_add_distrib]
    refine Finset.sum_congr rfl fun t' _ => ?_
    rw [hinv.referred t' fp (hinv.not_mine hin t'), Nat.add_assoc]
  rw [hsplit, Finset.sum_eq_single t, hinv.known_count hknown]
  · exact Int.natCast_add _ _
  · intro t' _ ht
    rw [hpend t' ht, one_none]
  · exact fun hmem => absurd (Finset.mem_univ t) hmem

variable [DecidableEq T]
variable {inCall : Option A}

theorem recount (hknown : gh.known t = some (fp, count)) (hcell : mem.cell fp = .live foo)
    (hpriv : gh.priv t = none) {pend : Option A}
    (hcount : count' + one (gh.inCall t) fp = count + one inCall fp)
    (hinCall : ∀ ptr, gh.inCall t = some ptr → ptr = fp)
    (hnew : ∀ ptr, inCall = some ptr → ptr = fp)
    (hrefs : ∀ ptr, refs status ptr = one inCall ptr + one pend ptr)
    (hheld : guard = .hash → gh.held t = none) (hpend : pend ≠ none → guard = .hash)
    (hpos : guard = .own → count' ≠ 0) :
    Inv guard (mem.put fp { foo with fCount := count' })
      { gh with
        status := update gh.status t status
        inCall := update gh.inCall t inCall
        known := update gh.known t (some (fp, count'))
        pend := update gh.pend t pend } := by
  have hlook : (mem.put fp { foo with fCount := count' }).look = mem.look :=
    Mem.view_put_same hcell rfl
  have hmutex : (mem.put fp { foo with fCount := count' }).mutex = mem.mutex :=
    Mem.view_put_same hcell rfl
  obtain ⟨hin, hprotects, _⟩ := hinv.knows.known _ _ _ hknown
  have hself : count' = outstanding gh.owned (update gh.inCall t inCall) fp := by
    have hold := hinv.known_count hknown
    have hupdate := outstanding_update gh.owned gh.inCall t inCall fp
    omega
  have hother : ∀ ptr ≠ fp, outstanding gh.owned (update gh.inCall t inCall) ptr =
      outstanding gh.owned gh.inCall ptr := by
    intro ptr hne
    have hupdate := outstanding_update gh.owned gh.inCall t inCall ptr
    rwa [one_of_ne fun heq => hne (hinCall ptr heq), one_of_ne fun heq => hne (hnew ptr heq),
      Nat.add_zero, Nat.add_zero] at hupdate
  constructor <;> dsimp only
  case linked =>
    rw [hlook]
    exact hinv.linked
  case locked =>
    rw [hmutex]
    exact hinv.locked
  case placed =>
    rw [Mem.live_put hcell]
    refine { hinv.placed with inCall := fun t' ptr hptr => ?_ }
    rcases update_cases hptr with ⟨_, hptr⟩ | ⟨_, hptr⟩
    · cases hnew ptr hptr
      exact .inl hin
    · exact hinv.placed.inCall _ _ hptr
  case drafted =>
    refine ⟨fun t' ptr draft hpriv' => ?_, fun t' ptr draft hpriv' hptr => ?_⟩
    · refine hinv.drafted.elsewhere hpriv' ?_ _
      rintro rfl
      exact hinv.not_mine hin t' (mine_eq_some hpriv')
    · rcases update_cases hptr with ⟨rfl, _⟩ | ⟨_, hptr⟩
      · cases hpriv.symm.trans hpriv'
      · exact hinv.drafted.count _ _ _ hpriv' hptr
  case making => exact making_update hinv.making hpriv _ _
  case positive =>
    intro hguard ptr hptr
    rcases eq_or_ne ptr fp with rfl | hne
    · have hzero := hpos hguard
      omega
    · rw [hother ptr hne]
      exact hinv.positive hguard ptr hptr
  case holds => exact hinv.holds.update hheld _
  case counted =>
    intro ptr hptr
    rw [Mem.count, Mem.view_put]
    rcases eq_or_ne ptr fp with rfl | hne
    · rw [update_self, hself]
    · rw [update_of_ne hne, hother ptr hne]
      exact hinv.counted ptr hptr
  case knows =>
    refine ⟨fun t' ptr value hupdate' => ?_, fun t' ptr hupdate' => ?_⟩
    · rw [Mem.count, Mem.view_put]
      rcases update_cases hupdate' with ⟨rfl, heq⟩ | ⟨ht, hknown'⟩
      · cases heq
        exact ⟨hin, hprotects, update_self ..⟩
      · obtain ⟨hin', hprotects', hvalue⟩ := hinv.knows.known _ _ _ hknown'
        have hne : ptr ≠ fp := by
          rintro rfl
          exact ht (hinv.known_unique hknown' hknown)
        exact ⟨hin', hprotects', (update_of_ne hne ..).trans hvalue⟩
    · rcases update_cases hupdate' with ⟨rfl, heq⟩ | ⟨_, hpend'⟩
      · cases hpend (by simp [heq])
        exact ⟨rfl, hprotects⟩
      · exact hinv.knows.pend _ _ hpend'
  case used =>
    rw [Mem.given_put hcell]
    exact hinv.used.setStatus (mine_eq_none hpriv) _
  case referred =>
    intro t' ptr hmine
    rcases eq_or_ne t' t with rfl | ht
    · rw [update_self, update_self, update_self]
      exact hrefs ptr
    · rw [update_of_ne ht, update_of_ne ht, update_of_ne ht]
      exact hinv.referred t' ptr hmine

theorem unlink (hpriv : gh.priv t = none) (hknown : gh.known t = some (fp, count))
    (hcount : count = one (gh.inCall t) fp) (hinCall : ∀ ptr, gh.inCall t = some ptr → ptr = fp)
    (hown : guard = .own → gh.inCall t = some fp) (hcell : mem.cell fp = .live foo)
    (hdescribes : draft.Describes foo) (hlinked : Linked mem'.look mem'.fh (remove gh.table fp))
    (hmutex : mem'.mutex = mem.mutex) (hcounts : mem'.count = mem.count)
    (hlive : mem'.Live = mem.Live) (hgiven : mem'.Given = mem.Given)
    (hhash : mem'.hashlock = mem.hashlock)
    (hframe : ∀ ptr, ptr = fp ∨ ¬ InTable gh.table ptr → mem'.cell ptr = mem.cell ptr) :
    Inv guard mem'
      { gh with
        table := remove gh.table fp
        status := update gh.status t (some (.fooRele fp, .freeing fp none))
        priv := update gh.priv t (some (fp, draft))
        known := update gh.known t none
        pend := update gh.pend t none } := by
  obtain ⟨hin, hprotects, hvalue⟩ := hinv.knows.known _ _ _ hknown
  have hmine : mine (update gh.priv t (some (fp, draft))) =
      update (mine gh.priv) t (some fp) := mine_update ..
  have heq : outstanding gh.owned gh.inCall fp = one (gh.inCall t) fp := by
    have := hinv.known_count hknown
    omega
  have halone := outstanding_alone heq
  have hheld : ∀ t', gh.held t' = some fp → t' = t := by
    intro t' hheld
    cases guard with
    | own => exact hinv.held_unique hheld hprotects
    | hash => exact (halone t').2 (hinv.holds rfl _ _ hheld)
  constructor <;> dsimp only
  case linked => exact hlinked
  case locked =>
    rw [hmutex]
    exact ⟨hinv.locked.held, fun ptr hptr => hinv.locked.inited ptr (inTable_remove.mp hptr).2⟩
  case placed =>
    rw [hlive, hmine]
    exact hinv.placed.withdraw (mine_eq_none hpriv) hin (fun t' => (halone t').1) hheld
      fun t' => (halone t').2
  case drafted =>
    refine ⟨fun t' ptr draft' hupdate => ?_, fun t' ptr draft' hupdate hptr => ?_⟩ <;>
      rcases update_cases hupdate with ⟨rfl, heq'⟩ | ⟨_, hpriv'⟩
    · cases heq'
      exact ⟨foo, (hframe _ (.inl rfl)).trans hcell, hdescribes⟩
    · obtain ⟨foo', hcell', hdescribes'⟩ := hinv.drafted.describes _ _ _ hpriv'
      have hout := hinv.placed.outside _ _ (mine_eq_some hpriv')
      exact ⟨foo', (hframe _ (.inr hout)).trans hcell', hdescribes'⟩
    · cases heq'
      have hcount' : some foo.fCount = some count := (Mem.view_live hcell).symm.trans hvalue
      rw [hptr, one_self] at hcount
      rw [← hdescribes.count, Option.some.inj hcount', hcount]
      rfl
    · exact hinv.drafted.count _ _ _ hpriv' hptr
  case making =>
    intro t' ptr draft' hupdate
    rcases update_cases hupdate with ⟨rfl, heq'⟩ | ⟨ht, hpriv'⟩
    · cases heq'
      rw [update_self]
      exact .unlinked hown
    · rw [update_of_ne ht]
      exact hinv.making _ _ _ hpriv'
  case positive =>
    exact fun hguard ptr hptr => hinv.positive hguard ptr (inTable_remove.mp hptr).2
  case holds => exact hinv.holds
  case counted =>
    rw [hcounts]
    exact fun ptr hptr => hinv.counted ptr (inTable_remove.mp hptr).2
  case knows =>
    rw [hcounts, hhash]
    refine ⟨fun t' ptr value hupdate => ?_, fun t' ptr hupdate => ?_⟩
    · obtain ⟨ht, hknown'⟩ := of_update_none hupdate
      obtain ⟨hin', hrest⟩ := hinv.knows.known _ _ _ hknown'
      refine ⟨inTable_remove.mpr ⟨?_, hin'⟩, hrest⟩
      rintro rfl
      exact ht (hinv.known_unique hknown' hknown)
    · exact hinv.knows.pend _ _ (of_update_none hupdate).2
  case used =>
    rw [hgiven, hmine]
    intro ptr
    rw [hinv.used ptr]
    refine and_congr_right fun _ => forall_congr' fun t' => forall_congr' fun call => ?_
    rcases eq_or_ne t' t with rfl | ht
    · simp [mine_eq_none hpriv]
    · rw [update_of_ne ht, update_of_ne ht]
  case referred =>
    rw [hmine]
    intro t' ptr hmine'
    rcases eq_or_ne t' t with rfl | ht
    · rw [update_self] at hmine'
      have hne : gh.inCall t' ≠ some ptr := by
        intro hptr
        cases hinCall ptr hptr
        exact hmine' rfl
      rw [update_self, update_self, refs_freeing, one_of_ne hne, one_none]
    · rw [update_of_ne ht] at hmine'
      rw [update_of_ne ht, update_of_ne ht]
      exact hinv.referred t' ptr hmine'

omit hinv in
theorem outstanding_settled {owned : A → Nat}
    (hsame : ∀ fp, owned fp + one inCall fp = gh.owned t fp + one (gh.inCall t) fp)
    (status : Status A) (fp : A) :
    outstanding (gh.settled t owned status inCall).owned
      (gh.settled t owned status inCall).inCall fp = outstanding gh.owned gh.inCall fp := by
  refine Finset.sum_congr rfl fun t' _ => ?_
  dsimp only [Ghost.settled]
  rcases eq_or_ne t' t with rfl | ht
  · rw [update_self, update_self, hsame]
  · rw [update_of_ne ht, update_of_ne ht]

theorem settle {owned : A → Nat} (hpriv : gh.priv t = none) (hheld : gh.held t = none)
    (hpend : gh.pend t = none)
    (hsame : ∀ fp, owned fp + one inCall fp = gh.owned t fp + one (gh.inCall t) fp)
    (hrefs : ∀ fp, refs status fp = one inCall fp) :
    Inv guard mem (gh.settled t owned status inCall) := by
  have hsum := outstanding_settled hsame status
  unfold Ghost.settled at hsum ⊢
  have hnone : mine gh.priv t = none := mine_eq_none hpriv
  have hin : ∀ fp, 0 < owned fp + one inCall fp → InTable gh.table fp := by
    intro fp hpos
    rw [hsame] at hpos
    by_cases howned : 0 < gh.owned t fp
    · exact hinv.placed.owned _ _ howned
    · by_cases hinCall : gh.inCall t = some fp
      · exact (hinv.placed.inCall _ _ hinCall).resolve_right (by simp [hnone])
      · rw [one_of_ne hinCall] at hpos
        omega
  refine { hinv with
    placed := ?_, drafted := ?_, making := ?_, holds := ?_, counted := ?_, positive := ?_,
    used := ?_, referred := ?_ }
  · refine { hinv.placed with owned := fun t' fp hpos => ?_, inCall := fun t' fp hsome => ?_ }
    · dsimp only at hpos
      rcases eq_or_ne t' t with rfl | ht
      · rw [update_self] at hpos
        exact hin fp (by omega)
      · rw [update_of_ne ht] at hpos
        exact hinv.placed.owned _ _ hpos
    · rcases update_cases hsome with ⟨_, rfl⟩ | ⟨_, hsome⟩
      · exact .inl (hin fp (by simp))
      · exact hinv.placed.inCall _ _ hsome
  · refine { hinv.drafted with count := fun t' fp draft hpriv' hsome => ?_ }
    rcases update_cases hsome with ⟨rfl, _⟩ | ⟨_, hsome⟩
    · cases hpriv.symm.trans hpriv'
    · exact hinv.drafted.count _ _ _ hpriv' hsome
  · exact making_update hinv.making hpriv _ _
  · exact hinv.holds.update (fun _ => hheld) _
  · intro fp hfp
    rw [hsum]
    exact hinv.counted fp hfp
  · intro hguard fp hfp
    rw [hsum]
    exact hinv.positive hguard fp hfp
  · exact hinv.used.setStatus hnone _
  · intro t' fp hmine
    dsimp only
    rcases eq_or_ne t' t with rfl | ht
    · rw [update_self, update_self, hrefs, hpend, one_none, Nat.add_zero]
    · rw [update_of_ne ht, update_of_ne ht]
      exact hinv.referred t' fp hmine

end Inv

end Shared

end ApueFormal.Threads
