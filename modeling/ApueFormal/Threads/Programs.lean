import ApueFormal.Threads.Ghost

/-!
# The programs keep to the moves

Each program, from the start of its call, comes to its end by moves only.  A search on a
chain and the walk that unlinks an object go along the list of the table.
-/

namespace ApueFormal.Threads

open Program

variable {A : Type} [DecidableEq A] {guard : Guard} {ok : Phase A → Prop} {here : Local A}
  {doom : Fault → Prop} {α : Type} {post : Except Fault α → Local A → Prop}

/-- A call has been made and nothing has been done. -/
structure Started (call : Call A) (here : Local A) : Prop where
  status : here.status = some (call, .pending)
  table : here.table = none
  held : here.held = none
  priv : here.priv = none
  pend : here.pend = none
  inCall : here.inCall = call.takes
  owned : ∀ fp, call = .fooHold fp → 0 < here.owned fp

/-- A call has taken effect, and its thread has no lock and no object of its own. -/
structure Finished (call : Call A) (value : Option A) (here : Local A) : Prop where
  status : here.status = some (call, .finished value)
  table : here.table = none
  held : here.held = none
  priv : here.priv = none
  pend : here.pend = none

def Ends (call : Call A) : Except Fault (Option A) → Local A → Prop
  | .ok value, here => Finished call value here
  | .error _, _ => False

theorem Wp.move {op : Op A} {accepted : op.Answer → Local A → Prop}
    {next : op.Answer → FooProg A α} (hmove : Move guard ok here op accepted)
    (hnext : ∀ answer after, accepted answer after →
      Wp (theory guard ok) doom post (next answer) after) :
    Wp (theory guard ok) doom post (.call op next) here :=
  .call accepted (fun _ => False) hmove hnext nofun

theorem Wp.ends {call : Call A} {program : FooProg A Unit}
    (hwp : Wp (theory guard ok) doom
      (fun result after => result = .ok () ∧ Finished call none after) program here) :
    Wp (theory guard ok) doom (Ends call) (program.bind fun _ => .ret none) here := by
  refine Wp.bind hwp ?_ ?_
  · rintro ⟨⟩ after ⟨_, hfinished⟩
    exact .ret hfinished
  · rintro fault after ⟨⟨⟩, _⟩

variable {id : Int} {table : Table A} {fp : A}

theorem fooAlloc_ends (hstart : Started (.fooAlloc id) here) :
    Wp (theory guard ok) doom (Ends (.fooAlloc id)) (fooAlloc id) here := by
  unfold fooAlloc
  refine Wp.move (.malloc hstart.status hstart.priv hstart.inCall) ?_
  rintro answer after (⟨rfl, hok, rfl⟩ | ⟨fp, draft, rfl, hok, rfl⟩)
  · exact .ret ⟨rfl, hstart.table, hstart.held, hstart.priv, hstart.pend⟩
  refine Wp.move (.draftCount hstart.status rfl hstart.inCall) ?_
  rintro _ _ rfl
  refine Wp.move (.draftId rfl) ?_
  rintro _ _ rfl
  refine Wp.move (.mutexInit hstart.status rfl rfl hstart.held hok) ?_
  rintro answer after (⟨rfl, hok, rfl⟩ | ⟨rfl, hok, rfl⟩)
  · refine Wp.move (.lockHash hstart.table hstart.held) ?_
    rintro _ _ ⟨table, _, rfl⟩
    refine Wp.move (.getHead rfl) ?_
    rintro head _ ⟨rfl, rfl⟩
    refine Wp.move (.draftNext rfl) ?_
    rintro _ _ rfl
    refine Wp.move (.publish rfl hstart.status rfl rfl rfl rfl rfl rfl hstart.pend hok) ?_
    rintro _ _ rfl
    refine Wp.move (.lock hstart.held (.table rfl (inTable_insert.mpr (.inl rfl))) fun _ => rfl) ?_
    rintro _ _ rfl
    refine Wp.move (.unlockHash rfl hstart.pend) ?_
    rintro _ _ rfl
    refine Wp.move (.unlock (by cases guard <;> rfl)) ?_
    rintro _ _ rfl
    refine .ret ?_
    cases guard <;> exact ⟨rfl, rfl, rfl, rfl, hstart.pend⟩
  · refine Wp.move (.free rfl hstart.table hstart.held hstart.pend rfl rfl) ?_
    rintro _ _ rfl
    exact .ret ⟨rfl, hstart.table, hstart.held, rfl, hstart.pend⟩

theorem walk_finds {idx : Fin 29} {rest : List (A × Int)} (htable : here.table = some table)
    (hnodup : ((table idx).map Prod.fst).Nodup) (before nodes : List (A × Int))
    (hnodes : nodes ≠ []) (hchain : table idx = before ++ (nodes ++ (fp, id) :: rest)) :
    Wp (theory guard ok) doom
      (fun result after => ∃ prev prevId before', result = .ok prev ∧ after = here ∧
        table idx = before' ++ (prev, prevId) :: (fp, id) :: rest)
      (walk fp (headOf nodes)) here := by
  induction nodes generalizing before with
  | nil => exact absurd rfl hnodes
  | cons node nodes ih =>
    refine Wp.iteration trivial ?_
    refine Wp.move (.getNext htable hchain) ?_
    rintro next here ⟨rfl, rfl⟩
    cases nodes with
    | nil =>
      exact Wp.ifPos rfl (.ret (.ret ⟨node.1, node.2, before, rfl, rfl, hchain⟩))
    | cons node' nodes =>
      have hne : node'.1 ≠ fp := by
        rw [hchain] at hnodup
        simp only [List.map_append, List.map_cons, List.cons_append, List.nodup_append,
          List.nodup_cons, List.mem_append, List.mem_cons, not_or] at hnodup
        exact hnodup.2.1.2.1.2.1
      refine Wp.ifNeg (fun heq => hne (Option.some.inj heq)) ?_
      refine Wp.move (.getNext htable hchain) ?_
      rintro next here ⟨rfl, rfl⟩
      refine .ret (ih (before ++ [node]) (List.cons_ne_nil _ _) ?_)
      rw [hchain, List.append_assoc]
      rfl

theorem unlink_unlinks (htable : here.table = some table)
    (hhashed : ∀ idx fp id, (fp, id) ∈ table idx → hash id = idx)
    (hnodup : ∀ idx, ((table idx).map Prod.fst).Nodup) (hin : InTable table fp)
    (hstatus : here.status = some (.fooRele fp, .pending)) (hpriv : here.priv = none)
    (hdoomed : here.Doomed fp guard) :
    Wp (theory guard ok) doom
      (fun result after => result = .ok () ∧
        ∃ draft, draft.inited = true ∧ after = here.unlinked table fp draft)
      (unlink fp) here := by
  obtain ⟨idx, id, hmem⟩ := hin
  obtain rfl := hhashed _ _ _ hmem
  obtain ⟨nodes, rest, hchain⟩ := List.append_of_mem hmem
  unfold unlink
  refine Wp.move (.getId htable hmem) ?_
  rintro id here ⟨rfl, rfl⟩
  refine Wp.move (.getHead htable) ?_
  rintro _ here ⟨rfl, rfl⟩
  cases nodes with
  | nil =>
    refine Wp.ifPos (by rw [hchain]; rfl) ?_
    refine Wp.move (.getNext htable hchain) ?_
    rintro _ _ ⟨rfl, rfl⟩
    refine Wp.move (.unlinkHead htable hchain hstatus hpriv hdoomed) ?_
    rintro _ _ ⟨draft, hinited, rfl⟩
    exact .ret ⟨rfl, draft, hinited, rfl⟩
  | cons node nodes =>
    have hne : node.1 ≠ fp := by
      have hnodup := hnodup (hash id)
      rw [hchain] at hnodup
      simp only [List.map_append, List.map_cons, List.cons_append, List.nodup_cons,
        List.mem_append, List.mem_cons, not_or] at hnodup
      exact hnodup.1.2.1
    have hhead : headOf (table (hash id)) = some node.1 := by
      rw [hchain]
      rfl
    refine Wp.ifNeg (fun heq => hne (Option.some.inj (hhead.symm.trans heq))) ?_
    have hwalk : Wp (theory guard ok) doom _ (walk fp (headOf (node :: nodes))) here :=
      walk_finds htable (hnodup _) [] (node :: nodes) (List.cons_ne_nil _ _) hchain
    rw [hhead]
    refine Wp.bind hwalk ?_ ?_
    case refine_2 =>
      rintro fault after ⟨_, _, _, ⟨⟩, _⟩
    rintro prev here ⟨_, prevId, before, ⟨⟩, rfl, hsplit⟩
    refine Wp.move (.getNext htable hchain) ?_
    rintro _ here ⟨rfl, rfl⟩
    refine Wp.move (.unlinkNext htable hsplit hstatus hpriv hdoomed) ?_
    rintro _ _ ⟨draft, hinited, rfl⟩
    exact .ret ⟨rfl, draft, hinited, rfl⟩

variable {hold : A → FooProg A Unit}

theorem search_finds {held : A → Local A → Prop} (htable : here.table = some table)
    (hhold : ∀ fp, lookup table id = some fp → InTable table fp →
      Wp (theory guard ok) doom (fun result after => result = .ok () ∧ held fp after)
        (hold fp) here) (before nodes : List (A × Int)) (hchain : table (hash id) = before ++ nodes)
    (hbefore : ∀ node ∈ before, node.2 ≠ id) :
    Wp (theory guard ok) doom
      (fun result after => (result = .ok none ∧ after = here ∧ lookup table id = none) ∨
        ∃ fp, result = .ok (some fp) ∧ held fp after)
      (search hold id (headOf nodes)) here := by
  induction nodes generalizing before with
  | nil =>
    refine Wp.iteration trivial (.ret (.ret (.inl ⟨rfl, rfl, ?_⟩)))
    rw [lookup, hchain, List.append_nil, List.find?_eq_none.mpr]
    · rfl
    · exact fun node hnode => by simpa using hbefore node hnode
  | cons node nodes ih =>
    have hmem : (node.1, node.2) ∈ table (hash id) := by
      rw [hchain]
      simp
    refine Wp.iteration trivial ?_
    refine Wp.move (.getId htable hmem) ?_
    rintro (found : Int) _ ⟨hfound, rfl⟩
    by_cases hid : node.2 = id
    · refine Wp.ifPos (hfound.trans hid) ?_
      have hlookup : lookup table id = some node.1 := by
        have hnone : before.find? (fun entry => decide (entry.2 = id)) = none :=
          List.find?_eq_none.mpr fun entry hentry => by simpa using hbefore entry hentry
        rw [lookup, hchain, List.find?_append, hnone, Option.none_or, List.find?_cons_of_pos]
        · rfl
        · simpa using hid
      refine Wp.bind (hhold node.1 hlookup ⟨_, _, hmem⟩) ?_ ?_
      · rintro ⟨⟩ after ⟨_, hheld⟩
        exact .ret (.ret (.inr ⟨node.1, rfl, hheld⟩))
      · rintro fault after ⟨⟨⟩, _⟩
    · refine Wp.ifNeg (fun heq => hid (hfound.symm.trans heq)) ?_
      refine Wp.move (.getNext htable hchain) ?_
      rintro next _ ⟨rfl, rfl⟩
      refine .ret (ih (before ++ [node]) ?_ ?_)
      · rw [hchain, List.append_assoc]
        rfl
      · intro entry hentry
        rcases List.mem_append.mp hentry with hentry | hentry
        · exact hbefore entry hentry
        · rwa [List.mem_singleton.mp hentry]

/-- `foo_find` from what is done with the object that is found. -/
theorem findWith_ends (hstart : Started (.fooFind id) here)
    (hhold : ∀ table fp, Sees here table → lookup table id = some fp → InTable table fp →
      Wp (theory guard ok) doom
        (fun result after => result = .ok () ∧
          after.status = some (.fooFind id, .finished (some fp)) ∧ after.table = some table ∧
          after.held = none ∧ after.priv = none ∧ after.pend = none)
        (hold fp) { here with table := some table }) :
    Wp (theory guard ok) doom (Ends (.fooFind id)) (findWith hold id) here := by
  unfold findWith
  refine Wp.move (.lockHash hstart.table hstart.held) ?_
  rintro _ _ ⟨table, hsees, rfl⟩
  refine Wp.move (.getHead rfl) ?_
  rintro _ _ ⟨rfl, rfl⟩
  change Wp _ _ _ ((search hold id (headOf (table (hash id)))).bind _) _
  refine Wp.bind (search_finds rfl (fun fp hlookup hin => hhold table fp hsees hlookup hin) []
    (table (hash id)) rfl nofun) ?_ ?_
  case refine_2 => rintro fault after (⟨⟨⟩, _⟩ | ⟨fp, ⟨⟩, _⟩)
  rintro value after (⟨hvalue, rfl, hlookup⟩ | ⟨fp, hvalue, hstatus, htable, hheld, hpriv, hpend⟩)
  · cases hvalue
    refine Wp.move (.notFound rfl hstart.pend hstart.priv hstart.status hlookup) ?_
    rintro _ _ rfl
    refine .ret ?_
    cases guard <;> exact ⟨rfl, rfl, hstart.held, hstart.priv, hstart.pend⟩
  · cases hvalue
    refine Wp.move (.unlockHash htable hpend) ?_
    rintro _ _ rfl
    refine .ret ?_
    cases guard <;> exact ⟨hstatus, rfl, hheld, hpriv, hpend⟩

theorem Mutex2.fooHold_gains {status : Status A} (hheld : here.held = none)
    (hpriv : here.priv = none) (hreach : Reach here fp)
    (hmove : ∀ count, Move .own ok { here with held := some fp, known := some (fp, count) }
      (.setCount fp (count + 1)) fun _ after =>
        after = { here with
          status := status, inCall := some fp, held := some fp, known := some (fp, count + 1) }) :
    Wp (theory .own ok) doom
      (fun result after => result = .ok () ∧
        after = { here with status := status, inCall := some fp, held := none, known := none })
      (Mutex2.fooHold fp) here := by
  unfold Mutex2.fooHold increment
  refine Wp.move (.lock hheld hreach nofun) ?_
  rintro _ _ rfl
  refine Wp.move (.getCount ⟨rfl, hpriv⟩) ?_
  rintro (count : Int) _ ⟨_, rfl⟩
  refine Wp.move (hmove count) ?_
  rintro _ _ rfl
  refine Wp.move (.unlock rfl) ?_
  rintro _ _ rfl
  exact .ret ⟨rfl, rfl⟩

theorem Mutex2.fooHold_ends (hstart : Started (.fooHold fp) here) :
    Wp (theory .own ok) doom (Ends (.fooHold fp)) (mutex2 (.fooHold fp)) here := by
  refine Wp.ends (Wp.imp (Mutex2.fooHold_gains hstart.held hstart.priv
    (.owned (hstart.owned fp rfl)) fun count =>
      .hold rfl hstart.status hstart.priv hstart.inCall) ?_)
  rintro _ _ ⟨rfl, rfl⟩
  exact ⟨rfl, rfl, hstart.table, rfl, hstart.priv, hstart.pend⟩

theorem Mutex2.fooFind_ends (hstart : Started (.fooFind id) here) :
    Wp (theory .own ok) doom (Ends (.fooFind id)) (mutex2 (.fooFind id)) here := by
  refine findWith_ends hstart fun table fp _ hlookup hin => ?_
  refine Wp.imp (Mutex2.fooHold_gains hstart.held hstart.priv (.table rfl hin) fun count =>
    .found rfl rfl hstart.status hstart.priv hstart.inCall hlookup) ?_
  rintro _ _ ⟨rfl, rfl⟩
  exact ⟨rfl, rfl, rfl, rfl, hstart.priv, hstart.pend⟩

theorem Mutex2.fooRele_ends (hstart : Started (.fooRele fp) here) :
    Wp (theory .own ok) doom (Ends (.fooRele fp)) (mutex2 (.fooRele fp)) here := by
  refine Wp.ends ?_
  unfold Mutex2.fooRele
  refine Wp.move (.lock hstart.held (.inCall hstart.inCall hstart.priv) nofun) ?_
  rintro _ _ rfl
  refine Wp.move (.getCount ⟨rfl, hstart.priv⟩) ?_
  rintro (count : Int) _ ⟨_, rfl⟩
  by_cases hone : count = 1
  · refine Wp.ifPos hone ?_
    refine Wp.move (.unlock rfl) ?_
    rintro _ _ rfl
    refine Wp.move (.lockHash hstart.table rfl) ?_
    rintro _ _ ⟨table, hsees, rfl⟩
    refine Wp.move (.lock rfl (.inCall hstart.inCall hstart.priv) nofun) ?_
    rintro _ _ rfl
    refine Wp.move (.getCount ⟨rfl, hstart.priv⟩) ?_
    rintro (count : Int) _ ⟨_, rfl⟩
    by_cases hone : count = 1
    · refine Wp.ifNeg (fun hne => hne hone) ?_
      subst hone
      have hin := hsees.inCall fp hstart.inCall hstart.priv
      refine Wp.bind (unlink_unlinks rfl hsees.hashed hsees.nodup hin hstart.status hstart.priv
        ⟨rfl, hstart.inCall, hstart.pend⟩) ?_ ?_
      case refine_2 => rintro fault after ⟨⟨⟩, _⟩
      rintro ⟨⟩ _ ⟨_, draft, hinited, rfl⟩
      refine Wp.move (.unlockHash rfl rfl) ?_
      rintro _ _ rfl
      refine Wp.move (.unlock rfl) ?_
      rintro _ _ rfl
      refine Wp.move (.mutexDestroy rfl hinited rfl) ?_
      rintro _ _ rfl
      refine Wp.move (.free rfl rfl rfl rfl rfl rfl) ?_
      rintro _ _ rfl
      exact .ret ⟨rfl, rfl, rfl, rfl, rfl, rfl⟩
    · refine Wp.ifPos hone ?_
      refine Wp.move (.getCount ⟨rfl, hstart.priv⟩) ?_
      rintro (count' : Int) _ ⟨hsame, rfl⟩
      obtain rfl := hsame count rfl
      refine Wp.move (.release rfl hstart.status hstart.priv hstart.inCall nofun hone) ?_
      rintro _ _ rfl
      refine Wp.move (.unlock rfl) ?_
      rintro _ _ rfl
      refine Wp.move (.unlockHash rfl hstart.pend) ?_
      rintro _ _ rfl
      exact .ret ⟨rfl, rfl, rfl, rfl, hstart.priv, hstart.pend⟩
  · refine Wp.ifNeg hone ?_
    refine Wp.move (.getCount ⟨rfl, hstart.priv⟩) ?_
    rintro (count' : Int) _ ⟨hsame, rfl⟩
    obtain rfl := hsame count rfl
    refine Wp.move (.release rfl hstart.status hstart.priv hstart.inCall nofun hone) ?_
    rintro _ _ rfl
    refine Wp.move (.unlock rfl) ?_
    rintro _ _ rfl
    exact .ret ⟨rfl, rfl, hstart.table, rfl, hstart.priv, hstart.pend⟩

theorem Mutex3.increment_gains {status : Status A} (htable : here.table = some table)
    (hin : InTable table fp) (hmove : ∀ count, Move .hash ok { here with known := some (fp, count) }
      (.setCount fp (count + 1)) fun _ after =>
        after = { here with status := status, inCall := some fp, known := some (fp, count + 1) }) :
    Wp (theory .hash ok) doom
      (fun result after => result = .ok () ∧ ∃ known,
        after = { here with status := status, inCall := some fp, known := known })
      (increment fp) here := by
  unfold increment
  refine Wp.move (.getCount ⟨table, htable, hin⟩) ?_
  rintro (count : Int) _ ⟨_, rfl⟩
  refine Wp.move (hmove count) ?_
  rintro _ _ rfl
  exact .ret ⟨rfl, _, rfl⟩

theorem Mutex3.fooHold_ends (hstart : Started (.fooHold fp) here) :
    Wp (theory .hash ok) doom (Ends (.fooHold fp)) (mutex3 (.fooHold fp)) here := by
  refine Wp.ends ?_
  unfold Mutex3.fooHold
  refine Wp.move (.lockHash hstart.table hstart.held) ?_
  rintro _ _ ⟨table, hsees, rfl⟩
  change Wp _ _ _ ((increment fp).bind _) _
  refine Wp.bind (Mutex3.increment_gains rfl (hsees.owned fp (hstart.owned fp rfl)) fun count =>
    .hold rfl hstart.status hstart.priv hstart.inCall) ?_ ?_
  case refine_2 => rintro fault after ⟨⟨⟩, _⟩
  rintro ⟨⟩ _ ⟨_, known, rfl⟩
  refine Wp.move (.unlockHash rfl hstart.pend) ?_
  rintro _ _ rfl
  exact .ret ⟨rfl, rfl, rfl, hstart.held, hstart.priv, hstart.pend⟩

theorem Mutex3.fooFind_ends (hstart : Started (.fooFind id) here) :
    Wp (theory .hash ok) doom (Ends (.fooFind id)) (mutex3 (.fooFind id)) here := by
  refine findWith_ends hstart fun table fp _ hlookup hin => ?_
  refine Wp.imp (Mutex3.increment_gains rfl hin fun count =>
    .found rfl rfl hstart.status hstart.priv hstart.inCall hlookup) ?_
  rintro _ _ ⟨rfl, known, rfl⟩
  exact ⟨rfl, rfl, rfl, hstart.held, hstart.priv, hstart.pend⟩

theorem Mutex3.fooRele_ends (hstart : Started (.fooRele fp) here) :
    Wp (theory .hash ok) doom (Ends (.fooRele fp)) (mutex3 (.fooRele fp)) here := by
  refine Wp.ends ?_
  unfold Mutex3.fooRele
  refine Wp.move (.lockHash hstart.table hstart.held) ?_
  rintro _ _ ⟨table, hsees, rfl⟩
  have hin := hsees.inCall fp hstart.inCall hstart.priv
  refine Wp.move (.getCount ⟨table, rfl, hin⟩) ?_
  rintro (count : Int) _ ⟨_, rfl⟩
  by_cases hone : count = 1
  · subst hone
    refine Wp.move (.releaseLast rfl rfl hstart.status hstart.priv hstart.inCall hstart.held) ?_
    rintro _ _ rfl
    change Wp _ _ _ ((unlink fp).bind _) _
    refine Wp.bind (unlink_unlinks rfl hsees.hashed hsees.nodup hin hstart.status hstart.priv
      ⟨rfl, rfl, rfl⟩) ?_ ?_
    case refine_2 => rintro fault after ⟨⟨⟩, _⟩
    rintro ⟨⟩ _ ⟨_, draft, hinited, rfl⟩
    refine Wp.move (.unlockHash rfl rfl) ?_
    rintro _ _ rfl
    refine Wp.move (.mutexDestroy rfl hinited hstart.held) ?_
    rintro _ _ rfl
    refine Wp.move (.free rfl rfl hstart.held rfl rfl rfl) ?_
    rintro _ _ rfl
    exact .ret ⟨rfl, rfl, rfl, hstart.held, rfl, rfl⟩
  · refine Wp.move (.release rfl hstart.status hstart.priv hstart.inCall (fun _ => hstart.held)
      hone) ?_
    rintro _ _ rfl
    refine Wp.ifNeg (fun hzero => hone (by omega)) ?_
    refine Wp.move (.unlockHash rfl hstart.pend) ?_
    rintro _ _ rfl
    exact .ret ⟨rfl, rfl, rfl, hstart.held, hstart.priv, hstart.pend⟩

/-- The calls of an implementation come to their ends, with this protection of the counts. -/
def Obeys (pkg : Package A) (guard : Guard) : Prop :=
  ∀ (ok : Phase A → Prop) (call : Call A) (here : Local A), Started call here →
    Wp (theory guard ok) (fun _ => False) (Ends call) (pkg call) here

theorem mutex2_obeys : Obeys (mutex2 (A := A)) .own := by
  intro ok call here hstart
  cases call with
  | fooAlloc id => exact fooAlloc_ends hstart
  | fooHold fp => exact Mutex2.fooHold_ends hstart
  | fooFind id => exact Mutex2.fooFind_ends hstart
  | fooRele fp => exact Mutex2.fooRele_ends hstart

theorem mutex3_obeys : Obeys (mutex3 (A := A)) .hash := by
  intro ok call here hstart
  cases call with
  | fooAlloc id => exact fooAlloc_ends hstart
  | fooHold fp => exact Mutex3.fooHold_ends hstart
  | fooFind id => exact Mutex3.fooFind_ends hstart
  | fooRele fp => exact Mutex3.fooRele_ends hstart

end ApueFormal.Threads
