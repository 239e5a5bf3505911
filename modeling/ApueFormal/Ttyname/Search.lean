import ApueFormal.Ttyname.Devdirs
import Mathlib.Data.Multiset.AddSub

/-!
# The search of the device tree

The directories that wait in the list stand for trees.  Reading a directory replaces its
tree by those of its subdirectories: no file is lost, and no directory comes twice.
-/

namespace ApueFormal.Ttyname

open Libc Program

/-- The entry has the serial number and the device of the terminal. -/
def Same (fdstat stat : Stat) : Prop := stat.ino = fdstat.ino ∧ stat.dev = fdstat.dev

instance : LawfulBEq Bytes := inferInstance

mutual

/-- The files of a tree that the search compares with the terminal. -/
def compared (path : Bytes) : Tree → List (Bytes × Stat)
  | .unstatable => []
  | .file stat => [(path, stat)]
  | .dir _ readable entries =>
    if readable ∧ path ≠ devFd then comparedBelow (path ++ [slash]) entries else []

def comparedBelow (lead : Bytes) : Entries → List (Bytes × Stat)
  | .nil => []
  | .cons name tree rest =>
    (if lead ++ name.bytes ∈ aliases then [] else compared (lead ++ name.bytes) tree) ++
      comparedBelow lead rest

end

/-- What is assumed of the entries of a directory: their names are distinct, their paths
fit in the buffer, and `.` and `..` are directories. -/
def Fits (fs : FileSystem) (dir : Bytes) : Prop :=
  ∀ names, fs.opendir dir = some names → names.Nodup ∧ ∀ name ∈ names,
    (dir ++ [slash] ++ name).length ≤ posixPathMax ∧
    (isProper name = false → ∀ stat, fs.stat (dir ++ [slash] ++ name) = some stat →
      stat.type = .dir)

/-- Directories that wait to be read. -/
abbrev Forest := List (Bytes × Tree)

def Forest.files (forest : Forest) : List (Bytes × Stat) :=
  forest.flatMap fun item => compared item.1 item.2

def Forest.dirs (forest : Forest) : List Bytes := forest.flatMap fun item => item.2.dirs item.1

theorem Forest.files_cons (item : Bytes × Tree) (forest : Forest) :
    Forest.files (item :: forest) = compared item.1 item.2 ++ forest.files := List.flatMap_cons

theorem Forest.dirs_cons (item : Bytes × Tree) (forest : Forest) :
    Forest.dirs (item :: forest) = item.2.dirs item.1 ++ forest.dirs := List.flatMap_cons

theorem Forest.files_append (forest forest' : Forest) :
    (forest ++ forest').files = forest.files ++ forest'.files := List.flatMap_append

theorem Forest.dirs_append (forest forest' : Forest) :
    (forest ++ forest').dirs = forest.dirs ++ forest'.dirs := List.flatMap_append

/-- A directory of the tree that the search may read. -/
structure Waits (fs : FileSystem) (item : Bytes × Tree) : Prop where
  dir : ∃ stat readable entries, item.2 = .dir stat readable entries
  holds : item.2.At fs [] item.1
  fits : ∀ dir ∈ item.2.dirs item.1, Fits fs dir
  notFd : item.1 ≠ devFd
  noNul : (0 : Byte) ∉ item.1
  nonempty : item.1 ≠ []

variable {Ptr : Type} [DecidableEq Ptr] {env : Env Ptr} {fdstat : Stat} {opened : List Bytes}
  {nodes : List (Ptr × Bytes)} {files : List (Bytes × Stat)} {dirs : List Bytes}
  {result : Except Exit (Bool × Search Ptr)}

/-- A file was found, or the files are those of the directories put in the list. -/
def Searched (env : Env Ptr) (fdstat : Stat) (opened : List Bytes) (nodes : List (Ptr × Bytes))
    (files : List (Bytes × Stat)) (dirs : List Bytes) (result : Except Exit (Bool × Search Ptr)) :
    Prop :=
  ∃ found search added, ∃ forest : Forest, result = .ok (found, search) ∧
    search.Holds env (nodes ++ added) ∧ search.opened = opened ∧
    added.map Prod.snd = forest.map Prod.fst ∧ (∀ item ∈ forest, Waits env.fs item) ∧
    (forest.dirs : Multiset Bytes) ≤ dirs ∧
    if found then ∃ stat, (cstr search.pathname, stat) ∈ files ∧ Same fdstat stat
    else ∀ file, Same fdstat file.2 → (file ∈ files ↔ file ∈ forest.files)

omit [DecidableEq Ptr] in
theorem Searched.skip (hsearched : Searched env fdstat opened nodes files dirs result)
    {more : List (Bytes × Stat)} (hmore : ∀ file ∈ more, ¬ Same fdstat file.2)
    (others : List Bytes) :
    Searched env fdstat opened nodes (more ++ files) (others ++ dirs) result := by
  obtain ⟨found, search, added, forest, hresult, hholds, hopened, hnames, hwaits, hdirs, hfiles⟩ :=
    hsearched
  refine ⟨found, search, added, forest, hresult, hholds, hopened, hnames, hwaits, ?_, ?_⟩
  · rw [← Multiset.coe_add]
    exact hdirs.trans (Multiset.le_add_left _ _)
  · cases found with
    | true =>
      obtain ⟨stat, hmem, hsame⟩ := hfiles
      exact ⟨stat, List.mem_append_right _ hmem, hsame⟩
    | false =>
      intro file hsame
      rw [List.mem_append, hfiles file hsame]
      exact or_iff_right fun hmem => hmore file hmem hsame

omit [DecidableEq Ptr] in
theorem Searched.queue (ptr : Ptr) (item : Bytes × Tree)
    (hsearched : Searched env fdstat opened (nodes ++ [(ptr, item.1)]) files dirs result)
    (hitem : Waits env.fs item) :
    Searched env fdstat opened nodes (compared item.1 item.2 ++ files)
      (item.2.dirs item.1 ++ dirs) result := by
  obtain ⟨found, search, added, forest, hresult, hholds, hopened, hnames, hwaits, hdirs, hfiles⟩ :=
    hsearched
  rw [List.append_assoc] at hholds
  refine ⟨found, search, (ptr, item.1) :: added, item :: forest, hresult, hholds, hopened, ?_, ?_,
    ?_, ?_⟩
  · rw [List.map_cons, List.map_cons, hnames]
  · intro other hmem
    rcases List.mem_cons.mp hmem with rfl | hmem
    · exact hitem
    · exact hwaits other hmem
  · rw [Forest.dirs_cons, ← Multiset.coe_add, ← Multiset.coe_add]
    exact Multiset.add_le_add_left hdirs
  · cases found with
    | true =>
      obtain ⟨stat, hmem, hsame⟩ := hfiles
      exact ⟨stat, List.mem_append_right _ hmem, hsame⟩
    | false =>
      intro file hsame
      rw [Forest.files_cons, List.mem_append, List.mem_append, hfiles file hsame]

omit [DecidableEq Ptr] in
theorem Searched.nothing {search : Search Ptr} (hholds : search.Holds env nodes)
    (dirs : List Bytes) :
    Searched env fdstat search.opened nodes [] dirs (.ok (false, search)) := by
  refine ⟨false, search, [], [], rfl, ?_, rfl, rfl, nofun, Multiset.zero_le _, ?_⟩
  · rw [List.append_nil]
    exact hholds
  · exact fun _ _ => Iff.rfl

/-! ## The loop over the entries of a directory -/

variable {search : Search Ptr} {dir name : Bytes}

theorem noNul_lead (hnul : (0 : Byte) ∉ dir) : (0 : Byte) ∉ dir ++ [slash] := by
  simp [hnul, show (0 : Byte) ≠ slash by decide]

theorem noNul_entry (hnul : (0 : Byte) ∉ dir) (hname : (0 : Byte) ∉ name) :
    (0 : Byte) ∉ dir ++ [slash] ++ name := by
  rw [List.mem_append, not_or]
  exact ⟨noNul_lead hnul, hname⟩

omit [DecidableEq Ptr] in
theorem Search.Holds.print (hholds : search.Holds env nodes)
    (hlead : dir ++ [slash] <+: search.pathname) (hnul : (0 : Byte) ∉ dir ++ [slash] ++ name)
    (hlength : (dir ++ [slash] ++ name).length ≤ posixPathMax) :
    ∃ pathname, search.print (dir ++ [slash]).length name =
        .ok { search with pathname := pathname } ∧
      Search.Holds env { search with pathname := pathname } nodes ∧
      dir ++ [slash] <+: pathname ∧ cstr pathname = dir ++ [slash] ++ name := by
  have hbuffer := hholds.buffer
  rw [List.length_append] at hlength
  unfold pathnameSize at hbuffer
  obtain ⟨pathname, hprint, hshows, hsame⟩ := snprintfAt_shows hlead
    (show name.length < pathnameSize - (dir ++ [slash]).length by unfold pathnameSize; omega)
    (show (dir ++ [slash]).length + (pathnameSize - (dir ++ [slash]).length) ≤
      search.pathname.length by unfold pathnameSize; omega)
  refine ⟨pathname, ?_, hholds.write hsame _, (List.prefix_append _ _).trans hshows.begins,
    hshows.cstr_eq hnul⟩
  rw [Search.print, hprint]

variable {rest : List Bytes}

section

variable {pathname : Bytes} {devlen : Nat}
  (hprint : search.print devlen name = .ok { search with pathname := pathname })
include hprint

theorem searchEntries_cons :
    searchEntries env fdstat devlen (name :: rest) search =
      if cstr pathname ∈ aliases then
        searchEntries env fdstat devlen rest { search with pathname := pathname }
      else
        match env.fs.stat (cstr pathname) with
        | none => searchEntries env fdstat devlen rest { search with pathname := pathname }
        | some devstat =>
          if devstat.type = .dir then do
            let search ← Search.add env { search with pathname := pathname } (cstr pathname)
            searchEntries env fdstat devlen rest search
          else if devstat.ino = fdstat.ino ∧ devstat.dev = fdstat.dev then
            .ok (true, { search with pathname := pathname })
          else searchEntries env fdstat devlen rest { search with pathname := pathname } := by
  rw [searchEntries, hprint]
  rfl

theorem searchEntries_dots (hdots : isDots (cstr pathname) = true)
    (hdir : ∀ stat, env.fs.stat (cstr pathname) = some stat → stat.type = .dir) :
    searchEntries env fdstat devlen (name :: rest) search =
      searchEntries env fdstat devlen rest { search with pathname := pathname } := by
  rw [searchEntries_cons hprint]
  split
  · rfl
  · cases hstat : env.fs.stat (cstr pathname) with
    | none => rfl
    | some stat =>
      dsimp only
      rw [if_pos (hdir stat hstat), Search.add, if_pos hdots]
      rfl

end

theorem noNul_of_improper (himproper : isProper name = false) :
    name ≠ [] ∧ (0 : Byte) ∉ name ∧ slash ∉ name := by
  have hcases : name = [dot] ∨ name = [dot, dot] := by
    by_contra hnot
    rw [not_or] at hnot
    simp [isProper, hnot] at himproper
  rcases hcases with rfl | rfl <;> decide

theorem Searched.entry (halloc : env.Allocates) (hdir : dir ≠ []) (hnul : (0 : Byte) ∉ dir)
    {name : Name} {tree : Tree} (hlength : (dir ++ [slash] ++ name.bytes).length ≤ posixPathMax)
    (htree : tree.At env.fs [] (dir ++ [slash] ++ name.bytes))
    (hfits : ∀ sub ∈ tree.dirs (dir ++ [slash] ++ name.bytes), Fits env.fs sub)
    (hholds : search.Holds env nodes) (hlead : dir ++ [slash] <+: search.pathname)
    (hrest : ∀ (search' : Search Ptr) nodes', search'.Holds env nodes' →
      dir ++ [slash] <+: search'.pathname → search'.opened = search.opened →
      Searched env fdstat search.opened nodes' files dirs
        (searchEntries env fdstat (dir ++ [slash]).length rest search')) :
    Searched env fdstat search.opened nodes
      ((if dir ++ [slash] ++ name.bytes ∈ aliases then []
        else compared (dir ++ [slash] ++ name.bytes) tree) ++ files)
      (tree.dirs (dir ++ [slash] ++ name.bytes) ++ dirs)
      (searchEntries env fdstat (dir ++ [slash]).length (name.bytes :: rest) search) := by
  have hnul' := noNul_entry hnul name.noNul
  obtain ⟨pathname, hprint, hholds', hlead', hcstr⟩ := hholds.print hlead hnul' hlength
  have hskip := hrest _ nodes hholds' hlead' rfl
  rw [searchEntries_cons hprint, hcstr]
  generalize hpath : dir ++ [slash] ++ name.bytes = path at *
  have hdots : isDots path = false := by
    rw [← hpath, isDots_append hdir name.nonempty name.noSlash, name.isProper]
    rfl
  by_cases halias : path ∈ aliases
  · rw [if_pos halias, if_pos halias]
    exact hskip.skip (List.forall_mem_nil _) _
  rw [if_neg halias, if_neg halias]
  cases tree with
  | unstatable =>
    rw [show env.fs.stat path = none from htree]
    exact hskip.skip (List.forall_mem_nil _) _
  | file stat =>
    obtain ⟨hstat, htype⟩ := htree
    rw [hstat]
    dsimp only
    rw [if_neg htype]
    split
    · refine ⟨true, _, [], [], rfl, ?_, rfl, rfl, nofun, Multiset.zero_le _, stat, ?_, ‹_›⟩
      · rw [List.append_nil]
        exact hholds'
      · dsimp only
        rw [hcstr]
        exact List.mem_cons_self
    · refine hskip.skip ?_ _
      intro file hmem
      cases List.mem_singleton.mp hmem
      assumption
  | dir stat readable entries =>
    rw [htree.1]
    dsimp only
    rw [if_pos htree.2.1]
    by_cases hfd : path = devFd
    · rw [Search.add, if_neg (Bool.eq_false_iff.mp hdots), if_pos hfd, compared,
        if_neg fun hboth => hboth.2 hfd]
      exact hskip.skip (List.forall_mem_nil _) _
    · obtain ⟨search', ptr, hadd, hadded, hsame, hopened⟩ := hholds'.add halloc hdots hfd
      rw [hadd]
      refine Searched.queue ptr (path, .dir stat readable entries) ?_ ?_
      · exact hrest search' _ hadded (hsame ▸ hlead') hopened
      · exact ⟨⟨stat, readable, entries, rfl⟩, htree, hfits, hfd, hnul', hpath ▸ by simp⟩

theorem searchEntries_searched (halloc : env.Allocates) (hdir : dir ≠ [])
    (hnul : (0 : Byte) ∉ dir) {names : List Bytes} {entries : Entries}
    (hnames : names.filter isProper = entries.names)
    (hfit : ∀ name ∈ names, (dir ++ [slash] ++ name).length ≤ posixPathMax ∧
      (isProper name = false → ∀ stat, env.fs.stat (dir ++ [slash] ++ name) = some stat →
        stat.type = .dir))
    (hentries : entries.At env.fs [] (dir ++ [slash]))
    (hfits : ∀ sub ∈ entries.dirs (dir ++ [slash]), Fits env.fs sub)
    (hholds : search.Holds env nodes) (hlead : dir ++ [slash] <+: search.pathname) :
    Searched env fdstat search.opened nodes (comparedBelow (dir ++ [slash]) entries)
      (entries.dirs (dir ++ [slash]))
      (searchEntries env fdstat (dir ++ [slash]).length names search) := by
  induction names generalizing entries search nodes with
  | nil =>
    cases entries with
    | nil => exact .nothing hholds _
    | cons name tree rest => cases hnames
  | cons name rest ih =>
    obtain ⟨hlength, hdots⟩ := hfit name List.mem_cons_self
    have hfit' := fun other hmem => hfit other (List.mem_cons_of_mem name hmem)
    cases hproper : isProper name with
    | false =>
      obtain ⟨hne, hnul', hslash⟩ := noNul_of_improper hproper
      obtain ⟨pathname, hprint, hholds', hlead', hcstr⟩ :=
        hholds.print hlead (noNul_entry hnul hnul') hlength
      rw [List.filter_cons_of_neg (by rw [hproper]; exact Bool.false_ne_true)] at hnames
      rw [searchEntries_dots hprint]
      · exact ih hnames hfit' hentries hfits hholds' hlead'
      · rw [hcstr, isDots_append hdir hne hslash, hproper]
        rfl
      · rw [hcstr]
        exact hdots hproper
    | true =>
      rw [List.filter_cons_of_pos hproper] at hnames
      cases entries with
      | nil => cases hnames
      | cons first tree others =>
        obtain ⟨rfl, hothers⟩ := List.cons.inj hnames
        refine Searched.entry halloc hdir hnul hlength hentries.1
          (fun sub hsub => hfits sub (List.mem_append_left _ hsub)) hholds hlead ?_
        intro search' nodes' hholds' hlead' hopened
        rw [← hopened]
        exact ih hothers hfit' hentries.2
          (fun sub hsub => hfits sub (List.mem_append_right _ hsub)) hholds' hlead'

variable {item : Bytes × Tree}

theorem searchdir_searched (fdstat : Stat) (halloc : env.Allocates) (hitem : Waits env.fs item)
    (hholds : search.Holds env nodes) :
    Searched env fdstat (search.opened ++ [item.1]) nodes (compared item.1 item.2)
      (item.2.dirs item.1).tail (searchdir env item.1 fdstat search) := by
  obtain ⟨dir, tree⟩ := item
  obtain ⟨⟨stat, readable, entries, hdir⟩, hat, hfits, hfd, hnul, hne⟩ := hitem
  dsimp only at *
  subst hdir
  obtain ⟨pathname, hprint, hlength⟩ := snprintfAt_inside (dir ++ [slash])
    (show 0 + (pathnameSize - 0) ≤ search.pathname.length by rw [hholds.buffer]; exact le_rfl)
  have hholds' := hholds.write hlength (search.opened ++ [dir])
  have hsearch : searchdir env dir fdstat search =
      (env.fs.opendir dir).elim (.ok (false, { search with
          pathname := pathname, opened := search.opened ++ [dir] }))
        fun names => searchEntries env fdstat (cstr pathname).length names { search with
          pathname := pathname, opened := search.opened ++ [dir] } := by
    rw [searchdir, Search.print, hprint]
    cases env.fs.opendir dir <;> rfl
  obtain ⟨_, _, hopen, hentries⟩ := hat
  rw [List.append_nil] at hopen
  rw [hsearch, compared, Tree.dirs, List.tail_cons]
  cases readable with
  | false =>
    rw [show env.fs.opendir dir = none from hopen]
    exact .nothing hholds' _
  | true =>
    obtain ⟨names, hopen, hnames⟩ := hopen
    obtain ⟨_, hfit⟩ := hfits dir List.mem_cons_self names hopen
    rw [hopen, if_pos ⟨rfl, hfd⟩]
    cases names with
    | nil =>
      cases entries with
      | nil => exact .nothing hholds' _
      | cons name tree rest => cases hnames
    | cons name rest =>
      have hle := (hfit name List.mem_cons_self).1
      rw [List.length_append] at hle
      -- Some entry fits behind the slash, so that the path was not cut.
      obtain ⟨whole, hwhole, hshows, _⟩ := snprintfAt_shows
        (List.nil_prefix (l := search.pathname))
        (show (dir ++ [slash]).length < pathnameSize by unfold pathnameSize; omega)
        (by rw [hholds.buffer]; exact (Nat.zero_add _).le)
      cases hprint.symm.trans hwhole
      rw [hshows.cstr_eq (noNul_lead hnul)]
      exact searchEntries_searched halloc hne hnul hnames hfit hentries
        (fun sub hsub => hfits sub (List.mem_cons_of_mem _ hsub)) hholds' hshows.begins

/-! ## The loop over the list -/

/-- The whole search: what it found, the directories that it read, and the list at its end. -/
def Completed (env : Env Ptr) (fdstat : Stat) (opened : List Bytes) (bound : Nat)
    (files : List (Bytes × Stat)) (dirs : List Bytes) (result : Except Exit (Bool × Search Ptr)) :
    Prop :=
  ∃ found search nodes read, result = .ok (found, search) ∧ search.Holds env nodes ∧
    nodes.length ≤ bound ∧ search.opened = opened ++ read ∧ (read : Multiset Bytes) ≤ dirs ∧
    devFd ∉ read ∧
    if found then ∃ stat, (cstr search.pathname, stat) ∈ files ∧ Same fdstat stat
    else ∀ file ∈ files, ¬ Same fdstat file.2

theorem Waits.dirs_eq {fs : FileSystem} (hitem : Waits fs item) :
    item.2.dirs item.1 = item.1 :: (item.2.dirs item.1).tail := by
  obtain ⟨stat, readable, entries, hdir⟩ := hitem.dir
  rw [hdir]
  rfl

variable {forest : Forest}

theorem Forest.length_le {fs : FileSystem} (hwaits : ∀ item ∈ forest, Waits fs item) :
    forest.length ≤ forest.dirs.length := by
  induction forest with
  | nil => exact Nat.zero_le _
  | cons item forest ih =>
    have hrest := ih fun other hmem => hwaits other (List.mem_cons_of_mem _ hmem)
    rw [Forest.dirs_cons, (hwaits item List.mem_cons_self).dirs_eq]
    simp only [List.cons_append, List.length_cons, List.length_append]
    exact Nat.succ_le_succ (hrest.trans (Nat.le_add_left _ _))

theorem Completed.turn (next : Search Ptr → Except Exit (Bool × Search Ptr))
    (halloc : env.Allocates) (hitem : Waits env.fs item) (hholds : search.Holds env nodes)
    {bound : Nat} (hbound : nodes.length + (item.2.dirs item.1).tail.length ≤ bound)
    (hnext : ∀ (search' : Search Ptr) added (forest' : Forest),
      search'.Holds env (nodes ++ added) → added.map Prod.snd = forest'.map Prod.fst →
      (∀ item ∈ forest', Waits env.fs item) →
      forest'.dirs.length ≤ (item.2.dirs item.1).tail.length →
      Completed env fdstat search'.opened bound (forest ++ forest').files
        (forest ++ forest').dirs (next search')) :
    Completed env fdstat search.opened bound (Forest.files (item :: forest))
      (Forest.dirs (item :: forest)) (do
        let (found, search) ← searchdir env item.1 fdstat search
        if found then .ok (true, search) else next search) := by
  obtain ⟨found, search', added, forest', hresult, hholds', hopened, hnames, hwaits, hdirs,
    hfiles⟩ := searchdir_searched fdstat halloc hitem hholds
  have hshort := Multiset.card_le_card hdirs
  rw [Multiset.coe_card, Multiset.coe_card] at hshort
  have hread : Forest.dirs (item :: forest) =
      item.1 :: ((item.2.dirs item.1).tail ++ forest.dirs) := by
    rw [Forest.dirs_cons, hitem.dirs_eq]
    rfl
  rw [hresult, hread]
  cases found with
  | true =>
    obtain ⟨stat, hmem, hsame⟩ := hfiles
    refine ⟨true, search', _, [item.1], rfl, hholds', ?_, hopened, ?_, ?_, stat, ?_, hsame⟩
    · have hcount := congrArg List.length hnames
      rw [List.length_map, List.length_map] at hcount
      have hforest := Forest.length_le hwaits
      rw [List.length_append]
      omega
    · rw [Multiset.coe_singleton, Multiset.singleton_le, Multiset.mem_coe]
      exact List.mem_cons_self
    · rw [List.mem_singleton]
      exact hitem.notFd.symm
    · exact List.mem_append_left _ hmem
  | false =>
    obtain ⟨found, last, nodes', read, hlast, hlist, hle, hopened', hdirs', hfd, hfound⟩ :=
      hnext search' added forest' hholds' hnames hwaits hshort
    have hall : ∀ file, Same fdstat file.2 →
        (file ∈ Forest.files (item :: forest) ↔ file ∈ (forest ++ forest').files) := by
      intro file hsame
      rw [Forest.files_cons, Forest.files_append, List.mem_append, List.mem_append,
        hfiles file hsame]
      exact or_comm
    refine ⟨found, last, nodes', item.1 :: read, hlast, hlist, hle, ?_, ?_, ?_, ?_⟩
    · rw [hopened', hopened, List.append_assoc]
      rfl
    · rw [← Multiset.cons_coe, ← Multiset.cons_coe]
      refine Multiset.cons_le_cons _ (hdirs'.trans ?_)
      rw [Forest.dirs_append, ← Multiset.coe_add, ← Multiset.coe_add, Multiset.add_comm]
      exact Multiset.add_le_add_right hdirs
    · rw [List.mem_cons, not_or]
      exact ⟨hitem.notFd.symm, hfd⟩
    · cases found with
      | true =>
        obtain ⟨stat, hmem, hsame⟩ := hfound
        exact ⟨stat, (hall (_, stat) hsame).mpr hmem, hsame⟩
      | false => exact fun file hmem hsame => hfound file ((hall file hsame).mp hmem) hsame

def searchNext (env : Env Ptr) (fdstat : Stat) (fuel : Nat) (ddp : Ptr) (search : Search Ptr) :
    Except Exit (Bool × Search Ptr) :=
  match search.devdirs ddp with
  | none => .error .freed
  | some (_, next) => searchList env fdstat fuel next search

theorem searchList_completed (halloc : env.Allocates) {fuel bound : Nat}
    {before waiting : List (Ptr × Bytes)} (hholds : search.Holds env (before ++ waiting))
    (hnames : waiting.map Prod.snd = forest.map Prod.fst)
    (hwaits : ∀ item ∈ forest, Waits env.fs item) (hfuel : forest.dirs.length < fuel)
    (hbound : before.length + forest.dirs.length ≤ bound) :
    Completed env fdstat search.opened bound forest.files forest.dirs
      (searchList env fdstat fuel (headOf waiting) search) := by
  induction fuel generalizing search before waiting forest with
  | zero => cases hfuel
  | succ fuel ih =>
    cases waiting with
    | nil =>
      cases forest with
      | nil =>
        refine ⟨false, search, _, [], rfl, hholds, ?_, (List.append_nil _).symm, le_rfl,
          nofun, List.forall_mem_nil _⟩
        rw [List.append_nil]
        exact hbound
      | cons item forest => cases hnames
    | cons node waiting =>
      cases forest with
      | nil => cases hnames
      | cons item forest =>
        obtain ⟨ptr, name⟩ := node
        obtain ⟨rfl, hothers⟩ := List.cons.inj hnames
        have hitem := hwaits item List.mem_cons_self
        have hrest := fun other hmem => hwaits other (List.mem_cons_of_mem item hmem)
        have hlength := Forest.length_le hrest
        have hcount := congrArg List.length hothers
        rw [List.length_map, List.length_map] at hcount
        rw [Forest.dirs_cons, hitem.dirs_eq, List.length_append, List.length_cons]
          at hfuel hbound
        rw [headOf_cons, searchList, hholds.chain.get]
        refine Completed.turn (searchNext env fdstat fuel ptr) halloc hitem hholds ?_ ?_
        · rw [List.length_append, List.length_cons]
          omega
        · intro search' added forest' hholds' hadded hwaits' hshort
          rw [List.append_assoc, List.cons_append] at hholds'
          rw [searchNext, hholds'.chain.get]
          have hdone : before ++ [(ptr, item.1)] ++ (waiting ++ added) =
              before ++ (ptr, item.1) :: (waiting ++ added) := by simp
          rw [← hdone] at hholds'
          refine ih hholds' ?_ ?_ ?_ ?_
          · rw [List.map_append, List.map_append, hothers, hadded]
          · intro other hmem
            rcases List.mem_append.mp hmem with hmem | hmem
            · exact hrest other hmem
            · exact hwaits' other hmem
          · rw [Forest.dirs_append, List.length_append]
            omega
          · rw [Forest.dirs_append, List.length_append, List.length_append,
              List.length_singleton]
            omega

end ApueFormal.Ttyname
