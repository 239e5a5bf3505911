import ApueFormal.Ttyname.Search

/-!
# What `ttyname` finds

The search compares the files that one comes to through directories that can be read,
except for the aliases, for what is below a directory that has the name of an alias, and
for what is below `/dev/fd`.
-/

namespace ApueFormal.Ttyname

open Libc Program

/-- What the search leaves out behind some paths. -/
def Hidden (below above : Bytes → Prop) (path : Bytes) : Prop :=
  (∃ other ∈ aliases, below other ∧ Leads other path) ∨ above devFd ∧ devFd ++ [slash] <+: path

theorem not_leads_below {path other : Bytes} (hbelow : path ++ [slash] <+: other) :
    ¬ Leads other path := by
  intro hleads
  have hlt := hbelow.length_le.trans hleads.length_le
  rw [List.length_append] at hlt
  exact Nat.not_succ_le_self _ hlt

mutual

variable {file : Bytes × Stat}

theorem mem_compared {path : Bytes} : ∀ tree : Tree,
    file ∈ compared path tree ↔ file ∈ tree.files false path ∧
      ¬ Hidden (path ++ [slash] <+: ·) (Leads path) file.1
  | .unstatable => by simp [compared, Tree.files]
  | .file stat => by
      rw [compared, Tree.files, List.mem_singleton]
      refine (and_iff_left_of_imp ?_).symm
      rintro rfl (⟨other, _, hbelow, hleads⟩ | ⟨hleads, hbelow⟩)
      · exact not_leads_below hbelow hleads
      · exact not_leads_below hbelow hleads
  | .dir _ false entries => by simp [compared, Tree.files]
  | .dir _ true entries => by
      rw [compared, Tree.files]
      by_cases hfd : path = devFd
      · rw [if_neg fun hboth => hboth.2 hfd]
        refine ⟨nofun, ?_⟩
        rintro ⟨hmem, hnot⟩
        obtain ⟨name, _, hleads⟩ := entries.leads_of_mem_files hmem
        exact (hnot (.inr ⟨.inl hfd.symm, hfd ▸ hleads.of_below⟩)).elim
      · rw [if_pos ⟨rfl, hfd⟩, mem_comparedBelow entries]
        have hleads : Leads path devFd ↔ path ++ [slash] <+: devFd := or_iff_right (Ne.symm hfd)
        unfold Hidden
        rw [hleads]
        rfl

theorem mem_comparedBelow {lead : Bytes} : ∀ entries : Entries,
    file ∈ comparedBelow lead entries ↔ file ∈ entries.files false lead ∧
      ¬ Hidden (lead <+: ·) (lead <+: ·) file.1
  | .nil => by simp [comparedBelow, Entries.files]
  | .cons name tree rest => by
      rw [comparedBelow, Entries.files, List.mem_append, List.mem_append, mem_comparedBelow rest,
        or_and_right]
      refine or_congr ?_ Iff.rfl
      by_cases halias : lead ++ name.bytes ∈ aliases
      · rw [if_pos halias]
        refine ⟨nofun, ?_⟩
        rintro ⟨hmem, hnot⟩
        exact (hnot (.inl ⟨_, halias, List.prefix_append _ _, tree.leads_of_mem_files hmem⟩)).elim
      rw [if_neg halias, mem_compared tree]
      refine and_congr_right fun hmem => not_congr ?_
      have hfile := tree.leads_of_mem_files hmem
      refine or_congr ?_ (and_congr_left fun hbelow => ?_)
      · refine exists_congr fun other => and_congr_right fun hin => and_congr_left fun hleads => ?_
        refine ⟨fun hbelow => Leads.of_below (.inr hbelow), fun hlead => ?_⟩
        refine (hfile.through name.noSlash hlead hleads).resolve_left ?_
        rintro rfl
        exact halias hin
      · exact ⟨Leads.of_below, fun hlead => hfile.through name.noSlash hlead (.inr hbelow)⟩

end

/-- `/dev`. -/
def dev : Bytes := ascii "/dev"

/-- A file of the terminal that the search comes to. -/
def Candidate (tree : Tree) (fdstat : Stat) (path : Bytes) : Prop :=
  ∃ stat, (path, stat) ∈ tree.files false dev ∧ Same fdstat stat ∧
    (∀ other ∈ aliases, ¬ Leads other path) ∧ ¬ devFd ++ [slash] <+: path

theorem candidate_iff {tree : Tree} {fdstat : Stat} {path : Bytes} :
    Candidate tree fdstat path ↔ ∃ stat, (path, stat) ∈ compared dev tree ∧ Same fdstat stat := by
  refine exists_congr fun stat => ?_
  have hbelow : ∀ other ∈ aliases, dev ++ [slash] <+: other := by decide
  have hfd : Leads dev devFd := .inr (by decide)
  have hhidden : ¬ Hidden (dev ++ [slash] <+: ·) (Leads dev) path ↔
      (∀ other ∈ aliases, ¬ Leads other path) ∧ ¬ devFd ++ [slash] <+: path := by
    rw [Hidden, not_or, and_iff_right hfd]
    refine and_congr_left' ⟨fun hnot other hmem hleads => ?_, ?_⟩
    · exact hnot ⟨other, hmem, hbelow other hmem, hleads⟩
    · rintro hnot ⟨other, hmem, _, hleads⟩
      exact hnot other hmem hleads
  rw [mem_compared, hhidden, and_assoc, and_comm (a := Same fdstat stat)]

/-- A hierarchy under `/dev`, as the system calls show it. -/
structure Hierarchy (env : Env Ptr) (tree : Tree) : Prop where
  dir : ∃ stat readable entries, tree = .dir stat readable entries
  holds : tree.At env.fs [] dev
  fits : ∀ dir ∈ tree.dirs dev, Fits env.fs dir

variable {Ptr : Type} [DecidableEq Ptr] {env : Env Ptr} {search : Search Ptr} {tree : Tree}
  {fdstat : Stat}

theorem searchAll_completed (fdstat : Stat) (halloc : env.Allocates)
    (htree : Hierarchy env tree) (hholds : search.Holds env []) {fuel : Nat}
    (hfuel : (tree.dirs dev).length < fuel) :
    Completed env fdstat search.opened (tree.dirs dev).length (compared dev tree) (tree.dirs dev)
      (searchAll env fdstat fuel search) := by
  have hitem : Waits env.fs (dev, tree) :=
    ⟨htree.dir, htree.holds, htree.fits, show dev ≠ devFd by decide,
      show (0 : Byte) ∉ dev by decide, show dev ≠ [] by decide⟩
  have hlength : (tree.dirs dev).length = (tree.dirs dev).tail.length + 1 :=
    congrArg List.length hitem.dirs_eq
  have hfiles : Forest.files [(dev, tree)] = compared dev tree :=
    (Forest.files_cons _ _).trans (List.append_nil _)
  have hdirs : Forest.dirs [(dev, tree)] = tree.dirs dev :=
    (Forest.dirs_cons _ _).trans (List.append_nil _)
  rw [← hfiles, ← hdirs]
  refine Completed.turn (fun search => searchList env fdstat fuel search.head search) halloc hitem
    hholds ?_ ?_
  · rw [hdirs, List.length_nil, hlength, Nat.zero_add]
    exact Nat.le_succ _
  · intro search' added forest' hholds' hnames hwaits hshort
    have hshort : forest'.dirs.length < (tree.dirs dev).length := by
      rw [hlength]
      exact Nat.lt_succ_of_le hshort
    rw [List.nil_append, hholds'.chain.head_eq, hdirs, List.nil_append]
    exact searchList_completed halloc hholds' hnames hwaits (hshort.trans hfuel)
      ((Nat.zero_add _).trans_le hshort.le)

/-! ## Hierarchies with one terminal -/

def ptsName : Name := ⟨ascii "pts", by decide, by decide, by decide, by decide, by decide⟩

def stdinName : Name := ⟨ascii "stdin", by decide, by decide, by decide, by decide, by decide⟩

def ttyName : Name := ⟨ascii "0", by decide, by decide, by decide, by decide, by decide⟩

/-- `/dev` holds a directory, and the directory holds a terminal. -/
def sampleTree (sub : Name) (readable : Bool) : Tree :=
  .dir ⟨.dir, 1, 1⟩ true
    (.cons sub (.dir ⟨.dir, 2, 1⟩ readable (.cons ttyName (.file ⟨.chr, 3, 1⟩) .nil)) .nil)

def sampleEnv (sub : Name) (readable : Bool) : Env Nat where
  fs :=
    { stat := fun path =>
        if path = dev then some ⟨.dir, 1, 1⟩
        else if path = dev ++ [slash] ++ sub.bytes then some ⟨.dir, 2, 1⟩
        else some ⟨.chr, 3, 1⟩
      opendir := fun path =>
        if path = dev then some [sub.bytes] else if readable then some [ttyName.bytes] else none }
  malloc := some
  strdup := fun _ => true

def sampleSearch : Search Nat := ⟨none, none, fun _ => none, 0, List.replicate pathnameSize 0, []⟩

def terminal : Descriptor := ⟨true, some ⟨.chr, 3, 1⟩⟩

theorem sample_allocates (sub : Name) (readable : Bool) : (sampleEnv sub readable).Allocates :=
  ⟨fun call => ⟨call, rfl⟩, fun _ _ => Option.some.inj, fun _ => rfl⟩

theorem sample_holds (env : Env Nat) : sampleSearch.Holds env [] :=
  ⟨rfl, rfl, List.nodup_nil, fun _ _ => rfl, nofun, List.length_replicate⟩

theorem fits_iff (fs : FileSystem) (dir : Bytes) :
    Fits fs dir ↔ ∀ names ∈ fs.opendir dir, names.Nodup ∧ ∀ name ∈ names,
      (dir ++ [slash] ++ name).length ≤ posixPathMax ∧ (isProper name = false →
        ∀ stat ∈ fs.stat (dir ++ [slash] ++ name), stat.type = .dir) := Iff.rfl

instance (fs : FileSystem) (dir : Bytes) : Decidable (Fits fs dir) :=
  decidable_of_iff' _ (fits_iff fs dir)

theorem hierarchy_pts : Hierarchy (sampleEnv ptsName true) (sampleTree ptsName true) :=
  ⟨⟨_, _, _, rfl⟩, ⟨rfl, rfl, ⟨_, rfl, rfl⟩, ⟨rfl, rfl, ⟨_, rfl, rfl⟩, ⟨rfl, by decide⟩, trivial⟩,
    trivial⟩, by decide⟩

/-- The terminal is not found, although its file is not an alias and not below `/dev/fd`. -/
structure Misses (sub : Name) (readable : Bool) : Prop where
  allocates : (sampleEnv sub readable).Allocates
  hierarchy : Hierarchy (sampleEnv sub readable) (sampleTree sub readable)
  file : ∃ path, (path, ⟨.chr, 3, 1⟩) ∈ (sampleTree sub readable).files true dev ∧
    path ∉ aliases ∧ ¬ devFd ++ [slash] <+: path
  missed : (ttyname (sampleEnv sub readable) 3 terminal sampleSearch).map Prod.fst = .ok none

/-- A directory that has the name of an alias, or that cannot be read, hides its files. -/
theorem ttyname_misses_hidden : Misses stdinName true ∧ Misses ptsName false := by
  refine ⟨⟨sample_allocates _ _, ?_, ⟨ascii "/dev/stdin/0", by decide⟩, by decide +kernel⟩,
    sample_allocates _ _, ?_, ⟨ascii "/dev/pts/0", by decide⟩, by decide +kernel⟩
  · exact ⟨⟨_, _, _, rfl⟩, ⟨rfl, rfl, ⟨_, rfl, rfl⟩, ⟨rfl, rfl, ⟨_, rfl, rfl⟩, ⟨rfl, by decide⟩,
      trivial⟩, trivial⟩, by decide⟩
  · exact ⟨⟨_, _, _, rfl⟩, ⟨rfl, rfl, ⟨_, rfl, rfl⟩, ⟨rfl, rfl, rfl, ⟨rfl, by decide⟩, trivial⟩,
      trivial⟩, by decide⟩

section Complete

variable (halloc : env.Allocates) (htree : Hierarchy env tree) (hholds : search.Holds env [])
  {fd : Descriptor} (htty : fd.isatty = true) (hstat : fd.fstat = some fdstat)
  (hchr : fdstat.type = .chr) (fuel : Nat) (hfuel : (tree.dirs dev).length < fuel)
include halloc htree hholds htty hstat hchr hfuel

theorem ttyname_compared :
    ∃ result search' read, ttyname env fuel fd search = .ok (result, search') ∧
      search'.Holds env [] ∧ search'.opened = search.opened ++ read ∧
      (read : Multiset Bytes) ≤ tree.dirs dev ∧ devFd ∉ read ∧
      match result with
      | some path => Candidate tree fdstat path
      | none => ∀ path, ¬ Candidate tree fdstat path := by
  obtain ⟨found, last, nodes, read, hlast, hlist, hbound, hopened, hread, hfd, hfound⟩ :=
    searchAll_completed fdstat halloc htree hholds hfuel
  refine ⟨if found then some (cstr last.pathname) else none,
    { last with head := none, tail := none, devdirs := fun _ => none }, read, ?_, ?_, hopened,
    hread, hfd, ?_⟩
  · rw [ttyname, htty, if_neg (by decide), hstat]
    dsimp only
    rw [if_neg (not_not.mpr hchr), hlast]
    change (Search.cleanup fuel last >>= _) = _
    rw [hlist.cleanup (hbound.trans_lt hfuel)]
    rfl
  · exact ⟨rfl, rfl, List.nodup_nil, fun _ _ => rfl, nofun, hlist.buffer⟩
  · cases found with
    | true => exact candidate_iff.mpr hfound
    | false =>
      intro path hpath
      obtain ⟨stat, hmem, hsame⟩ := candidate_iff.mp hpath
      exact hfound _ hmem hsame

/-- **The search of the device tree is complete.**  For a terminal the search ends, reads
no directory twice and never `/dev/fd`, leaves no list behind, and returns a path exactly
when there is a file of the terminal to be found; the path is that of such a file. -/
theorem ttyname_complete :
    ∃ result search' read, ttyname env fuel fd search = .ok (result, search') ∧
      search'.Holds env [] ∧ search'.opened = search.opened ++ read ∧
      read.Nodup ∧ (∀ dir ∈ read, dir ∈ tree.dirs dev) ∧ devFd ∉ read ∧
      (result.isSome ↔ ∃ path, Candidate tree fdstat path) ∧
      ∀ path, result = some path → Candidate tree fdstat path := by
  obtain ⟨result, search', read, hrun, hempty, hopened, hread, hfd, hresult⟩ :=
    ttyname_compared halloc htree hholds htty hstat hchr fuel hfuel
  have hnodup : (tree.dirs dev).Nodup := by
    refine tree.nodup_dirs htree.holds fun dir hdir names hopen => ?_
    rw [List.append_nil] at hopen
    exact (htree.fits dir hdir names hopen).1
  refine ⟨result, search', read, hrun, hempty, hopened, ?_, ?_, hfd, ?_⟩
  · exact Multiset.coe_nodup.mp (Multiset.nodup_of_le hread (Multiset.coe_nodup.mpr hnodup))
  · exact fun dir hdir => Multiset.subset_of_le hread hdir
  · cases result with
    | some path =>
      refine ⟨iff_of_true rfl ⟨path, hresult⟩, ?_⟩
      rintro _ ⟨⟩
      exact hresult
    | none => exact ⟨iff_of_false nofun fun ⟨path, hpath⟩ => hresult path hpath, nofun⟩

end Complete

theorem ttyname_complete_pts : ∃ path search',
    ttyname (sampleEnv ptsName true) 3 terminal sampleSearch = .ok (some path, search') ∧
      Candidate (sampleTree ptsName true) ⟨.chr, 3, 1⟩ path := by
  obtain ⟨result, search', _, hrun, _, _, _, _, _, hiff, hpath⟩ :=
    ttyname_complete (sample_allocates ptsName true) hierarchy_pts (sample_holds _)
      (show terminal.isatty from rfl) rfl rfl 3 (by decide)
  have hsome : result.isSome := hiff.mpr
    ⟨ascii "/dev/pts/0", ⟨.chr, 3, 1⟩, by decide, ⟨rfl, rfl⟩, by unfold Leads; decide, by decide⟩
  obtain ⟨path, rfl⟩ := Option.isSome_iff_exists.mp hsome
  exact ⟨path, search', hrun, hpath path rfl⟩

end ApueFormal.Ttyname
