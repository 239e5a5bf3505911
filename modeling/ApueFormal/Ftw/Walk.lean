import ApueFormal.Ftw.Model
import ApueFormal.Program.System

/-!
# The order of a walk

The calls of the function are the listing of the tree in preorder, up to the first call
that returns a non-zero value.  Every level of the recursion keeps the bytes of its own
path in the buffer, and returns with a buffer that is no shorter.
-/

namespace ApueFormal.Ftw

open Libc Program

mutual

def visitsOf (path : Bytes) : Tree → List Visit
  | .unstatable => [⟨path, none, .ns⟩]
  | .file stat => [⟨path, some stat, .f⟩]
  | .dir stat readable entries =>
    ⟨path, some stat, .d⟩ ::
      if readable then visitsBelow (path ++ [slash]) entries
      else [⟨path ++ [slash], some stat, .dnr⟩]

/-- The files below a directory, whose path ends in a slash. -/
def visitsBelow (lead : Bytes) : Entries → List Visit
  | .nil => []
  | .cons name tree rest => visitsOf (lead ++ name.bytes) tree ++ visitsBelow lead rest

end

/-- The calls of a listing up to the first that returns a non-zero value. -/
def cut (func : Myfunc) (done : List Visit) : List Visit → Int × List Visit
  | [] => (0, done)
  | visit :: rest =>
    let ret := func (done ++ [visit])
    if ret ≠ 0 then (ret, done ++ [visit]) else cut func (done ++ [visit]) rest

variable {func : Myfunc} {done : List Visit}

theorem cut_append (first second : List Visit) :
    cut func done (first ++ second) = if (cut func done first).1 ≠ 0 then cut func done first
      else cut func (cut func done first).2 second := by
  induction first generalizing done with
  | nil => rfl
  | cons visit rest ih =>
    rw [List.cons_append, cut, cut]
    split
    · rfl
    · exact ih

theorem done_le_cut (listing : List Visit) : done <+: (cut func done listing).2 := by
  induction listing generalizing done with
  | nil => exact List.prefix_rfl
  | cons visit rest ih =>
    rw [cut]
    split
    · exact List.prefix_append _ _
    · exact (List.prefix_append _ _).trans ih

theorem cut_append_le (first second : List Visit) :
    (cut func done first).2 <+: (cut func done (first ++ second)).2 := by
  rw [cut_append]
  split
  · exact List.prefix_rfl
  · exact done_le_cut second

/-! ## What a level does -/

/-- A level has gone through its listing and kept the path in the buffer. -/
def Listed (func : Myfunc) (walk : Walk) (lead : Bytes) (listing : List Visit) :
    Int × Walk → Prop := fun result =>
  (result.1, result.2.visits) = cut func walk.visits listing ∧ lead <+: result.2.fullpath ∧
    walk.fullpath.length ≤ result.2.fullpath.length

/-- There was no memory; the calls up to then are those of the listing. -/
def Stopped (env : Env) (calls : List Visit) (ended : Exit × List Visit) : Prop :=
  (∃ size, ended.1 = .alloc size ∧ env.alloc size = none) ∧ ended.2 <+: calls

theorem Stopped.mono {env : Env} {calls calls' : List Visit} {ended : Exit × List Visit}
    (hstopped : Stopped env calls ended) (hle : calls <+: calls') : Stopped env calls' ended :=
  ⟨hstopped.1, hstopped.2.trans hle⟩

variable {env : Env} {walk : Walk} {path : Bytes}

theorem listed_call (hshows : Shows path walk.fullpath) (hnul : (0 : Byte) ∉ path)
    {lead : Bytes} (hlead : lead <+: walk.fullpath) (stat : Option Stat) (kind : Kind) :
    Listed func walk lead [⟨path, stat, kind⟩] (walk.call func stat kind) := by
  refine ⟨?_, hlead, Nat.le_refl _⟩
  rw [Walk.call, hshows.cstr_eq hnul, cut]
  dsimp only
  split
  · rfl
  · rename_i hret
    rw [cut, not_not.mp hret]

theorem realloc_ends {buffer : Bytes} {size : Nat} (hsize : buffer.length ≤ size)
    (visits : List Visit) :
    Ends (fun buffer' => buffer <+: buffer' ∧ buffer'.length = size) (Stopped env visits)
      (env.realloc buffer size visits) := by
  rw [Env.realloc]
  cases halloc : env.alloc size with
  | none => exact ⟨⟨size, rfl, halloc⟩, List.prefix_rfl⟩
  | some junk =>
    constructor
    · rw [List.take_append, List.take_of_length_le hsize]
      exact List.prefix_append _ _
    · rw [List.length_take, List.length_append, List.length_map, List.length_range]
      omega

theorem expand_ends (hlength : nameMax < walk.fullpath.length) {n : Nat}
    (hn : n < walk.fullpath.length) :
    Ends (fun walk' => walk'.visits = walk.visits ∧ walk.fullpath <+: walk'.fullpath ∧
        n + nameMax + 2 ≤ walk'.fullpath.length)
      (Stopped env walk.visits) (walk.expand env n) := by
  rw [Walk.expand]
  split
  · refine (realloc_ends (by omega) walk.visits).bind (fun _ hstopped => hstopped) ?_
    rintro fullpath ⟨hkept, hsize⟩
    exact ⟨rfl, hkept, by dsimp only; omega⟩
  · exact ⟨rfl, List.prefix_rfl, by omega⟩

/-- The code lists every tree up to some height. -/
def Lists (env : Env) (func : Myfunc) (limit : Nat)
    (next : Walk → Except (Exit × List Visit) (Int × Walk)) : Prop :=
  ∀ (tree : Tree) (path : Bytes) (walk : Walk), tree.height ≤ limit →
    tree.At env.fs [slash] path → Shows path walk.fullpath → (0 : Byte) ∉ path →
    nameMax < walk.fullpath.length → Ends (Listed func walk path (visitsOf path tree))
      (Stopped env (cut func walk.visits (visitsOf path tree)).2) (next walk)

section Entries

variable {next : Walk → Except (Exit × List Visit) (Int × Walk)} {lead : Bytes}

variable {limit : Nat} (hnext : Lists env func limit next)
include hnext

theorem entries_ends (hnul : (0 : Byte) ∉ lead) {names : List Bytes} {below : Entries}
    (hheight : below.height ≤ limit) (hnames : names.filter isProper = below.names)
    (hat : below.At env.fs [slash] lead) (hlead : lead <+: walk.fullpath)
    (hroom : lead.length + nameMax < walk.fullpath.length) :
    Ends (Listed func walk lead (visitsBelow lead below))
      (Stopped env (cut func walk.visits (visitsBelow lead below)).2)
      (entries next lead.length names (0, walk)) := by
  induction names generalizing below walk with
  | nil =>
    cases below with
    | nil => exact ⟨rfl, hlead, Nat.le_refl _⟩
    | cons name tree rest => cases hnames
  | cons name rest ih =>
    rw [entries]
    split
    · rename_i hdots
      have hskip : isProper name = false := by
        rcases hdots with rfl | rfl <;> rfl
      rw [List.filter_cons_of_neg (by rw [hskip]; exact Bool.false_ne_true)] at hnames
      exact ih hheight hnames hat hlead hroom
    · rename_i hdots
      have hproper : isProper name = true := by
        rw [not_or] at hdots
        simp [isProper, hdots]
      rw [List.filter_cons_of_pos hproper] at hnames
      cases below with
      | nil => cases hnames
      | cons entry tree below =>
        obtain ⟨rfl, hrest⟩ := List.cons.inj hnames
        obtain ⟨htree, hbelow⟩ := hat
        have hsize : entry.bytes.length < walk.fullpath.length - lead.length := by
          have := entry.length_le
          omega
        obtain ⟨fullpath, hput, hshows, hsame⟩ :=
          snprintfAt_shows hlead hsize (Nat.le_of_eq (Nat.add_sub_cancel' (by omega)))
        have hnul' : (0 : Byte) ∉ lead ++ entry.bytes := by
          rw [List.mem_append, not_or]
          exact ⟨hnul, entry.noNul⟩
        have hends := hnext tree (lead ++ entry.bytes) ⟨fullpath, walk.visits⟩
          (Nat.le_trans (Nat.le_max_left _ _) hheight) htree hshows hnul' (by dsimp only; omega)
        rw [hput]
        refine hends.bind (fun _ hstopped => hstopped.mono (cut_append_le _ _)) ?_
        rintro ⟨ret, walk'⟩ ⟨hcut, hkept, hlength⟩
        have hkept' : lead <+: walk'.fullpath := (List.prefix_append _ _).trans hkept
        have hall : cut func walk.visits (visitsBelow lead (.cons entry tree below)) =
            if ret ≠ 0 then (ret, walk'.visits)
            else cut func walk'.visits (visitsBelow lead below) := by
          rw [visitsBelow, cut_append, ← hcut]
        unfold Listed
        rw [hall]
        dsimp only at hlength ⊢
        split
        · exact ⟨rfl, hkept', hsame ▸ hlength⟩
        · rename_i hret
          rw [not_not.mp hret]
          refine (ih (Nat.le_trans (Nat.le_max_right _ _) hheight) hrest hbelow hkept'
            (by omega)).imp ?_ fun _ hstopped => hstopped
          rintro result ⟨hlisted, hlead', hlonger⟩
          exact ⟨hlisted, hlead', by omega⟩

theorem below_ends {stat : Stat} {readable : Bool} {below : Entries}
    (hheight : below.height ≤ limit) (hopen : if readable then
        ∃ names, env.fs.opendir (path ++ [slash]) = some names ∧ names.filter isProper = below.names
      else env.fs.opendir (path ++ [slash]) = none)
    (hbelow : below.At env.fs [slash] (path ++ [slash])) (hpath : path <+: walk.fullpath)
    (hnul : (0 : Byte) ∉ path) (hroom : path.length + nameMax + 2 ≤ walk.fullpath.length) :
    let listing := if readable then visitsBelow (path ++ [slash]) below
      else [⟨path ++ [slash], some stat, .dnr⟩]
    Ends (Listed func walk path listing) (Stopped env (cut func walk.visits listing).2) (do
      let walk ← walk.stored (putAt walk.fullpath path.length [slash, 0])
      match env.fs.opendir (cstr walk.fullpath) with
      | none => .ok (walk.call func stat .dnr)
      | some names => do
          let (ret, walk) ← entries next (path.length + 1) names (0, walk)
          let walk ← walk.stored (putAt walk.fullpath path.length [0])
          .ok (ret, walk)) := by
  have hfits : path.length + [slash, 0].length ≤ walk.fullpath.length := by
    rw [List.length_cons, List.length_singleton]
    omega
  obtain ⟨fullpath, hput, hbegins, hsame⟩ := putAt_begins hpath hfits
  have hshows : Shows (path ++ [slash]) fullpath := by
    rw [Shows, List.append_assoc]
    exact hbegins
  have hnul' : (0 : Byte) ∉ path ++ [slash] := by
    rw [List.mem_append, not_or]
    exact ⟨hnul, by decide⟩
  have hkept : path <+: fullpath := (List.prefix_append _ _).trans hbegins
  rw [hput]
  change Ends _ _ (match env.fs.opendir (cstr fullpath) with
    | none => .ok (Walk.call ⟨fullpath, walk.visits⟩ func stat .dnr)
    | some names => do
        let (ret, walk) ← entries next (path.length + 1) names (0, ⟨fullpath, walk.visits⟩)
        let walk ← walk.stored (putAt walk.fullpath path.length [0])
        .ok (ret, walk))
  rw [hshows.cstr_eq hnul']
  cases readable with
  | false =>
    rw [show env.fs.opendir (path ++ [slash]) = none from hopen]
    obtain ⟨hcall, hlead, hlength⟩ : Listed func ⟨fullpath, walk.visits⟩ path _ _ :=
      listed_call hshows hnul' hkept (some stat) .dnr
    exact ⟨hcall, hlead, hsame ▸ hlength⟩
  | true =>
    obtain ⟨names, hnames, hproper⟩ := hopen
    rw [hnames]
    have hroom' : (path ++ [slash]).length + nameMax < fullpath.length := by
      rw [List.length_append, List.length_singleton]
      omega
    have hlist : Ends (Listed func ⟨fullpath, walk.visits⟩ (path ++ [slash]) _) _
        (entries next (path ++ [slash]).length names (0, ⟨fullpath, walk.visits⟩)) :=
      entries_ends hnext hnul' hheight hproper hbelow hshows.begins hroom'
    rw [List.length_append, List.length_singleton] at hlist
    refine hlist.bind (fun _ hstopped => hstopped) ?_
    rintro ⟨ret, walk'⟩ ⟨hcut, hlead, hlength⟩
    have hpath' : path <+: walk'.fullpath := (List.prefix_append _ _).trans hlead
    obtain ⟨fullpath', hput', hbegins', hsame'⟩ := putAt_begins hpath'
      (show path.length + [(0 : Byte)].length ≤ walk'.fullpath.length by
        have := hlead.length_le
        rwa [List.length_append, List.length_singleton] at this)
    dsimp only
    rw [hput']
    refine ⟨hcut, (List.prefix_append _ _).trans hbegins', ?_⟩
    dsimp only at hlength ⊢
    omega

end Entries

theorem lists_dopath (fuel : Nat) : Lists env func fuel (dopath env func fuel) := by
  induction fuel with
  | zero =>
    intro tree path walk hheight
    cases tree <;> cases hheight
  | succ fuel ih =>
    intro tree path walk hheight hat hshows hnul hlength
    have hcstr := hshows.cstr_eq hnul
    rw [dopath, hcstr]
    cases tree with
    | unstatable =>
      rw [show env.fs.stat path = none from hat]
      exact listed_call hshows hnul hshows.begins none .ns
    | file stat =>
      obtain ⟨hstat, htype⟩ := hat
      rw [hstat]
      dsimp only
      rw [if_pos htype]
      exact listed_call hshows hnul hshows.begins (some stat) .f
    | dir stat readable below =>
      obtain ⟨hstat, htype, hopen, hbelow⟩ := hat
      rw [hstat]
      dsimp only
      rw [if_neg (not_not.mpr htype)]
      have hcall : _ = cut func walk.visits [⟨path, some stat, .d⟩] :=
        (listed_call hshows hnul hshows.begins (some stat) .d).1
      have hbuffer : (walk.call func (some stat) .d).2.fullpath = walk.fullpath := rfl
      generalize walk.call func (some stat) .d = called at hcall hbuffer ⊢
      obtain ⟨ret, called⟩ := called
      dsimp only at hcall hbuffer ⊢
      have hall : ∀ rest, cut func walk.visits (⟨path, some stat, .d⟩ :: rest) =
          if ret ≠ 0 then (ret, called.visits) else cut func called.visits rest := by
        intro rest
        rw [← List.singleton_append, cut_append, ← hcall]
      rw [visitsOf]
      unfold Listed
      rw [hall, hbuffer, hcstr]
      split
      · exact ⟨rfl, hbuffer ▸ hshows.begins, Nat.le_of_eq (congrArg _ hbuffer.symm)⟩
      · rename_i hret
        rw [not_not.mp hret]
        refine (expand_ends (hbuffer ▸ hlength) (hbuffer ▸ hshows.length_lt)).bind
          (fun _ hstopped => hstopped.mono (done_le_cut _)) ?_
        rintro expanded ⟨hvisits, hkept, hroom⟩
        have hlonger := hkept.length_le
        rw [hbuffer] at hkept hlonger
        rw [← hvisits]
        refine (below_ends ih (Nat.le_of_succ_le_succ hheight) hopen hbelow
          (hshows.begins.trans hkept) hnul hroom).imp ?_ fun _ hstopped => hstopped
        rintro result ⟨hlisted, hlead, hlength'⟩
        exact ⟨hlisted, hlead, Nat.le_trans hlonger hlength'⟩

theorem pathAlloc_ends (conf : Conf) {limits : Limits} (hlimits : limits.pathmax = pathMax) :
    Ends (fun allocated : Bytes × Limits =>
        pathMax ≤ allocated.1.length ∧ allocated.2.pathmax = pathMax)
      (Stopped env []) (pathAlloc env conf limits) := by
  have hfill : ∃ limits', limits.fill conf = .ok limits' ∧ limits'.pathmax = pathMax := by
    rw [Limits.fill, if_neg (by rw [hlimits]; decide)]
    exact ⟨_, rfl, hlimits⟩
  obtain ⟨limits', hfill, hpathmax⟩ := hfill
  have hsize : pathMax ≤ limits'.size := by
    rw [Limits.size, hpathmax]
    split <;> decide
  rw [pathAlloc, hfill]
  dsimp only
  cases halloc : env.alloc limits'.size with
  | none => exact ⟨⟨_, rfl, halloc⟩, List.prefix_rfl⟩
  | some junk =>
    refine ⟨?_, hpathmax⟩
    rw [List.length_map, List.length_range]
    exact hsize

/-- The calls of the function are the listing of the tree in preorder, cut off behind the
first call that returns a non-zero value, which is returned. -/
theorem myftw_preorder (env : Env) (conf : Conf) (limits : Limits)
    (hlimits : limits.pathmax = pathMax) (func : Myfunc) (pathname : CString) {tree : Tree}
    (hat : tree.At env.fs [slash] pathname.bytes) {fuel : Nat} (hfuel : tree.height ≤ fuel) :
    Ends (fun result => result = cut func [] (visitsOf pathname.bytes tree))
      (fun ended => (∃ size, ended.1 = .alloc size ∧ env.alloc size = none) ∧
        ended.2 <+: (cut func [] (visitsOf pathname.bytes tree)).2)
      (myftw env conf limits fuel pathname func) := by
  change Ends _ (Stopped env _) _
  refine (pathAlloc_ends conf hlimits).bind (fun _ hstopped => hstopped.mono List.nil_prefix) ?_
  rintro ⟨fullpath, _⟩ ⟨hlength, _⟩
  have hpathMax : pathMax = 4096 := rfl
  have hroom : Ends (fun fullpath => pathname.strlen < fullpath.length ∧
      nameMax < fullpath.length) (Stopped env []) (env.fit fullpath pathname) := by
    dsimp only at hlength
    rw [Env.fit]
    split
    · refine (realloc_ends (by omega) []).imp ?_ fun _ hstopped => hstopped
      rintro buffer ⟨_, hsize⟩
      rw [nameMax]
      omega
    · rw [nameMax]
      exact ⟨by omega, by omega⟩
  refine hroom.bind (fun _ hstopped => hstopped.mono List.nil_prefix) ?_
  rintro fullpath' ⟨hfits, hname⟩
  obtain ⟨shown, hput, hshows, hsame⟩ := snprintfAt_shows (List.nil_prefix (l := fullpath')) hfits
    (Nat.le_of_eq (Nat.zero_add _))
  rw [List.nil_append] at hshows
  rw [List.length_nil] at hput
  dsimp only
  rw [hput]
  refine (lists_dopath fuel tree pathname.bytes ⟨shown, []⟩ hfuel hat hshows pathname.noNul
    (hsame ▸ hname)).bind (fun _ hstopped => hstopped) ?_
  rintro ⟨ret, walk⟩ ⟨hcut, _⟩
  exact hcut

def smallTree : Tree :=
  .dir ⟨.dir, 1, 1⟩ true
    (.cons ⟨ascii "a", by decide, by decide, by decide, by decide, by decide⟩ (.file ⟨.reg, 2, 1⟩)
      (.cons ⟨ascii "b", by decide, by decide, by decide, by decide, by decide⟩
        (.dir ⟨.dir, 3, 1⟩ false .nil) .nil))

def smallEnv : Env where
  fs :=
    { stat := fun path =>
        if path = ascii "t" then some ⟨.dir, 1, 1⟩
        else if path = ascii "t/a" then some ⟨.reg, 2, 1⟩
        else if path = ascii "t/b" then some ⟨.dir, 3, 1⟩ else none
      opendir := fun path =>
        if path = ascii "t/" then some [ascii ".", ascii "a", ascii "..", ascii "b"] else none }
  alloc := fun _ => some fun _ => 0

def smallPath : CString := ⟨ascii "t", by decide⟩

theorem myftw_preorder_small : smallTree.At smallEnv.fs [slash] smallPath.bytes ∧
      cut (fun _ => 0) [] (visitsOf smallPath.bytes smallTree) =
        (0, [⟨ascii "t", some ⟨.dir, 1, 1⟩, .d⟩, ⟨ascii "t/a", some ⟨.reg, 2, 1⟩, .f⟩,
          ⟨ascii "t/b", some ⟨.dir, 3, 1⟩, .d⟩, ⟨ascii "t/b/", some ⟨.dir, 3, 1⟩, .dnr⟩]) ∧
      ∀ conf, Ends (fun result => result = cut (fun _ => 0) [] (visitsOf smallPath.bytes smallTree))
        (fun ended => (∃ size, ended.1 = .alloc size ∧ smallEnv.alloc size = none) ∧
          ended.2 <+: (cut (fun _ => 0) [] (visitsOf smallPath.bytes smallTree)).2)
        (myftw smallEnv conf .start 2 smallPath fun _ => 0) := by
  have hat : smallTree.At smallEnv.fs [slash] smallPath.bytes :=
    ⟨rfl, rfl, ⟨_, rfl, rfl⟩, ⟨rfl, by decide⟩, ⟨rfl, rfl, rfl, trivial⟩, trivial⟩
  have hlimits : Limits.start.pathmax = pathMax := rfl
  have hheight : smallTree.height ≤ 2 := by decide
  exact ⟨hat, by decide +kernel, fun conf => myftw_preorder smallEnv conf .start hlimits
    (fun _ => 0) smallPath hat hheight⟩

end ApueFormal.Ftw
