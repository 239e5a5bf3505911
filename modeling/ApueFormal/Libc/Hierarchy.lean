import ApueFormal.Libc.Text

/-!
# Pathnames and file hierarchies

A file hierarchy that does not change is a finite tree.  The system calls are given a
pathname and know nothing of the tree; `Tree.At` says that they answer as the tree does
for the pathnames that lead into it.
-/

namespace ApueFormal.Libc

/-- Store bytes in a buffer from an index on; none may be stored behind its end. -/
def putAt (buffer : Bytes) (index : Nat) (data : Bytes) : Option Bytes :=
  if index + data.length ≤ buffer.length then
    some (buffer.take index ++ (data ++ buffer.drop (index + data.length)))
  else none

/-- `snprintf(&buffer[index], size, "%s", text)`. -/
def snprintfAt (buffer : Bytes) (index size : Nat) (text : Bytes) : Option Bytes :=
  if size = 0 then some buffer else putAt buffer index (snprintf size text ++ [0])

def Shows (text buffer : Bytes) : Prop := text ++ [0] <+: buffer

variable {text buffer : Bytes}

theorem Shows.begins (hshows : Shows text buffer) : text <+: buffer :=
  (List.prefix_append text [0]).trans hshows

theorem Shows.length_lt (hshows : Shows text buffer) : text.length < buffer.length := by
  have hle := hshows.length_le
  rw [List.length_append] at hle
  exact hle

theorem Shows.cstr_eq (hshows : Shows text buffer) (hnul : (0 : Byte) ∉ text) :
    cstr buffer = text := by
  obtain ⟨tail, rfl⟩ := hshows
  rw [List.append_assoc]
  exact (cstr_append_zero text tail).trans (cstr_of_noNul hnul)

theorem putAt_begins {lead : Bytes} (hlead : lead <+: buffer) {data : Bytes}
    (hfits : lead.length + data.length ≤ buffer.length) :
    ∃ buffer', putAt buffer lead.length data = some buffer' ∧ lead ++ data <+: buffer' ∧
      buffer'.length = buffer.length := by
  obtain ⟨tail, rfl⟩ := hlead
  refine ⟨_, if_pos hfits, ?_, ?_⟩
  · rw [List.take_left, ← List.append_assoc]
    exact List.prefix_append _ _
  · rw [List.length_append] at hfits
    simp only [List.length_append, List.length_take, List.length_drop]
    omega

theorem snprintfAt_shows {lead : Bytes} (hlead : lead <+: buffer) {size : Nat}
    (hsize : text.length < size) (hfits : lead.length + size ≤ buffer.length) :
    ∃ buffer', snprintfAt buffer lead.length size text = some buffer' ∧
      Shows (lead ++ text) buffer' ∧ buffer'.length = buffer.length := by
  have hwhole : snprintf size text = text := List.take_of_length_le (Nat.le_sub_one_of_lt hsize)
  have hlength : lead.length + (text ++ [0]).length ≤ buffer.length := by
    rw [List.length_append, List.length_singleton]
    omega
  obtain ⟨buffer', hput, hshows, hsame⟩ := putAt_begins hlead hlength
  rw [← List.append_assoc] at hshows
  refine ⟨buffer', ?_, hshows, hsame⟩
  rw [snprintfAt, if_neg (Nat.ne_of_gt (Nat.zero_lt_of_lt hsize)), hwhole, hput]

theorem snprintfAt_inside (text : Bytes) {index size : Nat} (hfits : index + size ≤ buffer.length) :
    ∃ buffer', snprintfAt buffer index size text = some buffer' ∧
      buffer'.length = buffer.length := by
  rw [snprintfAt]
  split
  · exact ⟨buffer, rfl, rfl⟩
  · have hindex : (buffer.take index).length = index :=
      List.length_take_of_le ((Nat.le_add_right _ _).trans hfits)
    have hlength : (buffer.take index).length + (snprintf size text ++ [0]).length ≤
        buffer.length := by
      rw [hindex, snprintf, List.length_append, List.length_take, List.length_singleton]
      omega
    obtain ⟨buffer', hput, _, hsame⟩ := putAt_begins (List.take_prefix index buffer) hlength
    rw [hindex] at hput
    exact ⟨buffer', hput, hsame⟩

def slash : Byte := 47

def dot : Byte := 46

/-- `NAME_MAX`. -/
def nameMax : Nat := 255

/-- The name of an entry of a directory, other than `.` and `..`. -/
@[ext] structure Name where
  bytes : Bytes
  nonempty : bytes ≠ []
  noNul : (0 : Byte) ∉ bytes
  noSlash : slash ∉ bytes
  length_le : bytes.length ≤ nameMax
  proper : bytes ≠ [dot] ∧ bytes ≠ [dot, dot]

instance : DecidableEq Name := fun _ _ => decidable_of_iff' _ Name.ext_iff

/-- `S_IFMT`. -/
inductive FileType where
  | reg | dir | blk | chr | fifo | lnk | sock
  deriving DecidableEq

/-- The fields of `struct stat` that are looked at. -/
structure Stat where
  type : FileType
  ino : Nat
  dev : Nat
  deriving DecidableEq

mutual

/-- A file and, for a directory, what is below it. -/
inductive Tree where
  | unstatable
  | file (stat : Stat)
  | dir (stat : Stat) (readable : Bool) (entries : Entries)

/-- The entries of a directory, in the order in which they are read. -/
inductive Entries where
  | nil
  | cons (name : Name) (tree : Tree) (rest : Entries)

end

def Entries.names : Entries → List Bytes
  | .nil => []
  | .cons name _ rest => name.bytes :: rest.names

/-- What system calls say about pathnames: `stat` or `lstat`, and the names read from a
directory that can be opened. -/
structure FileSystem where
  stat : Bytes → Option Stat
  opendir : Bytes → Option (List Bytes)

def isProper (name : Bytes) : Bool := name != [dot] && name != [dot, dot]

theorem Name.isProper (name : Name) : Libc.isProper name.bytes = true := by
  simp [Libc.isProper, name.proper]

mutual

/-- The file at a path is the root of a tree; the code may put something behind the path
of a directory to open it. -/
def Tree.At (fs : FileSystem) (behind path : Bytes) : Tree → Prop
  | .unstatable => fs.stat path = none
  | .file stat => fs.stat path = some stat ∧ stat.type ≠ .dir
  | .dir stat readable entries =>
    fs.stat path = some stat ∧ stat.type = .dir ∧
      (if readable then
        ∃ names, fs.opendir (path ++ behind) = some names ∧ names.filter isProper = entries.names
      else fs.opendir (path ++ behind) = none) ∧
      entries.At fs behind (path ++ [slash])

/-- The files behind a path that ends in a slash. -/
def Entries.At (fs : FileSystem) (behind lead : Bytes) : Entries → Prop
  | .nil => True
  | .cons name tree rest =>
    tree.At fs behind (lead ++ name.bytes) ∧ rest.At fs behind lead

end

mutual

def Tree.height : Tree → Nat
  | .unstatable => 1
  | .file _ => 1
  | .dir _ _ entries => entries.height + 1

def Entries.height : Entries → Nat
  | .nil => 0
  | .cons _ tree rest => max tree.height rest.height

end

mutual

/-- The directories that one comes to through directories that can be read. -/
def Tree.dirs (path : Bytes) : Tree → List Bytes
  | .unstatable => []
  | .file _ => []
  | .dir _ readable entries =>
    path :: if readable then entries.dirs (path ++ [slash]) else []

def Entries.dirs (lead : Bytes) : Entries → List Bytes
  | .nil => []
  | .cons name tree rest => tree.dirs (lead ++ name.bytes) ++ rest.dirs lead

end

mutual

/-- The files other than directories: all of them, or those that one comes to through
directories that can be read. -/
def Tree.files (all : Bool) (path : Bytes) : Tree → List (Bytes × Stat)
  | .unstatable => []
  | .file stat => [(path, stat)]
  | .dir _ readable entries =>
    if all || readable then entries.files all (path ++ [slash]) else []

def Entries.files (all : Bool) (lead : Bytes) : Entries → List (Bytes × Stat)
  | .nil => []
  | .cons name tree rest => tree.files all (lead ++ name.bytes) ++ rest.files all lead

end

/-! ## Paths into a tree -/

def Leads (path target : Bytes) : Prop := target = path ∨ path ++ [slash] <+: target

variable {target : Bytes}

theorem Leads.of_below {lead name : Bytes} (hleads : Leads (lead ++ name) target) :
    lead <+: target := by
  rcases hleads with rfl | hbelow
  · exact List.prefix_append _ _
  · rw [List.append_assoc] at hbelow
    exact (List.prefix_append _ _).trans hbelow

theorem Leads.length_le {path : Bytes} (hleads : Leads path target) :
    path.length ≤ target.length := by
  rcases hleads with rfl | hbelow
  · exact le_rfl
  · exact (List.prefix_append _ _).length_le.trans hbelow.length_le

theorem Leads.total {path other : Bytes} (hpath : Leads path target) (hother : Leads other target) :
    Leads path other ∨ Leads other path := by
  rcases hpath with rfl | hpath
  · exact .inr hother
  rcases hother with rfl | hother
  · exact .inl (.inr hpath)
  rcases List.prefix_or_prefix_of_prefix hpath hother with hle | hle
  · rcases List.prefix_concat_iff.mp hle with heq | hle
    · exact .inl (.inl (List.append_cancel_right heq).symm)
    · exact .inl (.inr hle)
  · rcases List.prefix_concat_iff.mp hle with heq | hle
    · exact .inr (.inl (List.append_cancel_right heq).symm)
    · exact .inr (.inr hle)

theorem Leads.through {lead name other : Bytes} (hentry : Leads (lead ++ name) target)
    (hname : slash ∉ name) (hlead : lead <+: other) (hother : Leads other target) :
    Leads (lead ++ name) other := by
  rcases hentry.total hother with hleads | rfl | hbelow
  · exact hleads
  · exact .inl rfl
  · obtain ⟨below, rfl⟩ := hlead
    rw [List.append_assoc, List.prefix_append_right_inj] at hbelow
    exact absurd (hbelow.subset (List.mem_append_right _ (List.mem_singleton_self _))) hname

theorem Leads.name_eq {lead name : Bytes} (hname : slash ∉ name)
    (hleads : Leads (lead ++ name) target) :
    (target.drop lead.length).takeWhile (· ≠ slash) = name := by
  have hall : ∀ byte ∈ name, decide (byte ≠ slash) = true := by
    intro byte hmem
    rw [decide_eq_true_eq]
    rintro rfl
    exact hname hmem
  rcases hleads with rfl | ⟨below, rfl⟩
  · rw [List.drop_left, List.takeWhile_eq_self_iff]
    exact hall
  · rw [List.append_assoc, List.append_assoc, List.drop_left,
      List.takeWhile_append_of_pos hall, List.singleton_append,
      List.takeWhile_cons_of_neg (by simp),
      List.append_nil]

mutual

theorem Tree.leads_of_mem_dirs {path : Bytes} :
    ∀ tree : Tree, target ∈ tree.dirs path → Leads path target
  | .unstatable, hmem => by cases hmem
  | .file _, hmem => by cases hmem
  | .dir _ readable entries, hmem => by
      rw [Tree.dirs, List.mem_cons] at hmem
      rcases hmem with rfl | hmem
      · exact .inl rfl
      · split at hmem
        · obtain ⟨name, _, hleads⟩ := entries.leads_of_mem_dirs hmem
          exact .inr hleads.of_below
        · cases hmem

theorem Entries.leads_of_mem_dirs {lead : Bytes} :
    ∀ entries : Entries, target ∈ entries.dirs lead →
      ∃ name ∈ entries.names, Leads (lead ++ name) target
  | .nil, hmem => by cases hmem
  | .cons name tree rest, hmem => by
      rw [Entries.dirs, List.mem_append] at hmem
      rcases hmem with hmem | hmem
      · exact ⟨name.bytes, List.mem_cons_self, tree.leads_of_mem_dirs hmem⟩
      · obtain ⟨other, hother, hleads⟩ := rest.leads_of_mem_dirs hmem
        exact ⟨other, List.mem_cons_of_mem _ hother, hleads⟩

end

mutual

variable {file : Bytes × Stat}

theorem Tree.leads_of_mem_files {all : Bool} {path : Bytes} :
    ∀ tree : Tree, file ∈ tree.files all path → Leads path file.1
  | .unstatable, hmem => by cases hmem
  | .file stat, hmem => by
      cases List.mem_singleton.mp hmem
      exact .inl rfl
  | .dir _ readable entries, hmem => by
      rw [Tree.files] at hmem
      split at hmem
      · obtain ⟨name, _, hleads⟩ := entries.leads_of_mem_files hmem
        exact .inr hleads.of_below
      · cases hmem

theorem Entries.leads_of_mem_files {all : Bool} {lead : Bytes} :
    ∀ entries : Entries, file ∈ entries.files all lead →
      ∃ name ∈ entries.names, Leads (lead ++ name) file.1
  | .nil, hmem => by cases hmem
  | .cons name tree rest, hmem => by
      rw [Entries.files, List.mem_append] at hmem
      rcases hmem with hmem | hmem
      · exact ⟨name.bytes, List.mem_cons_self, tree.leads_of_mem_files hmem⟩
      · obtain ⟨other, hother, hleads⟩ := rest.leads_of_mem_files hmem
        exact ⟨other, List.mem_cons_of_mem _ hother, hleads⟩

end

theorem Entries.slash_not_mem {name : Bytes} :
    ∀ entries : Entries, name ∈ entries.names → slash ∉ name
  | .nil, hmem => by cases hmem
  | .cons first _ rest, hmem => by
      rcases List.mem_cons.mp hmem with rfl | hmem
      · exact first.noSlash
      · exact rest.slash_not_mem hmem

mutual

theorem Tree.nodup_dirs {fs : FileSystem} {behind path : Bytes} :
    ∀ tree : Tree, tree.At fs behind path →
      (∀ dir ∈ tree.dirs path, ∀ names, fs.opendir (dir ++ behind) = some names → names.Nodup) →
      (tree.dirs path).Nodup
  | .unstatable, _, _ => List.nodup_nil
  | .file _, _, _ => List.nodup_nil
  | .dir _ false entries, _, _ => List.pairwise_singleton _ _
  | .dir _ true entries, ⟨_, _, ⟨names, hopen, hnames⟩, hentries⟩, hnodup => by
      refine List.nodup_cons.mpr ⟨fun hmem => ?_, ?_⟩
      · obtain ⟨name, _, hleads⟩ := entries.leads_of_mem_dirs hmem
        have hle := hleads.of_below.length_le
        rw [List.length_append] at hle
        exact Nat.not_succ_le_self _ hle
      · refine entries.nodup_dirs ?_ hentries fun dir hdir =>
          hnodup dir (List.mem_cons_of_mem _ hdir)
        rw [← hnames]
        exact (hnodup path List.mem_cons_self names hopen).filter _

theorem Entries.nodup_dirs {fs : FileSystem} {behind lead : Bytes} :
    ∀ entries : Entries, entries.names.Nodup → entries.At fs behind lead →
      (∀ dir ∈ entries.dirs lead, ∀ names, fs.opendir (dir ++ behind) = some names →
        names.Nodup) → (entries.dirs lead).Nodup
  | .nil, _, _, _ => List.nodup_nil
  | .cons name tree rest, hnames, ⟨htree, hrest⟩, hnodup => by
      obtain ⟨hnot, hnames'⟩ := List.nodup_cons.mp hnames
      refine List.nodup_append.mpr ⟨?_, ?_, ?_⟩
      · exact tree.nodup_dirs htree fun dir hdir => hnodup dir (List.mem_append_left _ hdir)
      · exact rest.nodup_dirs hnames' hrest fun dir hdir =>
          hnodup dir (List.mem_append_right _ hdir)
      · rintro dir hdir _ hother rfl
        obtain ⟨other, hmem, hleads⟩ := rest.leads_of_mem_dirs hother
        have hsame := (tree.leads_of_mem_dirs hdir).name_eq name.noSlash
        rw [hleads.name_eq (rest.slash_not_mem hmem)] at hsame
        exact hnot (hsame ▸ hmem)

end

end ApueFormal.Libc
