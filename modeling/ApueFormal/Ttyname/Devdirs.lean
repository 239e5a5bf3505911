import ApueFormal.Ttyname.Model

/-!
# The list of directories

`head` and `tail` are the ends of a chain of records, which are all the records there are.
`add` puts one more behind the last one, and `cleanup` frees them all.
-/

namespace ApueFormal.Ttyname

open Function Libc Program

variable {Ptr : Type} [DecidableEq Ptr]

/-- Allocations succeed, and no block is handed out twice. -/
structure Env.Allocates (env : Env Ptr) : Prop where
  malloc : ∀ call, ∃ ptr, env.malloc call = some ptr
  distinct : ∀ call other, env.malloc call = env.malloc other → call = other
  strdup : ∀ call, env.strdup call = true

structure Search.Holds (env : Env Ptr) (search : Search Ptr) (nodes : List (Ptr × Bytes)) :
    Prop where
  chain : Chain search.devdirs search.head nodes
  tail : search.tail = nodes.getLast?.map Prod.fst
  nodup : (nodes.map Prod.fst).Nodup
  only : ∀ ptr, ptr ∉ nodes.map Prod.fst → search.devdirs ptr = none
  allocated : ∀ ptr ∈ nodes.map Prod.fst, ∃ call < search.mallocs, env.malloc call = some ptr
  buffer : search.pathname.length = pathnameSize

variable {env : Env Ptr} {search : Search Ptr} {nodes : List (Ptr × Bytes)}

section

variable (hholds : search.Holds env nodes)
include hholds

omit [DecidableEq Ptr] in
theorem Search.Holds.write {pathname : Bytes}
    (hlength : pathname.length = search.pathname.length) (opened : List Bytes) :
    Search.Holds env { search with pathname := pathname, opened := opened } nodes :=
  { hholds with buffer := hlength.trans hholds.buffer }

omit [DecidableEq Ptr] in
theorem Search.Holds.fresh (halloc : env.Allocates) {ptr : Ptr}
    (hmalloc : env.malloc search.mallocs = some ptr) : ptr ∉ nodes.map Prod.fst := by
  intro hmem
  obtain ⟨call, hlt, hcall⟩ := hholds.allocated ptr hmem
  exact Nat.ne_of_lt hlt (halloc.distinct _ _ (hcall.trans hmalloc.symm))

theorem Search.Holds.link (halloc : env.Allocates) {ptr : Ptr}
    (hmalloc : env.malloc search.mallocs = some ptr) (dirname : Bytes) :
    ∃ search', Search.link { search with mallocs := search.mallocs + 1 } ptr dirname =
        .ok search' ∧ search'.Holds env (nodes ++ [(ptr, dirname)]) ∧
      search'.pathname = search.pathname ∧ search'.opened = search.opened := by
  have hfresh := hholds.fresh halloc hmalloc
  have hnodup : ((nodes ++ [(ptr, dirname)]).map Prod.fst).Nodup := by
    rw [List.map_append, List.nodup_append]
    refine ⟨hholds.nodup, List.pairwise_singleton _ _, ?_⟩
    rintro other hmem _ hnew rfl
    cases List.mem_singleton.mp hnew
    exact hfresh hmem
  have hallocated : ∀ other ∈ (nodes ++ [(ptr, dirname)]).map Prod.fst,
      ∃ call < search.mallocs + 1, env.malloc call = some other := by
    intro other hmem
    rw [List.map_append, List.mem_append] at hmem
    rcases hmem with hmem | hmem
    · obtain ⟨call, hlt, hcall⟩ := hholds.allocated other hmem
      exact ⟨call, Nat.lt_succ_of_lt hlt, hcall⟩
    · cases List.mem_singleton.mp hmem
      exact ⟨search.mallocs, Nat.lt_succ_self _, hmalloc⟩
  have honly : ∀ other, other ∉ (nodes ++ [(ptr, dirname)]).map Prod.fst →
      other ≠ ptr ∧ search.devdirs other = none := by
    intro other hmem
    rw [List.map_append, List.mem_append, not_or] at hmem
    exact ⟨fun heq => hmem.2 (List.mem_singleton.mpr heq), hholds.only other hmem.1⟩
  rcases List.eq_nil_or_concat nodes with rfl | ⟨front, last, rfl⟩
  · rw [Search.link, show search.tail = none from hholds.tail]
    refine ⟨_, rfl, ⟨⟨rfl, _, update_self .., rfl⟩, rfl, hnodup, ?_, hallocated,
      hholds.buffer⟩, rfl, rfl⟩
    intro other hmem
    obtain ⟨hne, hnone⟩ := honly other hmem
    exact (update_of_ne hne ..).trans hnone
  · rw [List.concat_eq_append] at *
    obtain ⟨last, name⟩ := last
    have hlast : search.tail = some last := by
      rw [hholds.tail, List.getLast?_concat]
      rfl
    have hname : search.devdirs last = some (name, none) := hholds.chain.get
    have hmem : last ∈ (front ++ [(last, name)]).map Prod.fst := by simp
    have hne : last ≠ ptr := fun heq => hfresh (heq ▸ hmem)
    rw [Search.link]
    dsimp only
    rw [hlast]
    dsimp only
    rw [update_of_ne hne, hname]
    refine ⟨_, rfl, ⟨?_, ?_, hnodup, ?_, hallocated, hholds.buffer⟩, rfl, rfl⟩
    · rw [List.append_assoc]
      refine hholds.chain.snoc (update_self ..) ?_ fun node hnode => ?_
      · dsimp only
        rw [update_of_ne hne.symm, update_self]
      · have hin : node.1 ∈ front.map Prod.fst := List.mem_map_of_mem hnode
        have hnodup' := hholds.nodup
        rw [List.map_append, List.nodup_append] at hnodup'
        have hlast' : node.1 ≠ last := hnodup'.2.2 _ hin _ (List.mem_singleton_self _)
        have hptr : node.1 ≠ ptr := by
          intro heq
          refine hfresh (heq ▸ ?_)
          rw [List.map_append]
          exact List.mem_append_left _ hin
        dsimp only
        rw [update_of_ne hlast', update_of_ne hptr]
    · rw [List.getLast?_concat]
      rfl
    · intro other hother
      obtain ⟨hptr, hnone⟩ := honly other hother
      have hlast' : other ≠ last := by
        rintro rfl
        rw [hname] at hnone
        cases hnone
      exact (update_of_ne hlast' ..).trans ((update_of_ne hptr ..).trans hnone)

theorem Search.Holds.add (halloc : env.Allocates)
    {dirname : Bytes} (hdots : isDots dirname = false) (hfd : dirname ≠ devFd) :
    ∃ search' ptr, search.add env dirname = .ok search' ∧
      search'.Holds env (nodes ++ [(ptr, dirname)]) ∧
      search'.pathname = search.pathname ∧ search'.opened = search.opened := by
  obtain ⟨ptr, hmalloc⟩ := halloc.malloc search.mallocs
  obtain ⟨search', hlink, hholds', hsame⟩ := hholds.link halloc hmalloc dirname
  refine ⟨search', ptr, ?_, hholds', hsame⟩
  rw [Search.add, hdots, if_neg Bool.false_ne_true, if_neg hfd, hmalloc]
  dsimp only
  rw [halloc.strdup, if_pos rfl]
  exact hlink

omit hholds in
theorem freeList_eq {devdirs : Look Ptr Bytes} {head : Option Ptr}
    (hchain : Chain devdirs head nodes) (hnodup : (nodes.map Prod.fst).Nodup) {fuel : Nat}
    (hfuel : nodes.length < fuel) :
    freeList fuel head devdirs =
      .ok fun ptr => if ptr ∈ nodes.map Prod.fst then none else devdirs ptr := by
  induction nodes generalizing devdirs head fuel with
  | nil =>
    obtain ⟨spare, rfl⟩ := Nat.exists_eq_add_of_lt hfuel
    cases hchain
    rfl
  | cons node rest ih =>
    obtain ⟨spare, rfl⟩ := Nat.exists_eq_add_of_lt hfuel
    obtain ⟨ptr, name⟩ := node
    obtain ⟨rfl, next, hnode, hrest⟩ := hchain
    obtain ⟨hnot, hnodup⟩ := List.nodup_cons.mp hnodup
    have hkept : Chain (update devdirs ptr none) next rest := by
      refine hrest.congr fun other hmem => update_of_ne ?_ ..
      intro heq
      have hin : other.1 ∈ rest.map Prod.fst := List.mem_map_of_mem hmem
      exact hnot (heq ▸ hin)
    rw [freeList, hnode]
    dsimp only
    rw [ih hkept hnodup (Nat.lt_of_succ_lt_succ hfuel)]
    congr 1
    funext other
    rw [List.map_cons]
    rcases eq_or_ne other ptr with rfl | hne
    · rw [if_pos (List.mem_cons_self (l := rest.map Prod.fst)), update_self, ite_self]
    · rw [update_of_ne hne]
      exact if_congr (by rw [List.mem_cons, or_iff_right hne]) rfl rfl

theorem Search.Holds.cleanup {fuel : Nat} (hfuel : nodes.length < fuel) : search.cleanup fuel =
      .ok { search with head := none, tail := none, devdirs := fun _ => none } := by
  have hall : (fun ptr => if ptr ∈ nodes.map Prod.fst then none else search.devdirs ptr) =
      fun _ => none := by
    funext ptr
    split
    · rfl
    · exact hholds.only ptr (by assumption)
  rw [Search.cleanup, freeList_eq hholds.chain hholds.nodup hfuel, hall]
  rfl

end

theorem isDots_three (front : Bytes) (first second third : Byte) :
    isDots (front ++ [first, second, third]) =
      (third == dot && (second == slash || (second == dot && first == slash))) := by
  simp [isDots]

theorem isDots_append {lead name : Bytes} (hlead : lead ≠ []) (hname : name ≠ [])
    (hslash : slash ∉ name) : isDots (lead ++ [slash] ++ name) = !isProper name := by
  rw [List.append_assoc, List.singleton_append]
  -- The name has one byte, two bytes, or more.
  rcases List.eq_nil_or_concat name with rfl | ⟨name, third, rfl⟩
  · exact absurd rfl hname
  rcases List.eq_nil_or_concat name with rfl | ⟨name, second, rfl⟩
  · rcases List.eq_nil_or_concat lead with rfl | ⟨lead, first, rfl⟩
    · exact absurd rfl hlead
    · have hpath : lead.concat first ++ slash :: [].concat third =
          lead ++ [first, slash, third] := by simp
      rw [hpath, isDots_three, Bool.eq_iff_iff]
      simp [isProper]
  rcases List.eq_nil_or_concat name with rfl | ⟨name, first, rfl⟩
  · have hpath : lead ++ slash :: ([].concat second).concat third =
        lead ++ [slash, second, third] := by simp
    have hsecond : second ≠ slash := by
      rintro rfl
      exact hslash (by simp)
    rw [hpath, isDots_three, Bool.eq_iff_iff]
    simp [isProper, hsecond, and_comm]
  · have hpath : lead ++ slash :: ((name.concat first).concat second).concat third =
        lead ++ slash :: name ++ [first, second, third] := by simp
    have hends : first ≠ slash ∧ second ≠ slash := by
      constructor <;>
      · rintro rfl
        exact hslash (by simp)
    have hlong : ∀ few : Bytes, few.length ≤ 2 → name ++ [first, second, third] ≠ few := by
      rintro few hfew rfl
      simp at hfew
    rw [hpath, isDots_three, Bool.eq_iff_iff]
    simp [isProper, hends, hlong]

end ApueFormal.Ttyname
