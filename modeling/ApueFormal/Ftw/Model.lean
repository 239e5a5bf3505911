import ApueFormal.Libc.Hierarchy

/-!
# Walking a file hierarchy

`myftw` calls a function for every file of a hierarchy.  All levels of the recursion of
`dopath` work in one buffer, which is extended by the name of an entry, allocated again
when a name might not fit, and cut back.
-/

namespace ApueFormal.Ftw

open Libc

inductive Kind where
  | f | d | dnr | ns
  deriving DecidableEq

/-- The arguments of a call of the function; what `lstat` left when it failed is not
given. -/
structure Visit where
  path : Bytes
  stat : Option Stat
  kind : Kind
  deriving DecidableEq

/-- What the function returns, which may depend on the calls before; the last one is the
call itself. -/
abbrev Myfunc := List Visit → Int

/-- The file system, and what an allocation of some size delivers. -/
structure Env where
  fs : FileSystem
  alloc : Nat → Option (Nat → Byte)

inductive Exit where
  | pathconf
  | alloc (size : Nat)
  | bounds
  | fuel
  deriving DecidableEq

/-- The buffer, whose size is `pathlen`, and the calls made so far. -/
structure Walk where
  fullpath : Bytes
  visits : List Visit

/-! ## The buffer -/

def pathMax : Nat := 4096

/-- The static variables of `path_alloc`. -/
structure Limits where
  pathmax : Int
  posixVersion : Int
  xsiVersion : Int
  deriving DecidableEq

def Limits.start : Limits := ⟨pathMax, 0, 0⟩

/-- What `sysconf` and `pathconf` return, and `errno` after `pathconf`. -/
structure Conf where
  scVersion : Int
  scXopenVersion : Int
  pcPathMax : Int
  errno : Int

/-- The static variables after the calls of `path_alloc` that set them. -/
def Limits.fill (limits : Limits) (conf : Conf) : Except Exit Limits :=
  let posixVersion := if limits.posixVersion = 0 then conf.scVersion else limits.posixVersion
  let xsiVersion := if limits.xsiVersion = 0 then conf.scXopenVersion else limits.xsiVersion
  if limits.pathmax = 0 then
    if conf.pcPathMax < 0 then
      if conf.errno = 0 then .ok ⟨1024, posixVersion, xsiVersion⟩ else .error .pathconf
    else .ok ⟨conf.pcPathMax + 1, posixVersion, xsiVersion⟩
  else .ok ⟨limits.pathmax, posixVersion, xsiVersion⟩

/-- The size that `path_alloc` allocates. -/
def Limits.size (limits : Limits) : Nat :=
  if limits.posixVersion < 200112 ∧ limits.xsiVersion < 4 then toSize (limits.pathmax + 1)
  else toSize limits.pathmax

/-- `path_alloc`, before any call of the function. -/
def pathAlloc (env : Env) (conf : Conf) (limits : Limits) :
    Except (Exit × List Visit) (Bytes × Limits) :=
  match limits.fill conf with
  | .error exit => .error (exit, [])
  | .ok limits =>
    match env.alloc limits.size with
    | none => .error (.alloc limits.size, [])
    | some junk => .ok ((List.range limits.size).map junk, limits)

def Env.realloc (env : Env) (buffer : Bytes) (size : Nat) (visits : List Visit) :
    Except (Exit × List Visit) Bytes :=
  match env.alloc size with
  | none => .error (.alloc size, visits)
  | some junk => .ok ((buffer ++ (List.range size).map junk).take size)

/-- `myftw` makes room for its argument. -/
def Env.fit (env : Env) (fullpath : Bytes) (pathname : CString) :
    Except (Exit × List Visit) Bytes :=
  if fullpath.length ≤ pathname.strlen then env.realloc fullpath (pathname.strlen * 2) []
  else .ok fullpath

def Walk.stored (walk : Walk) : Option Bytes → Except (Exit × List Visit) Walk
  | none => .error (.bounds, walk.visits)
  | some fullpath => .ok { walk with fullpath := fullpath }

def Walk.call (walk : Walk) (func : Myfunc) (stat : Option Stat) (kind : Kind) : Int × Walk :=
  let visits := walk.visits ++ [⟨cstr walk.fullpath, stat, kind⟩]
  (func visits, { walk with visits := visits })

/-- The buffer of a directory is expanded unless every name fits. -/
def Walk.expand (walk : Walk) (env : Env) (n : Nat) : Except (Exit × List Visit) Walk :=
  if n + nameMax + 2 > walk.fullpath.length then do
    let fullpath ← env.realloc walk.fullpath (walk.fullpath.length * 2) walk.visits
    .ok { walk with fullpath := fullpath }
  else .ok walk

/-! ## The walk -/

/-- The loop over the entries of a directory; `n` is the index behind the slash. -/
def entries (dopath : Walk → Except (Exit × List Visit) (Int × Walk)) (n : Nat) :
    List Bytes → Int × Walk → Except (Exit × List Visit) (Int × Walk)
  | [], state => .ok state
  | name :: rest, (ret, walk) =>
    if name = [dot] ∨ name = [dot, dot] then entries dopath n rest (ret, walk)
    else do
      let walk ← walk.stored (snprintfAt walk.fullpath n (walk.fullpath.length - n) name)
      let (ret, walk) ← dopath walk
      if ret ≠ 0 then .ok (ret, walk) else entries dopath n rest (ret, walk)

def dopath (env : Env) (func : Myfunc) : Nat → Walk → Except (Exit × List Visit) (Int × Walk)
  | 0, walk => .error (.fuel, walk.visits)
  | fuel + 1, walk =>
    match env.fs.stat (cstr walk.fullpath) with
    | none => .ok (walk.call func none .ns)
    | some stat =>
      if stat.type ≠ .dir then .ok (walk.call func stat .f)
      else
        let (ret, walk) := walk.call func stat .d
        if ret ≠ 0 then .ok (ret, walk)
        else do
          let n := (cstr walk.fullpath).length
          let walk ← walk.expand env n
          let walk ← walk.stored (putAt walk.fullpath n [slash, 0])
          match env.fs.opendir (cstr walk.fullpath) with
          | none => .ok (walk.call func stat .dnr)
          | some names => do
              let (ret, walk) ← entries (dopath env func fuel) (n + 1) names (ret, walk)
              let walk ← walk.stored (putAt walk.fullpath n [0])
              .ok (ret, walk)

/-- `myftw`: what it returns, and the calls it has made. -/
def myftw (env : Env) (conf : Conf) (limits : Limits) (fuel : Nat) (pathname : CString)
    (func : Myfunc) : Except (Exit × List Visit) (Int × List Visit) := do
  let (fullpath, _) ← pathAlloc env conf limits
  let fullpath ← env.fit fullpath pathname
  let walk ← Walk.stored ⟨fullpath, []⟩ (snprintfAt fullpath 0 fullpath.length pathname.bytes)
  let (ret, walk) ← dopath env func fuel walk
  .ok (ret, walk.visits)

end ApueFormal.Ftw
