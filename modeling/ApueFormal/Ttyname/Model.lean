import ApueFormal.Libc.Hierarchy
import ApueFormal.Program.Chain

/-!
# The name of a terminal

`ttyname` searches `/dev` for the file of a terminal.  The directories found on the way
are put at the end of a linked list, which is run through while it grows.  One buffer
holds the pathname that is looked at and, in the end, the result.
-/

namespace ApueFormal.Ttyname

open Libc Program

/-- `_POSIX_PATH_MAX`. -/
def posixPathMax : Nat := 256

/-- `sizeof(pathname)`. -/
def pathnameSize : Nat := posixPathMax + 1

/-- The file system, what the calls of `malloc` deliver one after the other, and whether
`strdup` finds memory behind each of them. -/
structure Env (Ptr : Type) where
  fs : FileSystem
  malloc : Nat → Option Ptr
  strdup : Nat → Bool

/-- The static variables, the records of the list with their names, the number of calls of
`malloc`, and the directories that were opened. -/
structure Search (Ptr : Type) where
  head : Option Ptr
  tail : Option Ptr
  devdirs : Look Ptr Bytes
  mallocs : Nat
  pathname : Bytes
  opened : List Bytes

/-- What must not happen. -/
inductive Exit where
  | bounds
  | freed
  | fuel
  deriving DecidableEq

/-- What `isatty` and `fstat` say about a descriptor. -/
structure Descriptor where
  isatty : Bool
  fstat : Option Stat

def devFd : Bytes := ascii "/dev/fd"

def aliases : List Bytes := [ascii "/dev/stdin", ascii "/dev/stdout", ascii "/dev/stderr"]

variable {Ptr : Type} [DecidableEq Ptr]

/-! ## The list of directories -/

/-- The last component is `.` or `..`. -/
def isDots (dirname : Bytes) : Bool :=
  let len := dirname.length
  dirname[len - 1]? == some dot &&
    (dirname[len - 2]? == some slash ||
      (dirname[len - 2]? == some dot && dirname[len - 3]? == some slash))

def Search.link (search : Search Ptr) (ddp : Ptr) (dirname : Bytes) : Except Exit (Search Ptr) :=
  let devdirs := Function.update search.devdirs ddp (some (dirname, none))
  match search.tail with
  | none => .ok { search with head := some ddp, tail := some ddp, devdirs := devdirs }
  | some tail =>
    match devdirs tail with
    | none => .error .freed
    | some (name, _) =>
      .ok { search with
        tail := some ddp
        devdirs := Function.update devdirs tail (some (name, some ddp)) }

def Search.add (env : Env Ptr) (search : Search Ptr) (dirname : Bytes) : Except Exit (Search Ptr) :=
  if isDots dirname then .ok search
  else if dirname = devFd then .ok search
  else
    let allocated := { search with mallocs := search.mallocs + 1 }
    match env.malloc search.mallocs with
    | none => .ok allocated
    | some ddp => if env.strdup search.mallocs then allocated.link ddp dirname else .ok allocated

/-- The loop of `cleanup`. -/
def freeList : Nat → Option Ptr → Look Ptr Bytes → Except Exit (Look Ptr Bytes)
  | 0, _, _ => .error .fuel
  | _ + 1, none, devdirs => .ok devdirs
  | fuel + 1, some ddp, devdirs =>
    match devdirs ddp with
    | none => .error .freed
    | some (_, nddp) => freeList fuel nddp (Function.update devdirs ddp none)

def Search.cleanup (fuel : Nat) (search : Search Ptr) : Except Exit (Search Ptr) := do
  let devdirs ← freeList fuel search.head search.devdirs
  .ok { search with head := none, tail := none, devdirs := devdirs }

/-! ## The search -/

def Search.print (search : Search Ptr) (index : Nat) (text : Bytes) : Except Exit (Search Ptr) :=
  match snprintfAt search.pathname index (pathnameSize - index) text with
  | none => .error .bounds
  | some pathname => .ok { search with pathname := pathname }

/-- The loop of `searchdir`; the result says whether a match was found. -/
def searchEntries (env : Env Ptr) (fdstat : Stat) (devlen : Nat) :
    List Bytes → Search Ptr → Except Exit (Bool × Search Ptr)
  | [], search => .ok (false, search)
  | name :: rest, search => do
      let search ← search.print devlen name
      if cstr search.pathname ∈ aliases then searchEntries env fdstat devlen rest search
      else
        match env.fs.stat (cstr search.pathname) with
        | none => searchEntries env fdstat devlen rest search
        | some devstat =>
          if devstat.type = .dir then do
            let search ← search.add env (cstr search.pathname)
            searchEntries env fdstat devlen rest search
          else if devstat.ino = fdstat.ino ∧ devstat.dev = fdstat.dev then .ok (true, search)
          else searchEntries env fdstat devlen rest search

def searchdir (env : Env Ptr) (dirname : Bytes) (fdstat : Stat) (search : Search Ptr) :
    Except Exit (Bool × Search Ptr) := do
  let search ← search.print 0 (dirname ++ [slash])
  let search := { search with opened := search.opened ++ [dirname] }
  match env.fs.opendir dirname with
  | none => .ok (false, search)
  | some names => searchEntries env fdstat (cstr search.pathname).length names search

/-- The loop of `ttyname` over the list. -/
def searchList (env : Env Ptr) (fdstat : Stat) :
    Nat → Option Ptr → Search Ptr → Except Exit (Bool × Search Ptr)
  | 0, _, _ => .error .fuel
  | _ + 1, none, search => .ok (false, search)
  | fuel + 1, some ddp, search =>
    match search.devdirs ddp with
    | none => .error .freed
    | some (name, _) => do
        let (found, search) ← searchdir env name fdstat search
        if found then .ok (true, search)
        else
          match search.devdirs ddp with
          | none => .error .freed
          | some (_, next) => searchList env fdstat fuel next search

/-- The search of `ttyname`. -/
def searchAll (env : Env Ptr) (fdstat : Stat) (fuel : Nat) (search : Search Ptr) :
    Except Exit (Bool × Search Ptr) := do
  let (found, search) ← searchdir env (ascii "/dev") fdstat search
  if found then .ok (true, search) else searchList env fdstat fuel search.head search

def ttyname (env : Env Ptr) (fuel : Nat) (fd : Descriptor) (search : Search Ptr) :
    Except Exit (Option Bytes × Search Ptr) :=
  if fd.isatty = false then .ok (none, search)
  else
    match fd.fstat with
    | none => .ok (none, search)
    | some fdstat =>
      if fdstat.type ≠ .chr then .ok (none, search)
      else do
        let (found, search) ← searchAll env fdstat fuel search
        let search ← search.cleanup fuel
        .ok (if found then some (cstr search.pathname) else none, search)

end ApueFormal.Ttyname
