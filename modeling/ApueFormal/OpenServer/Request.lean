import ApueFormal.OpenServer.FdPass

/-!
# Requests to the open server

`handle_request` splits a request into arguments, opens the file and sends the
descriptor or an error message back.  The message is built in `errmsg`, which is
shared by all requests, and logged as a format, so that a request can end the server.
-/

namespace ApueFormal.OpenServer

open Libc

def white (byte : Byte) : Bool := byte == 32 || byte == 9 || byte == 10

def maxargc : Nat := 50

/-- `strtok`: the next token and the text behind it. -/
def strtok (text : Bytes) : Option (Bytes × Bytes) :=
  match text.dropWhile white with
  | [] => none
  | byte :: rest =>
    some ((byte :: rest).takeWhile fun byte => !white byte,
      ((byte :: rest).dropWhile fun byte => !white byte).drop 1)

theorem length_strtok {text token rest : Bytes} (htoken : strtok text = some (token, rest)) :
    rest.length < text.length := by
  rw [strtok] at htoken
  split at htoken
  · cases htoken
  · rename_i byte tail htail
    cases htoken
    have hhead : white byte = false := by
      have hnot := List.head?_dropWhile_not white text
      rw [htail] at hnot
      exact hnot
    have hdrop := (List.dropWhile_sublist white (l := text)).length_le
    have hrest := (List.dropWhile_sublist (fun byte => !white byte) (l := tail)).length_le
    rw [htail] at hdrop
    rw [List.dropWhile_cons_of_pos (by simp [hhead]), List.length_drop]
    simp only [List.length_cons] at hdrop
    omega

/-- The loop of `buf_args` over the tokens behind the first one. -/
def bufArgsLoop (rest : Bytes) (argc : Nat) (argv : List Bytes) : Option (List Bytes) :=
  match _htoken : strtok rest with
  | none => some argv
  | some (ptr, rest') =>
    if argc + 1 ≥ maxargc - 1 then none
    else bufArgsLoop rest' (argc + 1) (argv ++ [ptr])
termination_by rest.length
decreasing_by exact length_strtok _htoken

/-- The arguments that `buf_args` finds.  The first one is the start of the
buffer up to the end of the first token. -/
def bufArgv (buf : Bytes) : Option (List Bytes) :=
  match strtok (cstr buf) with
  | none => none
  | some (token, rest) => bufArgsLoop rest 0 [(cstr buf).takeWhile white ++ token]

structure Globals where
  errmsg : Bytes
  pathname : Bytes
  oflag : Int
  deriving DecidableEq

def bufArgs (buf : Bytes) (optfunc : Nat → List Bytes → Globals → Int × Globals)
    (globals : Globals) : Int × Globals :=
  match bufArgv buf with
  | none => (-1, globals)
  | some argv => optfunc argv.length argv globals

def clOpen : Bytes := ascii "open"

def cliArgs (argc : Nat) (argv : List Bytes) (globals : Globals) : Int × Globals :=
  if argc ≠ 3 ∨ argv.head? ≠ some clOpen then
    (-1, { globals with errmsg := ascii "usage: <pathname> <oflag>\n" })
  else (0, { globals with pathname := argv.getD 1 [], oflag := atoi (argv.getD 2 []) })

/-- What `open` does with a path and flags: the text of an error, or a file. -/
abbrev Opens := Bytes → Int → Except Bytes Nat

structure Request where
  opens : Opens
  /-- `send_fd` can send the descriptor. -/
  sends : Bool
  buf : Bytes
  uid : Nat

/-- `log_msg(errmsg)`: the message is a format without arguments, and the server goes on
when it has no conversion that takes one. -/
def logMsg (globals : Globals) : Option Globals :=
  if formatEnds false (globals.errmsg ++ [0]) then some globals else none

/-- `handle_request`: the global variables afterwards, if the server goes on, and what is
sent. -/
def handleRequest (request : Request) (globals : Globals) : Option Globals × List Packet :=
  if request.buf.getLast? ≠ some 0 then
    let errmsg := snprintf (maxline - 1)
      (ascii "request from uid " ++ fmtD (wrap 32 request.uid) ++
        ascii " not null terminated: " ++ padLeft request.buf.length (cstr request.buf) ++
        ascii "\n")
    (some { globals with errmsg }, (sendErr (fun _ => true) (-1) errmsg).2)
  else
    let parsed := bufArgs request.buf cliArgs globals
    let globals := parsed.2
    if parsed.1 < 0 then (logMsg globals, (sendErr (fun _ => true) (-1) globals.errmsg).2)
    else
      match request.opens globals.pathname globals.oflag with
      | .error strerror =>
        let errmsg := snprintf (maxline - 1)
          (ascii "can't open " ++ globals.pathname ++ ascii ": " ++ strerror ++ ascii "\n")
        (logMsg { globals with errmsg }, (sendErr (fun _ => true) (-1) errmsg).2)
      | .ok newfd => if request.sends then (some globals, [sendFd newfd]) else (none, [])

def tokens (rest : Bytes) : List Bytes :=
  match _htoken : strtok rest with
  | none => []
  | some (ptr, rest') => ptr :: tokens rest'
termination_by rest.length
decreasing_by exact length_strtok _htoken

theorem bufArgsLoop_isSome (rest : Bytes) (argc : Nat) (argv : List Bytes)
    (hargc : argc < maxargc - 1) :
    (bufArgsLoop rest argc argv).isSome ↔ argc + (tokens rest).length < maxargc - 1 := by
  induction rest, argc, argv using bufArgsLoop.induct with
  | case1 rest argc argv hnone =>
    rw [bufArgsLoop.eq_def, tokens.eq_def, hnone]
    simpa using hargc
  | case2 rest argc argv ptr rest' htoken hmany =>
    rw [bufArgsLoop.eq_def, tokens.eq_def, htoken]
    simp only [if_pos hmany, Option.isSome_none, Bool.false_eq_true, List.length_cons, false_iff]
    omega
  | case3 rest argc argv ptr rest' htoken hfew ih =>
    rw [bufArgsLoop.eq_def, tokens.eq_def, htoken]
    simp only [if_neg hfew, List.length_cons]
    rw [ih (Nat.lt_of_not_le hfew), Nat.add_assoc, Nat.add_comm 1]

theorem bufArgv_isSome (buf : Bytes) : (bufArgv buf).isSome ↔
      1 ≤ (tokens (cstr buf)).length ∧ (tokens (cstr buf)).length < maxargc := by
  rw [bufArgv, tokens.eq_def]
  cases htoken : strtok (cstr buf) with
  | none => simp
  | some found =>
    simp only [List.length_cons]
    rw [bufArgsLoop_isSome _ _ _ (by decide), maxargc]
    omega

/-! ## What a reply depends on -/

theorem cliArgs_congr (argc : Nat) (argv : List Bytes) (globals globals' : Globals) :
    ((cliArgs argc argv globals).1 = -1 ∧ (cliArgs argc argv globals').1 = -1 ∧
      (cliArgs argc argv globals).2.errmsg = (cliArgs argc argv globals').2.errmsg) ∨
    ((cliArgs argc argv globals).1 = 0 ∧ (cliArgs argc argv globals').1 = 0 ∧
      (cliArgs argc argv globals).2.pathname = (cliArgs argc argv globals').2.pathname ∧
      (cliArgs argc argv globals).2.oflag = (cliArgs argc argv globals').2.oflag) := by
  unfold cliArgs
  split
  · exact .inl ⟨rfl, rfl, rfl⟩
  · exact .inr ⟨rfl, rfl, rfl, rfl⟩

/-- A request that is not terminated, or that is split into arguments, is answered
from its own bytes. -/
theorem handleRequest_congr {request : Request}
    (hbuf : request.buf.getLast? ≠ some 0 ∨ (bufArgv request.buf).isSome)
    (globals globals' : Globals) :
    (handleRequest request globals).2 = (handleRequest request globals').2 := by
  unfold handleRequest
  split
  · rfl
  · rename_i hterminated
    obtain ⟨argv, hargv⟩ := Option.isSome_iff_exists.mp (hbuf.resolve_left hterminated)
    simp only [bufArgs, hargv]
    rcases cliArgs_congr argv.length argv globals globals' with
      ⟨hfail, hfail', herrmsg⟩ | ⟨hdone, hdone', hpathname, hoflag⟩
    · rw [hfail, hfail', herrmsg]
      rfl
    · rw [hdone, hdone', hpathname, hoflag, if_neg (by decide), if_neg (by decide)]
      cases request.opens (cliArgs argv.length argv globals').2.pathname
        (cliArgs argv.length argv globals').2.oflag with
      | error strerror => rfl
      | ok newfd => cases request.sends <;> rfl

/-- A request that is not split into arguments is answered with the message that
is left from an earlier one. -/
theorem handleRequest_stale {request : Request} (hterminated : request.buf.getLast? = some 0)
    (hargv : bufArgv request.buf = none) (globals : Globals) :
    (handleRequest request globals).2 = (sendErr (fun _ => true) (-1) globals.errmsg).2 := by
  rw [handleRequest, if_neg (not_not_intro hterminated)]
  simp only [bufArgs, hargv]
  rfl

def globalsAfter (history : List Request) : Option Globals :=
  history.foldlM (fun globals request => (handleRequest request globals).1) ⟨[], [], 0⟩

/-- The reply to a request, if the server has gone on after the earlier ones. -/
def reply (request : Request) (history : List Request) : Option (List Packet) :=
  (globalsAfter history).map fun globals => (handleRequest request globals).2

def badRequest : Request := ⟨fun _ _ => .ok 0, true, [120, 0], 0⟩

/-- The reply to a request does not depend on earlier requests exactly when it is
not terminated or has between one and `MAXARGC - 1` arguments. -/
theorem reply_independent_iff (request : Request) :
    (∀ history history' packets packets', reply request history = some packets →
      reply request history' = some packets' → packets = packets') ↔
      (request.buf.getLast? ≠ some 0 ∨
        1 ≤ (tokens (cstr request.buf)).length ∧
          (tokens (cstr request.buf)).length < maxargc) := by
  rw [← bufArgv_isSome]
  constructor
  · intro hsame
    by_contra hnot
    rw [not_or, not_not, Option.not_isSome_iff_eq_none] at hnot
    have hfirst : globalsAfter [] = some ⟨[], [], 0⟩ := rfl
    have hlater : globalsAfter [badRequest] =
        some ⟨ascii "usage: <pathname> <oflag>\n", [], 0⟩ := by decide +kernel
    have hempty := hsame [] [badRequest] _ _ (congrArg (Option.map _) hfirst)
      (congrArg (Option.map _) hlater)
    simp only [handleRequest_stale hnot.1 hnot.2] at hempty
    exact absurd hempty (by decide +kernel)
  · intro hbuf history history' packets packets' hreply hreply'
    obtain ⟨globals, _, rfl⟩ := Option.map_eq_some_iff.mp hreply
    obtain ⟨globals', _, rfl⟩ := Option.map_eq_some_iff.mp hreply'
    exact handleRequest_congr hbuf globals globals'

def keyRequest : Request :=
  ⟨fun _ _ => .error (ascii "Permission denied"), true, ascii "open /key 0" ++ [0], 1000⟩

/-- A request of one zero byte is answered with the path that another client has
asked for. -/
theorem empty_request_leaks :
    reply ⟨fun _ _ => .ok 0, true, [0], 1001⟩ [] = some [⟨[0, 1], none⟩] ∧
    reply ⟨fun _ _ => .ok 0, true, [0], 1001⟩ [keyRequest] =
      some [⟨ascii "can't open /key: Permission denied\n", none⟩, ⟨[0, 1], none⟩] := by
  decide +kernel

end ApueFormal.OpenServer
