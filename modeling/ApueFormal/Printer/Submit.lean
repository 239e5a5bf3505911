import ApueFormal.Printer.Ipp
import ApueFormal.Printer.Writen

/-!
# The print client

`submit_file` sends the header of a request and then the file, and waits for the response
of the daemon.
-/

namespace ApueFormal.Printer

open Libc

/-- What `submit_file` is called with, and what its variables hold before they are set. -/
structure SubmitArgs where
  /-- `getpwuid(geteuid())->pw_name`. -/
  pwName : Option CString
  fname : CString
  nbytes : Nat
  text : Bool
  /-- The variable `req`. -/
  req : Nat → Byte
  /-- The variable `buf`. -/
  buf : Nat → Byte

def SubmitArgs.usernm (args : SubmitArgs) : Bytes :=
  match args.pwName with
  | none => ascii "unknown" ++ [0]
  -- `strncpy` fills up with zeros.
  | some name =>
    name.bytes.take (usernmMax - 1) ++ List.replicate (usernmMax - 1 - name.strlen) 0 ++ [0]

def SubmitArgs.jobnm (args : SubmitArgs) : Bytes :=
  let len := args.fname.strlen
  (if len ≥ jobnmMax then
    snprintf jobnmMax (ascii "... " ++ args.fname.bytes.drop (len - jobnmMax + 5))
  else snprintf jobnmMax args.fname.bytes) ++ [0]

/-- The variable `req` when it is sent. -/
def SubmitArgs.request (args : SubmitArgs) : Nat → Byte :=
  let req := fill args.req 8 args.usernm
  let req := fill req 0 (beBytes args.nbytes)
  let req := fill req 4 (beBytes (if args.text then prText else 0))
  fill req (8 + usernmMax) args.jobnm

/-- How `submit_file` ends the program or returns. -/
inductive SubmitEnd where
  | errSys (message : Bytes)
  | errQuit (message : Bytes)
  | rejected (message : Bytes)
  | accepted (jobid : Nat)
  deriving DecidableEq

def SubmitEnd.isError : SubmitEnd → Bool
  | .errSys _ => true
  | .errQuit _ => true
  | _ => false

/-- The error exit after a `writen` that returned something else than was asked for. -/
def writeError (nw nr : Int) : SubmitEnd :=
  if nw < 0 then .errSys (ascii "can't write to print server")
  else .errQuit (ascii "short write (" ++ fmtD nw ++ ascii "/" ++ fmtD nr ++
    ascii ") to print server")

structure Sending where
  sent : Bytes
  /-- A `read` or a `write` has failed. -/
  failed : Bool
  /-- The error exit, if there was one. -/
  exit : Option SubmitEnd

/-- The loop that sends the file.  It is still running when the results of `read` are used
up. -/
def sendFile (buf : Nat → Byte) : List Tread → List Write → Option Sending
  | [], _ => none
  | read :: reads, writes =>
    let nr := (readFile buf read).1
    let buf := (readFile buf read).2
    if nr = 0 then some ⟨[], false, none⟩
    else
      let result := writen buf (toSize nr) writes
      let nw := wrap 32 result.value
      if nw ≠ nr then some ⟨result.sent, true, some (writeError nw nr)⟩
      else
        (sendFile buf reads result.results).map fun rest =>
          ⟨result.sent ++ rest.sent, decide (nr < 0) || result.failed || rest.failed, rest.exit⟩

structure SubmitCalls where
  /-- `read` on the file. -/
  reads : List Tread
  /-- `write` to the socket. -/
  writes : List Write
  /-- `read` on the socket. -/
  response : List Tread

structure Submitted where
  /-- What was sent of the header. -/
  header : Bytes
  /-- What was sent after the header. -/
  sent : Bytes
  /-- A `read` on the file or a `write` has failed. -/
  failed : Bool
  /-- The client has gone on to wait for the response. -/
  waited : Bool
  ending : SubmitEnd

def sizeofPrintresp : Nat := 4 + 4 + msglenMax

/-- `readn` on the response; its loop is that of `treadn`. -/
def readResponseOf (reads : List Tread) : SubmitEnd :=
  match treadn sizeofPrintresp [] reads with
  | .error _ => .errSys (ascii "can't read response from server")
  | .ok res =>
    if res.length ≠ sizeofPrintresp then .errSys (ascii "can't read response from server")
    else if bigEndian (res.take 4) ≠ 0 then .rejected (cstr (res.drop 8))
    else .accepted (bigEndian ((res.drop 4).take 4))

/-- `submit_file`; it has not ended when the results of `read` are used up. -/
def submitFile (args : SubmitArgs) (calls : SubmitCalls) : Option Submitted :=
  let header := writen args.request sizeofPrintreq calls.writes
  let nw := wrap 32 header.value
  if nw ≠ sizeofPrintreq then
    some ⟨header.sent, [], true, false, writeError nw sizeofPrintreq⟩
  else
    (sendFile args.buf calls.reads header.results).map fun file =>
      match file.exit with
      | some exit => ⟨header.sent, file.sent, file.failed, false, exit⟩
      | none => ⟨header.sent, file.sent, file.failed, true, readResponseOf calls.response⟩

/-! ## What is sent -/

theorem writeError_isError (nw nr : Int) : (writeError nw nr).isError = true := by
  unfold writeError
  split <;> rfl

/-- The loop has sent the whole file and leaves the loop, or has sent a part of it and ends
with an error. -/
inductive SendsFile (file : Bytes) (sending : Sending) : Prop where
  | whole (hsent : sending.sent = file) (hfailed : sending.failed = false)
      (hexit : sending.exit = none)
  | part (hsent : sending.sent <+: file) (hne : sending.sent ≠ file)
      (hfailed : sending.failed = true) (hexit : ∃ nw nr, sending.exit = some (writeError nw nr))

theorem SendsFile.cons {file chunk : Bytes} {rest : Sending} (hrest : SendsFile file rest) :
    SendsFile (chunk ++ file) ⟨chunk ++ rest.sent, rest.failed, rest.exit⟩ := by
  cases hrest with
  | whole hsent hfailed hexit => exact .whole (congrArg (chunk ++ ·) hsent) hfailed hexit
  | part hsent hne hfailed hexit =>
    exact .part ((List.prefix_append_right_inj chunk).mpr hsent)
      (fun heq => hne (List.append_cancel_left heq)) hfailed hexit

theorem sendFile_chunk (buf : Nat → Byte) {chunk : Bytes} (hne : chunk ≠ [])
    (hshort : chunk.length ≤ iobufsz) (reads : List Tread) (writes : List Write) :
    (∃ nw nr, ∃ sent, sent <+: chunk ∧ sent ≠ chunk ∧
      sendFile buf (.data chunk :: reads) writes =
        some ⟨sent, true, some (writeError nw nr)⟩) ∨
    ∃ writes', sendFile buf (.data chunk :: reads) writes =
      (sendFile (fill buf 0 chunk) reads writes').map fun rest =>
        ⟨chunk ++ rest.sent, rest.failed, rest.exit⟩ := by
  have hpos : 0 < chunk.length := List.length_pos_iff.mpr hne
  have hnr : (readFile buf (.data chunk)).1 = (chunk.length : Int) := rfl
  have hbuf : (readFile buf (.data chunk)).2 = fill buf 0 chunk := rfl
  have hchunk := writen_chunk buf hshort writes
  rw [sendFile]
  simp only [hnr, hbuf]
  rw [if_neg (show ¬ (chunk.length : Int) = 0 by omega)]
  generalize writen (fill buf 0 chunk) (toSize (chunk.length : Int)) writes = result at hchunk ⊢
  cases hchunk with
  | part hsent hpart hnw => exact .inl ⟨_, _, result.sent, hsent, hpart, if_pos hnw⟩
  | whole hsent hnw hfailed =>
    have hlt : decide ((chunk.length : Int) < 0) = false := decide_eq_false (by omega)
    refine .inr ⟨result.results, ?_⟩
    rw [if_neg (not_not_intro hnw), hsent, hfailed, hlt]
    rfl

/-- A beginning of a chunk that is not the whole chunk is not the whole file either. -/
theorem ne_append_of_part {sent chunk : Bytes} (hsent : sent <+: chunk) (hne : sent ≠ chunk)
    (file : Bytes) : sent ≠ chunk ++ file := by
  intro heq
  have hlength := congrArg List.length heq
  rw [List.length_append] at hlength
  have hle := hsent.length_le
  exact hne (hsent.eq_of_length (by omega))

theorem sendFile_chunks (buf : Nat → Byte) {chunks : List Bytes}
    (hchunks : ∀ chunk ∈ chunks, chunk ≠ [] ∧ chunk.length ≤ iobufsz) (later : List Tread)
    (writes : List Write) :
    ∃ sending, sendFile buf (chunks.map .data ++ .data [] :: later) writes = some sending ∧
      SendsFile chunks.flatten sending := by
  induction chunks generalizing buf writes with
  | nil => exact ⟨⟨[], false, none⟩, rfl, .whole rfl rfl rfl⟩
  | cons chunk chunks ih =>
    obtain ⟨⟨hne, hshort⟩, hrest⟩ := List.forall_mem_cons.mp hchunks
    rcases sendFile_chunk buf hne hshort (chunks.map .data ++ .data [] :: later) writes with
      ⟨nw, nr, sent, hsent, hpart, hstops⟩ | ⟨writes', hgoes⟩
    · refine ⟨_, hstops, .part ?_ ?_ rfl ⟨nw, nr, rfl⟩⟩
      · exact hsent.trans (List.prefix_append chunk chunks.flatten)
      · exact ne_append_of_part hsent hpart chunks.flatten
    · obtain ⟨sending, hsending, hsends⟩ := ih (fill buf 0 chunk) hrest writes'
      rw [hsending] at hgoes
      exact ⟨_, hgoes, hsends.cons⟩

/-- What the daemon gets is a beginning of the file, the client waits for the response only
when it has sent all of it, and a failed call ends the client with an error before that. -/
structure SubmitsFile (file : Bytes) (result : Submitted) : Prop where
  sent : result.sent <+: file
  waits : result.waited = true → result.sent = file
  fails : result.failed = true → result.waited = false
  errs : result.waited = false → result.ending.isError = true

/-- When every `read` on the file returns bytes until one returns 0, `submit_file` ends,
whatever `write` and the response are. -/
theorem submit_file_sends_or_errs (args : SubmitArgs) {chunks : List Bytes}
    (hchunks : ∀ chunk ∈ chunks, chunk ≠ [] ∧ chunk.length ≤ iobufsz) (later : List Tread)
    (writes : List Write) (response : List Tread) :
    ∃ result,
      submitFile args ⟨chunks.map .data ++ .data [] :: later, writes, response⟩ = some result ∧
        SubmitsFile chunks.flatten result := by
  unfold submitFile
  dsimp only
  split
  · refine ⟨_, rfl, List.nil_prefix, ?_, fun _ => rfl, fun _ => writeError_isError _ _⟩
    intro hwaited
    cases hwaited
  · obtain ⟨sending, hsending, hsends⟩ := sendFile_chunks args.buf hchunks later
      (writen args.request sizeofPrintreq writes).results
    rw [hsending]
    cases hsends with
    | whole hsent hfailed hexit =>
      refine ⟨_, rfl, ?_⟩
      dsimp only
      rw [hexit]
      constructor
      · exact hsent ▸ List.prefix_refl chunks.flatten
      · exact fun _ => hsent
      · intro htrue
        rw [hfailed] at htrue
        cases htrue
      · intro hfalse
        cases hfalse
    | part hsent hne hfailed hexit =>
      obtain ⟨nw, nr, hexit⟩ := hexit
      refine ⟨_, rfl, ?_⟩
      dsimp only
      rw [hexit]
      constructor
      · exact hsent
      · intro htrue
        cases htrue
      · exact fun _ => rfl
      · exact fun _ => writeError_isError nw nr

/-- A file of two bytes whose second byte the socket does not take. -/
def shortArgs : SubmitArgs where
  pwName := none
  fname := ⟨ascii "f", by decide⟩
  nbytes := 2
  text := false
  req := fun _ => 0
  buf := fun _ => 0

theorem submit_file_short_write : ∃ result,
      submitFile shortArgs ⟨[.data [65], .data [66], .data []], [.wrote 328, .wrote 1], []⟩ =
        some result ∧ SubmitsFile [65, 66] result :=
  @submit_file_sends_or_errs shortArgs [[65], [66]] (by decide) [] _ []

/-! ## A failed read -/

def efault : Nat := 14

/-- After a failed `read` the number of bytes to write is -1, and so is what `writen` returns
when the `write` fails: the loop goes on as before. -/
theorem sendFile_failed (buf : Nat → Byte) (errno errno' : Nat) (reads : List Tread)
    (writes : List Write) :
    sendFile buf (.failed errno :: reads) (.failed errno' :: writes) =
      (sendFile buf reads writes).map fun rest => ⟨rest.sent, true, rest.exit⟩ := by
  have hwriten : writen buf (toSize (-1)) (.failed errno' :: writes) = ⟨-1, [], true, writes⟩ :=
    rfl
  have hnw : wrap 32 (-1) = -1 := rfl
  rw [sendFile]
  simp [readFile, hwriten, hnw]

theorem sendFile_always_failed (buf : Nat → Byte) (errno errno' n : Nat) :
    sendFile buf (List.replicate n (.failed errno)) (List.replicate n (.failed errno')) = none := by
  induction n with
  | zero => rfl
  | succ n ih => rw [List.replicate_succ, List.replicate_succ, sendFile_failed, ih, Option.map_none]

/-- The client waits for the response although it could not read the file, and it does not
end while `read` goes on failing. -/
theorem read_error_not_noticed : (∃ result,
      submitFile shortArgs ⟨[.failed eio, .data []], [.wrote 328, .failed efault], []⟩ =
          some result ∧
        result.failed = true ∧ result.waited = true ∧ result.sent = []) ∧
    ∀ n, submitFile shortArgs
        ⟨List.replicate n (.failed eio), .wrote 328 :: List.replicate n (.failed efault), []⟩ =
          none := by
  constructor
  · exact ⟨_, rfl, rfl, rfl, rfl⟩
  · intro n
    have hheader := writen_at_once shortArgs.request (show 0 < sizeofPrintreq by decide)
      (by decide) (List.replicate n (.failed efault))
    unfold submitFile
    dsimp only
    rw [show Write.wrote 328 = .wrote sizeofPrintreq from rfl, hheader, sendFile_always_failed]
    rfl

end ApueFormal.Printer
