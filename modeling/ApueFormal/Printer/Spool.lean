import ApueFormal.Libc.Text

/-!
# Spooling a print job

`client_thread` reads the header of a request, copies what follows it into a
data file until a read returns nothing, and then writes the control file, answers
the client and queues the job.
-/

namespace ApueFormal.Printer

open Libc

/-- What `tread` returns: an error, the end of the file as no bytes, or bytes.  A
stalled connection is an error, `ETIME`. -/
inductive Tread where
  | failed (errno : Nat)
  | data (bytes : Bytes)
  deriving DecidableEq

inductive Write where
  | failed (errno : Nat)
  | wrote (count : Nat)

def eio : Nat := 5

def etime : Nat := 62

def usernmMax : Nat := 64

def jobnmMax : Nat := 256

def msglenMax : Nat := 512

/-- `struct printreq`. -/
structure Printreq where
  size : Nat
  flags : Nat
  usernm : Bytes
  jobnm : Bytes
  deriving DecidableEq

def sizeofPrintreq : Nat := 4 + 4 + usernmMax + jobnmMax

def prText : Nat := 1

/-- `struct printresp`; the numbers are in network order. -/
structure Printresp where
  retcode : Nat
  jobid : Nat
  msg : Bytes
  deriving DecidableEq

/-- A number of four bytes, the first one most significant. -/
def bigEndian (bytes : Bytes) : Nat := bytes.foldl (fun value byte => 256 * value + byte.toNat) 0

/-- `htonl` on a little-endian machine. -/
def htonl (value : Nat) : Nat :=
  value % 256 * 2 ^ 24 + value / 2 ^ 8 % 256 * 2 ^ 16 + value / 2 ^ 16 % 256 * 2 ^ 8 +
    value / 2 ^ 24 % 256

def ofHeader (header : Bytes) : Printreq where
  size := bigEndian (header.take 4)
  flags := bigEndian ((header.drop 4).take 4)
  usernm := (header.drop 8).take usernmMax
  jobnm := (header.drop (8 + usernmMax)).take jobnmMax

/-- `treadn`: an error, or the bytes that were read.  A read that is missing from
the list stalls. -/
def treadn (nbytes : Nat) (got : Bytes) : List Tread → Except Nat Bytes
  | [] => if got = [] then .error etime else .ok got
  | .failed errno :: _ => if got = [] then .error errno else .ok got
  | .data [] :: _ => .ok got
  | .data (byte :: bytes) :: rest =>
    let got := got ++ (byte :: bytes)
    if got.length < nbytes then treadn nbytes got rest else .ok got

/-- What the system calls of a client thread return. -/
structure SpoolCalls where
  /-- The results of `treadn` on the header. -/
  header : List Tread
  jobid : Int32
  /-- The error of `creat` on the data file. -/
  creatData : Option Nat
  /-- The results of `tread` on what follows the header. -/
  reads : List Tread
  /-- What the buffer holds before the first read. -/
  stack : Bytes
  /-- `write` to the data file, from what it holds and what is written. -/
  writeData : Bytes → Bytes → Write
  creatControl : Option Nat
  writeControl : Write
  strerror : Nat → Bytes

structure Spooled where
  response : Printresp
  data : Option Bytes
  control : Option Printreq
  queued : Option (Printreq × Int32)

/-- The first four characters of the buffer are `%!PS`. -/
def isPostScript (stack bytes : Bytes) : Bool :=
  (bytes ++ stack.drop bytes.length).take 4 == ascii "%!PS"

/-- The receive loop: the error of a write, or the flags and the data file. -/
def receive (calls : SpoolCalls) : List Tread → Bool → Nat → Bytes → Except Nat (Nat × Bytes)
  | [], _, flags, file => .ok (flags, file)
  | .failed _ :: _, _, flags, file => .ok (flags, file)
  | .data [] :: _, _, flags, file => .ok (flags, file)
  | .data (byte :: bytes) :: rest, first, flags, file =>
    let buf := byte :: bytes
    let flags := if first && !isPostScript calls.stack buf then flags ||| prText else flags
    match calls.writeData file buf with
    | .failed errno => .error errno
    | .wrote nw =>
      if nw ≠ buf.length then .error eio
      else receive calls rest false flags (file ++ buf)

/-- A request is refused; the error text is that of the number in network order. -/
def refused (calls : SpoolCalls) (errno : Nat) : Printresp :=
  ⟨htonl errno, 0, snprintf msglenMax (calls.strerror (htonl errno))⟩

/-- `client_thread` after `add_worker`. -/
def clientThread (calls : SpoolCalls) : Spooled :=
  match treadn sizeofPrintreq [] calls.header with
  | .error errno => ⟨refused calls errno, none, none, none⟩
  | .ok header =>
    if header.length ≠ sizeofPrintreq then ⟨refused calls eio, none, none, none⟩
    else
      let req := ofHeader header
      match calls.creatData with
      | some errno => ⟨refused calls errno, none, none, none⟩
      | none =>
        match receive calls calls.reads true req.flags [] with
        | .error errno => ⟨refused calls errno, none, none, none⟩
        | .ok (flags, file) =>
          let req := { req with flags }
          match calls.creatControl, calls.writeControl with
          | some errno, _ => ⟨refused calls errno, none, none, none⟩
          | none, .failed errno => ⟨refused calls errno, none, none, none⟩
          | none, .wrote nw =>
            if nw ≠ sizeofPrintreq then ⟨refused calls eio, none, none, none⟩
            else
              ⟨⟨0, htonl calls.jobid.toUInt32.toNat, snprintf msglenMax
                  (ascii "request ID " ++ fmtD calls.jobid.toInt)⟩,
                some file, some req, some (req, calls.jobid)⟩

/-! ## What is spooled -/

/-- The bytes that arrive before a read returns nothing. -/
def delivered : List Tread → Bytes
  | .data (byte :: bytes) :: rest => byte :: bytes ++ delivered rest
  | _ => []

theorem treadn_delivered {nbytes : Nat} {got header : Bytes} {reads : List Tread}
    (hread : treadn nbytes got reads = .ok header) : header <+: got ++ delivered reads := by
  fun_induction treadn nbytes got reads with grind [delivered, List.prefix_append]

theorem receive_delivered {calls : SpoolCalls} {reads : List Tread} {first : Bool}
    {flags flags' : Nat} {file file' : Bytes}
    (hreceive : receive calls reads first flags file = .ok (flags', file')) :
    file' = file ++ delivered reads := by
  induction reads generalizing first flags file with
  | nil =>
    cases hreceive
    exact (List.append_nil _).symm
  | cons read rest ih =>
    match read with
    | .failed errno | .data [] =>
      cases hreceive
      exact (List.append_nil _).symm
    | .data (byte :: bytes) =>
      simp only [receive] at hreceive
      split at hreceive
      · cases hreceive
      · split at hreceive
        · cases hreceive
        · rw [ih hreceive, List.append_assoc]
          rfl

theorem clientThread_cases (calls : SpoolCalls) : (clientThread calls).queued = none ∨
      ∃ req, (clientThread calls).queued = some (req, calls.jobid) ∧
        (clientThread calls).response.retcode = 0 ∧
        (clientThread calls).data = some (delivered calls.reads) := by
  unfold clientThread
  split
  · exact .inl rfl
  · split
    · exact .inl rfl
    · dsimp only
      split
      · exact .inl rfl
      · split
        · exact .inl rfl
        · rename_i hreceive
          split
          · exact .inl rfl
          · exact .inl rfl
          · split
            · exact .inl rfl
            · refine .inr ⟨_, rfl, rfl, ?_⟩
              rw [receive_delivered hreceive]
              rfl

/-- A job that is acknowledged and queued was spooled whole exactly when all the
bytes of its file had arrived before a read returned nothing. -/
theorem acknowledged_job_whole_iff {calls : SpoolCalls} {req : Printreq} {jobid : Int32}
    (hqueued : (clientThread calls).queued = some (req, jobid)) {file : Bytes}
    (hsize : file.length = req.size) (hsent : delivered calls.reads <+: file) :
    (clientThread calls).response.retcode = 0 ∧
      ((clientThread calls).data = some file ↔ (delivered calls.reads).length = req.size) := by
  rcases clientThread_cases calls with hnone | ⟨_, _, hretcode, hdata⟩
  · rw [hnone] at hqueued
    cases hqueued
  · refine ⟨hretcode, ?_⟩
    rw [hdata, Option.some_inj, ← hsize]
    exact ⟨congrArg List.length, fun hlength => hsent.eq_of_length hlength⟩

def sampleCalls (reads : List Tread) : SpoolCalls where
  header := [.data ([0, 0, 0, 2] ++ List.replicate 324 0)]
  jobid := 7
  creatData := none
  reads := reads
  stack := []
  writeData := fun _ bytes => .wrote bytes.length
  creatControl := none
  writeControl := .wrote sizeofPrintreq
  strerror := fun _ => []

def sampleReq : Printreq := ⟨2, 1, List.replicate usernmMax 0, List.replicate jobnmMax 0⟩

theorem acknowledged_job_whole_iff_sample :
    (clientThread (sampleCalls [.data [104], .data [105], .data []])).queued = some (sampleReq, 7) ∧
      ((clientThread (sampleCalls [.data [104], .data [105], .data []])).response.retcode = 0 ∧
      ((clientThread (sampleCalls [.data [104], .data [105], .data []])).data =
          some [104, 105] ↔
        (delivered [.data [104], .data [105], .data []]).length = sampleReq.size)) := by
  have hqueued : (clientThread (sampleCalls [.data [104], .data [105], .data []])).queued =
      some (sampleReq, 7) := by
    decide +kernel
  exact ⟨hqueued, acknowledged_job_whole_iff hqueued rfl (List.prefix_refl _)⟩

/-- After one of two bytes the connection stalls: the job is acknowledged and
queued with half of its file. -/
theorem stalled_job_acknowledged :
    (clientThread (sampleCalls [.data [104], .failed etime])).queued = some (sampleReq, 7) ∧
      (clientThread (sampleCalls [.data [104], .failed etime])).response.retcode = 0 ∧
      sampleReq.size = [104, 105].length ∧ delivered [.data [104], .failed etime] <+: [104, 105] ∧
      (clientThread (sampleCalls [.data [104], .failed etime])).data = some [104] := by
  decide +kernel

end ApueFormal.Printer
