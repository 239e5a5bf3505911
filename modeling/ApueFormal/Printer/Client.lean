import ApueFormal.Printer.Ipp
import ApueFormal.Printer.Jobno
import Mathlib.Logic.Function.Basic

/-!
# The spool files of a client thread

`client_thread` call by call: what it creates, writes and unlinks in the spool directory,
what it answers and what it queues.  The outcome is the one that `clientThread` states.
-/

namespace ApueFormal.Printer

open Function Libc

/-- `snprintf(name, sizeof(name), "%s/%s/%d", SPOOLDIR, dir, jobid)`. -/
def spoolName (dir : String) (jobid : Int32) : Bytes :=
  snprintf filenmsz (ascii "/var/spool/printer" ++ (ascii "/" ++ (ascii dir ++ (ascii "/" ++
    fmtD jobid.toInt))))

def dataName (jobid : Int32) : Bytes := spoolName "data" jobid

def reqName (jobid : Int32) : Bytes := spoolName "reqs" jobid

/-- `struct printreq` as it is in memory, in host order. -/
def Printreq.image (req : Printreq) : Bytes :=
  (beBytes req.size).reverse ++ ((beBytes req.flags).reverse ++ (req.usernm ++ req.jobnm))

structure Spool where
  files : Bytes → Option Bytes
  /-- What has been sent to clients. -/
  responses : List Printresp
  /-- The calls of `add_job`. -/
  jobs : List (Printreq × Int32)

namespace Spool

def set (spool : Spool) (name : Bytes) (file : Option Bytes) : Spool :=
  { spool with files := Function.update spool.files name file }

def creat (spool : Spool) (name : Bytes) : Spool := spool.set name (some [])

def write (spool : Spool) (name bytes : Bytes) : Spool :=
  spool.set name ((spool.files name).map fun file => file ++ bytes)

def unlink (spool : Spool) (name : Bytes) : Spool := spool.set name none

def respond (spool : Spool) (response : Printresp) : Spool :=
  { spool with responses := spool.responses ++ [response] }

def addJob (spool : Spool) (req : Printreq) (jobid : Int32) : Spool :=
  { spool with jobs := spool.jobs ++ [(req, jobid)] }

def content (spool : Spool) (name : Bytes) : Bytes := (spool.files name).getD []

end Spool

/-- The receive loop.  It ends the thread when a write fails. -/
def receiveLoop (calls : SpoolCalls) (name : Bytes) :
    List Tread → Bool → Nat → Spool → Except Spool (Nat × Spool)
  | [], _, flags, spool => .ok (flags, spool)
  | .failed _ :: _, _, flags, spool => .ok (flags, spool)
  | .data [] :: _, _, flags, spool => .ok (flags, spool)
  | .data (byte :: bytes) :: rest, first, flags, spool =>
    let buf := byte :: bytes
    let flags := if first && !isPostScript calls.stack buf then flags ||| prText else flags
    match calls.writeData (spool.content name) buf with
    | .failed errno => .error ((spool.respond (refused calls errno)).unlink name)
    | .wrote nw =>
      let spool := spool.write name (buf.take nw)
      if nw ≠ buf.length then .error ((spool.respond (refused calls eio)).unlink name)
      else receiveLoop calls name rest false flags spool

/-- `client_thread` from the control file on. -/
def writeRequest (calls : SpoolCalls) (req : Printreq) (spool : Spool) : Spool :=
  let name := reqName calls.jobid
  match calls.creatControl with
  | some errno =>
    let spool := spool.respond (refused calls errno)
    let name := dataName calls.jobid
    spool.unlink name
  | none =>
    let spool := spool.creat name
    match calls.writeControl with
    | .failed errno =>
      let spool := spool.respond (refused calls errno)
      let spool := spool.unlink name
      let name := dataName calls.jobid
      spool.unlink name
    | .wrote nw =>
      let spool := spool.write name (req.image.take nw)
      if nw ≠ sizeofPrintreq then
        let spool := spool.respond (refused calls eio)
        let spool := spool.unlink name
        let name := dataName calls.jobid
        spool.unlink name
      else
        let spool := spool.respond ⟨0, htonl calls.jobid.toUInt32.toNat,
          snprintf msglenMax (ascii "request ID " ++ fmtD calls.jobid.toInt)⟩
        spool.addJob req calls.jobid

/-- `client_thread` after `add_worker`. -/
def runClient (calls : SpoolCalls) (spool : Spool) : Spool :=
  match treadn sizeofPrintreq [] calls.header with
  | .error errno => spool.respond (refused calls errno)
  | .ok header =>
    if header.length ≠ sizeofPrintreq then spool.respond (refused calls eio)
    else
      let req := ofHeader header
      let name := dataName calls.jobid
      match calls.creatData with
      | some errno => spool.respond (refused calls errno)
      | none =>
        match receiveLoop calls name calls.reads true req.flags (spool.creat name) with
        | .error spool => spool
        | .ok (flags, spool) => writeRequest calls { req with flags } spool

/-! ## The effect of a client thread -/

/-- The spool directory with the files of one more job. -/
def Spool.keep (spool : Spool) (jobid : Int32) (data control : Option Bytes) : Spool :=
  (spool.set (dataName jobid) data).set (reqName jobid) control

/-- What a client thread leaves behind, as one change. -/
def Spool.after (spool : Spool) (calls : SpoolCalls) (outcome : Spooled) : Spool :=
  let spool := spool.keep calls.jobid outcome.data (outcome.control.map Printreq.image)
  { spool.respond outcome.response with jobs := spool.jobs ++ outcome.queued.toList }

theorem dataName_ne_reqName (jobid : Int32) : dataName jobid ≠ reqName jobid := by
  intro heq
  have htake := congrArg (List.take 20) heq
  simp only [dataName, reqName, spoolName, snprintf, filenmsz, List.take_take] at htake
  have hdata : ∀ rest : Bytes, (ascii "/var/spool/printer" ++ (ascii "/" ++ (ascii "data" ++
      rest))).take 20 = ascii "/var/spool/printer/d" := fun _ => rfl
  have hreqs : ∀ rest : Bytes, (ascii "/var/spool/printer" ++ (ascii "/" ++ (ascii "reqs" ++
      rest))).take 20 = ascii "/var/spool/printer/r" := fun _ => rfl
  rw [show min 20 (64 - 1) = 20 from rfl, hdata, hreqs] at htake
  exact absurd htake (by decide +kernel)

namespace Spool

variable {spool : Spool} {jobid : Int32} {data control : Option Bytes}

/-- A job id for which no spool file exists. -/
structure Fresh (spool : Spool) (jobid : Int32) : Prop where
  data : spool.files (dataName jobid) = none
  control : spool.files (reqName jobid) = none

theorem keep_none (hfresh : spool.Fresh jobid) : spool.keep jobid none none = spool := by
  have hdata : spool.set (dataName jobid) none = spool := by
    rw [set, update_eq_self_iff.mpr hfresh.data.symm]
  rw [keep, hdata, set, update_eq_self_iff.mpr hfresh.control.symm]

theorem keep_set_control (file : Option Bytes) :
    (spool.keep jobid data control).set (reqName jobid) file = spool.keep jobid data file := by
  simp [keep, set]

theorem keep_set_data (file : Option Bytes) :
    (spool.keep jobid data control).set (dataName jobid) file = spool.keep jobid file control := by
  simp only [keep, set]
  rw [update_comm (dataName_ne_reqName jobid).symm, update_idem]

theorem files_keep_control : (spool.keep jobid data control).files (reqName jobid) = control :=
  update_self ..

theorem files_keep_data : (spool.keep jobid data control).files (dataName jobid) = data := by
  dsimp only [keep, set]
  rw [update_of_ne (dataName_ne_reqName jobid), update_self]

theorem respond_keep (response : Printresp) : (spool.keep jobid data control).respond response =
      (spool.respond response).keep jobid data control :=
  rfl

theorem Fresh.respond (hfresh : spool.Fresh jobid) (response : Printresp) :
    (spool.respond response).Fresh jobid :=
  ⟨hfresh.data, hfresh.control⟩

theorem files_after_control (calls : SpoolCalls) (outcome : Spooled) :
    (spool.after calls outcome).files (reqName calls.jobid) =
      outcome.control.map Printreq.image := by
  unfold after
  exact files_keep_control

theorem files_after_data (calls : SpoolCalls) (outcome : Spooled) :
    (spool.after calls outcome).files (dataName calls.jobid) = outcome.data := by
  unfold after
  dsimp only [respond]
  exact files_keep_data

theorem after_refused (hfresh : spool.Fresh calls.jobid) (response : Printresp) :
    spool.after calls ⟨response, none, none, none⟩ = spool.respond response := by
  unfold after
  dsimp only
  rw [Option.map_none, keep_none hfresh, Option.toList_none, List.append_nil]
  rfl

end Spool

variable {calls : SpoolCalls}

theorem receiveLoop_eq {spool : Spool} (hfresh : spool.Fresh calls.jobid) (reads : List Tread)
    (first : Bool) (flags : Nat) (file : Bytes) :
    receiveLoop calls (dataName calls.jobid) reads first flags
        (spool.keep calls.jobid (some file) none) = match receive calls reads first flags file with
      | .error errno => .error (spool.respond (refused calls errno))
      | .ok (flags, file) => .ok (flags, spool.keep calls.jobid (some file) none) := by
  induction reads generalizing first flags file with
  | nil => rfl
  | cons read rest ih =>
    match read with
    | .failed errno | .data [] => rfl
    | .data (byte :: bytes) =>
      have hcontent : (spool.keep calls.jobid (some file) none).content
          (dataName calls.jobid) = file := by
        rw [Spool.content, Spool.files_keep_data, Option.getD_some]
      have hwrite : ∀ more : Bytes, (spool.keep calls.jobid (some file) none).write
          (dataName calls.jobid) more = spool.keep calls.jobid (some (file ++ more)) none := by
        intro more
        rw [Spool.write, Spool.files_keep_data, Option.map_some, Spool.keep_set_data]
      have hunlink : ∀ file response, ((spool.keep calls.jobid (some file) none).respond
          response).unlink (dataName calls.jobid) = spool.respond response := by
        intro file response
        rw [Spool.respond_keep, Spool.unlink, Spool.keep_set_data,
          Spool.keep_none (hfresh.respond response)]
      simp only [receiveLoop, receive, hcontent, hwrite]
      cases calls.writeData file (byte :: bytes) with
      | failed errno => exact congrArg Except.error (hunlink _ _)
      | wrote nw =>
        dsimp only
        by_cases hshort : nw ≠ (byte :: bytes).length
        · rw [if_pos hshort, if_pos hshort]
          exact congrArg Except.error (hunlink _ _)
        · rw [if_neg hshort, if_neg hshort, not_ne_iff.mp hshort, List.take_length]
          exact ih false _ _

theorem length_image {header : Bytes} (hlength : header.length = sizeofPrintreq) (flags : Nat) :
    ({ ofHeader header with flags } : Printreq).image.length = sizeofPrintreq := by
  rw [sizeofPrintreq, usernmMax, jobnmMax] at hlength
  simp only [Printreq.image, ofHeader, beBytes, sizeofPrintreq, usernmMax, jobnmMax,
    List.length_append, List.length_reverse, List.length_cons, List.length_nil, List.length_take,
    List.length_drop]
  omega

section WriteRequest

variable {spool : Spool} {req : Printreq} {file : Bytes}

theorem unlink_both (hfresh : spool.Fresh calls.jobid) (control : Option Bytes)
    (response : Printresp) :
    (((spool.keep calls.jobid (some file) control).respond response).unlink
        (reqName calls.jobid)).unlink (dataName calls.jobid) = spool.respond response := by
  unfold Spool.unlink
  rw [Spool.respond_keep, Spool.keep_set_control, Spool.keep_set_data,
    Spool.keep_none (hfresh.respond response)]

theorem write_control (control bytes : Bytes) :
    (spool.keep calls.jobid (some file) (some control)).write (reqName calls.jobid) bytes =
      spool.keep calls.jobid (some file) (some (control ++ bytes)) := by
  rw [Spool.write, Spool.files_keep_control, Option.map_some, Spool.keep_set_control]

theorem writeRequest_eq (hfresh : spool.Fresh calls.jobid)
    (himage : req.image.length = sizeofPrintreq) :
    writeRequest calls req (spool.keep calls.jobid (some file) none) = spool.after calls
        (match calls.creatControl, calls.writeControl with
        | some errno, _ => ⟨refused calls errno, none, none, none⟩
        | none, .failed errno => ⟨refused calls errno, none, none, none⟩
        | none, .wrote nw =>
          if nw ≠ sizeofPrintreq then ⟨refused calls eio, none, none, none⟩
          else
            ⟨⟨0, htonl calls.jobid.toUInt32.toNat, snprintf msglenMax
                (ascii "request ID " ++ fmtD calls.jobid.toInt)⟩,
              some file, some req, some (req, calls.jobid)⟩) := by
  unfold writeRequest
  cases calls.creatControl with
  | some errno =>
    dsimp only
    rw [Spool.after_refused hfresh, Spool.respond_keep, Spool.unlink, Spool.keep_set_data,
      Spool.keep_none (hfresh.respond _)]
  | none =>
    dsimp only
    rw [Spool.creat, Spool.keep_set_control]
    cases calls.writeControl with
    | failed errno =>
      dsimp only
      rw [Spool.after_refused hfresh, unlink_both hfresh]
    | wrote nw =>
      dsimp only
      rw [write_control, List.nil_append]
      by_cases hshort : nw ≠ sizeofPrintreq
      · rw [if_pos hshort, if_pos hshort, Spool.after_refused hfresh, unlink_both hfresh]
      · rw [if_neg hshort, if_neg hshort, not_ne_iff.mp hshort, ← himage, List.take_length]
        rfl

end WriteRequest

theorem runClient_eq {spool : Spool} (hfresh : spool.Fresh calls.jobid) :
    runClient calls spool = spool.after calls (clientThread calls) := by
  unfold runClient clientThread
  cases treadn sizeofPrintreq [] calls.header with
  | error errno => exact (Spool.after_refused hfresh _).symm
  | ok header =>
    dsimp only
    by_cases hheader : header.length ≠ sizeofPrintreq
    · rw [if_pos hheader, if_pos hheader, Spool.after_refused hfresh]
    · rw [if_neg hheader, if_neg hheader]
      cases calls.creatData with
      | some errno => exact (Spool.after_refused hfresh _).symm
      | none =>
        have hcreat : spool.creat (dataName calls.jobid) =
            spool.keep calls.jobid (some []) none := by
          rw [Spool.creat]
          nth_rewrite 1 [← Spool.keep_none hfresh]
          exact Spool.keep_set_data _
        dsimp only
        rw [hcreat, receiveLoop_eq hfresh]
        cases receive calls calls.reads true (ofHeader header).flags [] with
        | error errno => exact (Spool.after_refused hfresh _).symm
        | ok found =>
          exact writeRequest_eq hfresh (length_image (not_ne_iff.mp hheader) found.1)

/-! ## Rejected and accepted requests -/

/-- A number that `errno` can have after a failed call. -/
def IsErrno (errno : Nat) : Prop := 0 < errno ∧ errno < 2 ^ 31

structure SpoolCalls.SetErrno (calls : SpoolCalls) : Prop where
  header : ∀ errno, .failed errno ∈ calls.header → IsErrno errno
  creatData : ∀ errno, calls.creatData = some errno → IsErrno errno
  writeData : ∀ file buf errno, calls.writeData file buf = .failed errno → IsErrno errno
  creatControl : ∀ errno, calls.creatControl = some errno → IsErrno errno
  writeControl : ∀ errno, calls.writeControl = .failed errno → IsErrno errno

variable {errno : Nat}

theorem htonl_ne_zero (herrno : IsErrno errno) : htonl errno ≠ 0 := by
  obtain ⟨hpos, hlt⟩ := herrno
  unfold htonl
  omega

theorem treadn_error {nbytes : Nat} {got : Bytes} {reads : List Tread}
    (hreads : ∀ errno, .failed errno ∈ reads → IsErrno errno)
    (herror : treadn nbytes got reads = .error errno) : IsErrno errno := by
  induction reads generalizing got with
  | nil =>
    rw [treadn] at herror
    split at herror
    · cases herror
      exact ⟨by decide, by decide⟩
    · cases herror
  | cons read rest ih =>
    match read with
    | .failed number =>
      rw [treadn] at herror
      split at herror
      · cases herror
        exact hreads errno List.mem_cons_self
      · cases herror
    | .data [] => cases herror
    | .data (byte :: bytes) =>
      simp only [treadn] at herror
      split at herror
      · exact ih (fun number hmem => hreads number (List.mem_cons_of_mem _ hmem)) herror
      · cases herror

theorem receive_error (hcalls : calls.SetErrno) {reads : List Tread} {first : Bool} {flags : Nat}
    {file : Bytes} (herror : receive calls reads first flags file = .error errno) :
    IsErrno errno := by
  induction reads generalizing first flags file with
  | nil => cases herror
  | cons read rest ih =>
    match read with
    | .failed number | .data [] => cases herror
    | .data (byte :: bytes) =>
      simp only [receive] at herror
      split at herror
      · rename_i number hwrite
        cases herror
        exact hcalls.writeData _ _ _ hwrite
      · split at herror
        · cases herror
          exact ⟨by decide, by decide⟩
        · exact ih herror

inductive ClientEnds (calls : SpoolCalls) : Spooled → Prop where
  | refused {errno : Nat} (herrno : IsErrno errno) :
      ClientEnds calls ⟨refused calls errno, none, none, none⟩
  | accepted {header : Bytes} {flags : Nat} {file : Bytes}
      (hheader : treadn sizeofPrintreq [] calls.header = .ok header)
      (hlength : header.length = sizeofPrintreq)
      (hreceive : receive calls calls.reads true (ofHeader header).flags [] = .ok (flags, file)) :
      ClientEnds calls
        ⟨⟨0, htonl calls.jobid.toUInt32.toNat,
            snprintf msglenMax (ascii "request ID " ++ fmtD calls.jobid.toInt)⟩,
          some file, some { ofHeader header with flags },
          some ({ ofHeader header with flags }, calls.jobid)⟩

theorem clientThread_ends (hcalls : calls.SetErrno) : ClientEnds calls (clientThread calls) := by
  have heio : IsErrno eio := ⟨by decide, by decide⟩
  unfold clientThread
  cases hheader : treadn sizeofPrintreq [] calls.header with
  | error errno => exact .refused (treadn_error hcalls.header hheader)
  | ok header =>
    dsimp only
    split
    · exact .refused heio
    · rename_i hlength
      cases hcreat : calls.creatData with
      | some errno => exact .refused (hcalls.creatData errno hcreat)
      | none =>
        cases hreceive : receive calls calls.reads true (ofHeader header).flags [] with
        | error errno => exact .refused (receive_error hcalls hreceive)
        | ok found =>
          cases hcontrol : calls.creatControl with
          | some errno => exact .refused (hcalls.creatControl errno hcontrol)
          | none =>
            cases hwrite : calls.writeControl with
            | failed errno => exact .refused (hcalls.writeControl errno hwrite)
            | wrote nw =>
              dsimp only
              split
              · exact .refused heio
              · exact .accepted hheader (not_ne_iff.mp hlength) hreceive

/-- A client thread sends one response.  If it has a code other than 0, the spool directory
and the queue are as before; otherwise the job has its two files and is queued once. -/
theorem client_thread_all_or_nothing {calls : SpoolCalls} (hcalls : calls.SetErrno) {spool : Spool}
    (hfresh : spool.Fresh calls.jobid) :
    ∃ response, (runClient calls spool).responses = spool.responses ++ [response] ∧
      (response.retcode ≠ 0 → (runClient calls spool).Fresh calls.jobid ∧
        (runClient calls spool).files = spool.files ∧
        (runClient calls spool).jobs = spool.jobs) ∧
      (response.retcode = 0 → ∃ header flags file,
        treadn sizeofPrintreq [] calls.header = .ok header ∧ header.length = sizeofPrintreq ∧
        receive calls calls.reads true (ofHeader header).flags [] = .ok (flags, file) ∧
        (runClient calls spool).files (reqName calls.jobid) =
          some ({ ofHeader header with flags } : Printreq).image ∧
        (runClient calls spool).files (dataName calls.jobid) = some file ∧
        (runClient calls spool).jobs =
          spool.jobs ++ [({ ofHeader header with flags }, calls.jobid)]) := by
  have hends := clientThread_ends hcalls
  rw [runClient_eq hfresh]
  generalize clientThread calls = outcome at hends
  cases hends with
  | @refused errno herrno =>
    rw [Spool.after_refused hfresh]
    refine ⟨refused calls errno, rfl, ?_, ?_⟩
    · exact fun _ => ⟨hfresh.respond _, rfl, rfl⟩
    · intro hzero
      exact absurd hzero (htonl_ne_zero herrno)
  | accepted hheader hlength hreceive =>
    refine ⟨_, rfl, ?_, ?_⟩
    · intro hretcode
      exact absurd rfl hretcode
    · intro _
      exact ⟨_, _, _, hheader, hlength, hreceive, Spool.files_after_control calls _,
        Spool.files_after_data calls _, rfl⟩

/-- A request of two bytes for whose control file there is no space. -/
def noSpace : SpoolCalls :=
  { sampleCalls [.data [104, 105], .data []] with writeControl := .failed 28 }

def emptySpool : Spool := ⟨fun _ => none, [], []⟩

theorem client_thread_no_space :
    (runClient noSpace emptySpool).responses.map Printresp.retcode = [htonl 28] ∧
      ∃ response, (runClient noSpace emptySpool).responses = [] ++ [response] ∧
        (response.retcode ≠ 0 → (runClient noSpace emptySpool).Fresh 7 ∧
          (runClient noSpace emptySpool).files = emptySpool.files ∧
          (runClient noSpace emptySpool).jobs = []) := by
  have hcalls : noSpace.SetErrno := by
    constructor
    · intro errno hmem
      cases List.mem_singleton.mp hmem
    · intro errno hnone
      cases hnone
    · intro file buf errno hwrote
      cases hwrote
    · intro errno hnone
      cases hnone
    · intro errno hfailed
      cases hfailed
      exact ⟨by decide, by decide⟩
  obtain ⟨response, hresponses, hrefused, _⟩ :=
    client_thread_all_or_nothing hcalls (show emptySpool.Fresh 7 from ⟨rfl, rfl⟩)
  exact ⟨by decide +kernel, response, hresponses, hrefused⟩

end ApueFormal.Printer
