import ApueFormal.Libc.Text

/-!
# Passing descriptors and errors over a socket

`send_fd` ends every reply with a zero byte and a status byte.  `recv_fd` hands
what comes before them to a function of its caller, in the pieces in which it is
received.
-/

namespace ApueFormal.OpenServer

open Libc

def maxline : Nat := 4096

/-- The bytes of a message and the descriptor that goes with them. -/
structure Packet where
  data : Bytes
  fd : Option Int
  deriving DecidableEq

def sendFd (fdToSend : Int) : Packet :=
  if fdToSend < 0 then
    let status := UInt8.ofInt (-fdToSend)
    ⟨[0, if status = 0 then 1 else status], none⟩
  else ⟨[0, 0], some fdToSend⟩

/-- `send_err`, with the messages that were sent; `sends` says whether a message
is sent whole. -/
def sendErr (sends : Packet → Bool) (errcode : Int) (msg : Bytes) : Int × List Packet :=
  let text : Packet := ⟨cstr msg, none⟩
  let status := sendFd (if errcode ≥ 0 then -1 else errcode)
  let before := if (cstr msg).length > 0 then [text] else []
  if (cstr msg).length > 0 && !sends text then (-1, [])
  else if sends status then (0, before ++ [status])
  else (-1, before)

/-- What `recvmsg` returns; the descriptor is missing when the control message
is too short. -/
inductive Received where
  | error
  | closed
  | data (bytes : Bytes) (fd : Option Int)

inductive Dump where
  /-- "message format error" -/
  | messageFormat
  /-- "status = 0 but no fd" -/
  | noFd
  deriving DecidableEq

inductive Outcome where
  | returned (newfd : Option Int)
  | dumped (dump : Dump)
  /-- More data has to arrive. -/
  | waiting
  deriving DecidableEq

/-- The loop over the bytes from `ptr` on, with `nr`, `status` and `newfd`. -/
def scanBuf (fd : Option Int) : Bytes → Nat → Nat → Int → Option Int →
    Except Dump (Nat × Int × Option Int)
  | [], _, nr, status, newfd => .ok (nr, status, newfd)
  | byte :: rest, ptr, nr, status, newfd =>
    if ptr < nr then
      if byte = 0 then
        if ptr + 1 ≠ nr - 1 then .error .messageFormat
        else
          let status := (rest.headD 0).toNat
          if status = 0 then
            match fd with
            | none => .error .noFd
            | some passed => scanBuf fd rest (ptr + 1) (nr - 2) 0 (some passed)
          else scanBuf fd rest (ptr + 1) (nr - 2) status (some (-status))
      else scanBuf fd rest (ptr + 1) nr status newfd
    else .ok (nr, status, newfd)

/-- The loop of `recv_fd`, with the arguments of the calls of `userfunc`. -/
def recvLoop (userfunc : Bytes → Int) (status : Int) : List Received → Outcome × List Bytes
  | [] => (.waiting, [])
  | .error :: _ => (.returned (some (-1)), [])
  | .closed :: _ => (.returned (some (-1)), [])
  | .data bytes fd :: rest =>
    match scanBuf fd bytes 0 bytes.length status none with
    | .error dump => (.dumped dump, [])
    | .ok (nr, status, newfd) =>
      let buf := bytes.take nr
      let calls := if nr > 0 then [buf] else []
      if nr > 0 ∧ userfunc buf ≠ nr then (.returned (some (-1)), calls)
      else if status ≥ 0 then (.returned newfd, calls)
      else
        let later := recvLoop userfunc status rest
        (later.1, calls ++ later.2)

def recvFd (userfunc : Bytes → Int) (received : List Received) : Outcome × List Bytes :=
  recvLoop userfunc (-1) received

/-! ## Errors arrive -/

variable {text : Bytes}

theorem scanBuf_text (hnul : (0 : Byte) ∉ text) (fd : Option Int) (ptr nr : Nat) (status : Int)
    (newfd : Option Int) : scanBuf fd text ptr nr status newfd = .ok (nr, status, newfd) := by
  induction text generalizing ptr with
  | nil => rfl
  | cons byte rest ih =>
    have hbyte : byte ≠ 0 := fun heq => hnul (heq ▸ List.mem_cons_self)
    have hnext := ih fun hmem => hnul (List.mem_cons_of_mem _ hmem)
    simp only [scanBuf, if_neg hbyte, hnext, ite_self]

theorem scanBuf_trailer (hnul : (0 : Byte) ∉ text) {last : Byte} (hlast : last ≠ 0)
    (fd : Option Int) (ptr : Nat) (status : Int) (newfd : Option Int) :
    scanBuf fd (text ++ [0, last]) ptr (ptr + (text.length + 2)) status newfd =
      .ok (ptr + text.length, last.toNat, some (-last.toNat)) := by
  induction text generalizing ptr with
  | nil =>
    have hnonzero : last.toNat ≠ 0 := fun hzero => hlast (UInt8.toNat_inj.mp hzero)
    simp [scanBuf, hnonzero]
  | cons byte rest ih =>
    have hbyte : byte ≠ 0 := fun heq => hnul (heq ▸ List.mem_cons_self)
    have hnext := ih (fun hmem => hnul (List.mem_cons_of_mem _ hmem)) (ptr + 1)
    have hnr : ptr + (rest.length + 1 + 2) = ptr + 1 + (rest.length + 2) := by omega
    have hin : ptr < ptr + 1 + (rest.length + 2) := by omega
    simp only [List.cons_append, List.length_cons, scanBuf, hnr, if_pos hin, if_neg hbyte, hnext]
    rw [Nat.add_right_comm, Nat.add_assoc]

def writesAll (buf : Bytes) : Int := buf.length

theorem flatten_call (buf : Bytes) : (if buf.length > 0 then [buf] else []).flatten = buf := by
  cases buf with
  | nil => rfl
  | cons byte rest => simp

/-- The text before the trailer is passed on piece by piece, and the status is
returned. -/
theorem recvFd_pieces {pieces : List Bytes}
    (hpieces : ∀ piece ∈ pieces, piece ≠ [] ∧ (0 : Byte) ∉ piece) (hnul : (0 : Byte) ∉ text)
    {last : Byte} (hlast : last ≠ 0) :
    ∃ calls, recvFd writesAll ((pieces ++ [text ++ [0, last]]).map fun piece => .data piece none) =
          (.returned (some (-last.toNat)), calls) ∧ calls.flatten = pieces.flatten ++ text := by
  rw [recvFd]
  induction pieces with
  | nil =>
    have hscan := scanBuf_trailer hnul hlast none 0 (-1) none
    simp only [Nat.zero_add] at hscan
    simp only [List.nil_append, List.map_cons, List.map_nil, recvLoop, List.length_append,
      List.length_cons, List.length_nil, Nat.zero_add, hscan, List.take_left]
    rw [if_neg (by simp [writesAll]), if_pos (Int.natCast_nonneg _)]
    exact ⟨_, rfl, flatten_call text⟩
  | cons piece rest ih =>
    obtain ⟨hpiece, hrest⟩ := List.forall_mem_cons.mp hpieces
    obtain ⟨calls, hcalls, htext⟩ := ih hrest
    simp only [List.cons_append, List.map_cons, recvLoop, scanBuf_text hpiece.2,
      List.take_length]
    rw [if_neg (by simp [writesAll]), if_neg (by decide), hcalls]
    refine ⟨_, rfl, ?_⟩
    rw [List.flatten_append, flatten_call, htext, List.flatten_cons, List.append_assoc]

def statusByte (errcode : Int) : Byte :=
  if UInt8.ofInt (-errcode) = 0 then 1 else UInt8.ofInt (-errcode)

theorem statusByte_ne_zero (errcode : Int) : statusByte errcode ≠ 0 := by
  rw [statusByte]
  split
  · decide
  · assumption

theorem toNat_statusByte {errcode : Int} (hlow : -255 ≤ errcode) (hhigh : errcode ≤ -1) :
    ((statusByte errcode).toNat : Int) = -errcode := by
  have hnat : ((UInt8.ofInt (-errcode)).toNat : Int) = -errcode := by
    rw [UInt8.ofInt, UInt8.toNat_ofNat']
    omega
  rw [statusByte, if_neg, hnat]
  intro hzero
  rw [hzero] at hnat
  have : (0 : Int) = -errcode := hnat
  omega

theorem sendErr_bytes {errcode : Int} {msg : Bytes} (hnul : (0 : Byte) ∉ msg) :
    ((sendErr (fun _ => true) errcode msg).2.map Packet.data).flatten =
      msg ++ [0, statusByte (if errcode ≥ 0 then -1 else errcode)] := by
  have hneg : (if errcode ≥ 0 then -1 else errcode) < 0 := by
    split <;> omega
  simp only [sendErr, cstr_of_noNul hnul, Bool.not_true, Bool.and_false, Bool.false_eq_true,
    if_false, if_true, List.map_append, List.flatten_append, List.map_cons, List.map_nil,
    List.flatten_singleton, sendFd, if_pos hneg]
  cases msg with
  | nil => rfl
  | cons byte rest => simp [statusByte]

/-- However an error reply is cut into pieces that do not split the trailer, its
message is passed on whole and its code is returned. -/
theorem recvFd_sendErr (errcode : Int) {msg : Bytes} (hnul : (0 : Byte) ∉ msg)
    {pieces : List Bytes} {last : Bytes} (hpieces : ∀ piece ∈ pieces, piece ≠ [])
    (hsent : (pieces ++ [last]).flatten =
      ((sendErr (fun _ => true) errcode msg).2.map Packet.data).flatten)
    (htrailer : 2 ≤ last.length) :
    ∃ rc calls, recvFd writesAll ((pieces ++ [last]).map fun piece => .data piece none) =
        (.returned (some rc), calls) ∧ calls.flatten = msg ∧ rc < 0 ∧
      (-255 ≤ errcode → errcode ≤ -1 → rc = errcode) ∧ (0 ≤ errcode → rc = -1) := by
  rw [sendErr_bytes hnul, List.flatten_append, List.flatten_singleton] at hsent
  generalize hstatus : statusByte (if errcode ≥ 0 then -1 else errcode) = status at hsent
  obtain ⟨text, rfl, rfl⟩ : ∃ text, last = text ++ [0, status] ∧ msg = pieces.flatten ++ text := by
    rcases List.append_eq_append_iff.mp hsent with ⟨text, htext, hlast⟩ | ⟨extra, hall, hextra⟩
    · exact ⟨text, hlast, htext⟩
    · have hlengths := congrArg List.length hextra
      rw [List.length_append, List.length_cons, List.length_singleton] at hlengths
      have hnone : extra = [] := List.length_eq_zero_iff.mp (by omega)
      subst hnone
      refine ⟨[], hextra.symm, ?_⟩
      rw [hall, List.append_nil, List.append_nil]
  rw [List.mem_append, not_or] at hnul
  have hne := statusByte_ne_zero (if errcode ≥ 0 then -1 else errcode)
  rw [hstatus] at hne
  obtain ⟨calls, hrun, hcalls⟩ := recvFd_pieces
    (fun piece hmem => ⟨hpieces piece hmem, fun hzero =>
      hnul.1 (List.mem_flatten.mpr ⟨piece, hmem, hzero⟩)⟩) hnul.2 hne
  refine ⟨_, calls, hrun, hcalls, ?_, ?_, ?_⟩
  · have hpos : status.toNat ≠ 0 := fun hzero => hne (UInt8.toNat_inj.mp hzero)
    omega
  · intro hlow hhigh
    rw [← hstatus, if_neg (by omega), toNat_statusByte hlow hhigh, Int.neg_neg]
  · intro hnonneg
    rw [← hstatus, if_pos hnonneg]
    rfl

theorem recvFd_sendErr_pieces :
    ∃ rc calls, recvFd writesAll ([[110, 111], [33, 0, 2]].map fun piece => .data piece none) =
        (.returned (some rc), calls) ∧ calls.flatten = [110, 111, 33] ∧ rc < 0 ∧
      (-255 ≤ (-2 : Int) → (-2 : Int) ≤ -1 → rc = -2) ∧ (0 ≤ (-2 : Int) → rc = -1) :=
  @recvFd_sendErr (-2) [110, 111, 33] (by decide) [[110, 111]] [33, 0, 2] (by decide)
    (by decide) (by decide)

end ApueFormal.OpenServer
