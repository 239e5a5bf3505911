import ApueFormal.Printer.Status
import ApueFormal.Printer.Spool

/-!
# Detection of PostScript

A client thread looks for `%!PS` in its buffer after the first read, however many bytes
that read returned.
-/

namespace ApueFormal.Printer

open Libc

def postScriptMark : Bytes := ascii "%!PS"

def firstRead : List Tread → Bytes
  | .data bytes :: _ => bytes
  | _ => []

def clientFlags (calls : SpoolCalls) : Nat :=
  match treadn sizeofPrintreq [] calls.header with
  | .error _ => 0
  | .ok header => (ofHeader header).flags

/-- The job is stored and queued, and it is marked as text exactly when the client has marked
it or what has arrived is not empty and does not begin with `%!PS`. -/
def DetectsText (calls : SpoolCalls) : Prop :=
  ∃ req, (clientThread calls).queued = some (req, calls.jobid) ∧
    (clientThread calls).control = some req ∧
    (req.flags.testBit 0 = true ↔ (clientFlags calls).testBit 0 = true ∨
      (delivered calls.reads ≠ [] ∧ ¬ postScriptMark <+: delivered calls.reads))

/-- The first read returns a part of `%!PS`. -/
def SplitsMark (reads : List Tread) : Prop :=
  firstRead reads ≠ [] ∧ (firstRead reads).length < 4 ∧ firstRead reads <+: postScriptMark

theorem isPostScript_iff (stack bytes : Bytes) :
    isPostScript stack bytes = true ↔ postScriptMark <+: bytes ++ stack.drop bytes.length := by
  rw [isPostScript, beq_iff_eq, List.prefix_iff_eq_take]
  exact eq_comm

variable {bytes file : Bytes} {calls : SpoolCalls} {flags : Nat}

theorem mark_prefix_append (hwhole : ¬ (bytes.length < 4 ∧ bytes <+: postScriptMark))
    (left right : Bytes) (hleft : postScriptMark <+: bytes ++ left) :
    postScriptMark <+: bytes ++ right := by
  have hlength : postScriptMark.length = 4 := by decide +kernel
  by_cases hshort : bytes.length < 4
  · refine absurd ⟨hshort, ?_⟩ hwhole
    exact List.prefix_of_prefix_length_le (List.prefix_append bytes left) hleft (by omega)
  · have hbytes : postScriptMark <+: bytes :=
      List.prefix_of_prefix_length_le hleft (List.prefix_append bytes left) (by omega)
    exact hbytes.trans (List.prefix_append bytes right)

theorem delivered_eq (reads : List Tread) :
    ∃ rest, delivered reads = firstRead reads ++ rest ∧ (firstRead reads = [] → rest = []) := by
  match reads with
  | [] => exact ⟨[], rfl, fun _ => rfl⟩
  | .failed _ :: _ => exact ⟨[], rfl, fun _ => rfl⟩
  | .data [] :: _ => exact ⟨[], rfl, fun _ => rfl⟩
  | .data (byte :: bytes) :: rest => exact ⟨delivered rest, rfl, fun hnil => nomatch hnil⟩

def flagsAfter (stack : Bytes) (reads : List Tread) (flags : Nat) : Nat :=
  if firstRead reads ≠ [] ∧ isPostScript stack (firstRead reads) = false then flags ||| prText
  else flags

theorem testBit_flagsAfter (stack : Bytes) (reads : List Tread) (flags : Nat) :
    (flagsAfter stack reads flags).testBit 0 = true ↔ flags.testBit 0 = true ∨
      (firstRead reads ≠ [] ∧ ¬ postScriptMark <+: firstRead reads ++
        stack.drop (firstRead reads).length) := by
  rw [← isPostScript_iff, Bool.not_eq_true]
  unfold flagsAfter
  split
  · rename_i htext
    simp [prText, htext]
  · rename_i htext
    simp [htext]

theorem receive_restack (stack : Bytes) {reads : List Tread} {first : Bool} {flags' : Nat}
    {file' : Bytes} (hreceive : receive calls reads first flags file = .ok (flags', file'))
    (start : Nat) :
    receive { calls with stack } reads first start file =
      .ok (if first then flagsAfter stack reads start else start, file') := by
  induction reads generalizing first flags file start with
  | nil =>
    cases hreceive
    cases first <;> rfl
  | cons read rest ih =>
    match read with
    | .failed errno | .data [] =>
      cases hreceive
      cases first <;> rfl
    | .data (byte :: bytes) =>
      simp only [receive] at hreceive ⊢
      split at hreceive
      · cases hreceive
      · split at hreceive
        · cases hreceive
        · rename_i nw hwrite hwhole
          rw [if_neg hwhole, ih hreceive]
          cases first <;> simp [flagsAfter, firstRead]

/-- What must have happened for a job to be queued. -/
structure Queues (calls : SpoolCalls) (header : Bytes) (flags : Nat) (file : Bytes) : Prop where
  headerRead : treadn sizeofPrintreq [] calls.header = .ok header
  headerWhole : header.length = sizeofPrintreq
  creatData : calls.creatData = none
  received : receive calls calls.reads true (ofHeader header).flags [] = .ok (flags, file)
  creatControl : calls.creatControl = none
  writeControl : calls.writeControl = .wrote sizeofPrintreq

variable {header : Bytes}

theorem Queues.control (hqueues : Queues calls header flags file) :
    (clientThread calls).queued = some ({ ofHeader header with flags }, calls.jobid) ∧
      (clientThread calls).control = some { ofHeader header with flags } := by
  unfold clientThread
  rw [hqueues.headerRead, hqueues.creatData, hqueues.creatControl, hqueues.writeControl]
  dsimp only
  rw [if_neg (not_not_intro hqueues.headerWhole), hqueues.received]
  dsimp only
  rw [if_neg (not_not_intro rfl)]
  exact ⟨rfl, rfl⟩

theorem queues_of_queued {req : Printreq} {jobid : Int32}
    (hqueued : (clientThread calls).queued = some (req, jobid)) :
    ∃ header flags file, Queues calls header flags file := by
  unfold clientThread at hqueued
  cases hheader : treadn sizeofPrintreq [] calls.header with
  | error errno =>
    rw [hheader] at hqueued
    cases hqueued
  | ok header =>
    rw [hheader] at hqueued
    dsimp only at hqueued
    split at hqueued
    · cases hqueued
    · rename_i hlength
      split at hqueued
      · cases hqueued
      · rename_i hcreat
        split at hqueued
        · cases hqueued
        · rename_i flags file hreceive
          split at hqueued
          · cases hqueued
          · cases hqueued
          · rename_i hcontrol hwrite
            split at hqueued
            · cases hqueued
            · rename_i hwhole
              exact ⟨header, flags, file, hheader, not_ne_iff.mp hlength, hcreat, hreceive,
                hcontrol, not_ne_iff.mp hwhole ▸ hwrite⟩

theorem Queues.restack (hqueues : Queues calls header flags file) (stack : Bytes) :
    Queues { calls with stack } header
      (flagsAfter stack calls.reads (ofHeader header).flags) file where
  headerRead := hqueues.headerRead
  headerWhole := hqueues.headerWhole
  creatData := hqueues.creatData
  received := receive_restack stack hqueues.received (ofHeader header).flags
  creatControl := hqueues.creatControl
  writeControl := hqueues.writeControl

/-- The detection compares the buffer with the mark where it should compare the bytes that
arrive. -/
theorem detectsText_iff (hqueues : Queues calls header flags file) (stack : Bytes) :
    DetectsText { calls with stack } ↔
      ((clientFlags calls).testBit 0 = true ∨ firstRead calls.reads ≠ [] ∧
          ¬ postScriptMark <+: firstRead calls.reads ++ stack.drop (firstRead calls.reads).length ↔
        (clientFlags calls).testBit 0 = true ∨
          (delivered calls.reads ≠ [] ∧ ¬ postScriptMark <+: delivered calls.reads)) := by
  have hflags : clientFlags calls = (ofHeader header).flags := by
    rw [clientFlags, hqueues.headerRead]
  obtain ⟨hqueued, hcontrol⟩ := (hqueues.restack stack).control
  rw [hflags, ← testBit_flagsAfter]
  constructor
  · rintro ⟨req, hreq, _, hdetects⟩
    rw [hqueued] at hreq
    cases hreq
    exact hflags ▸ hdetects
  · intro hdetects
    exact ⟨_, hqueued, hcontrol, hflags.symm ▸ hdetects⟩

theorem delivered_ne_nil_iff (reads : List Tread) :
    delivered reads ≠ [] ↔ firstRead reads ≠ [] := by
  obtain ⟨rest, hdelivered, hrest⟩ := delivered_eq reads
  rw [hdelivered]
  constructor
  · intro hne hnil
    rw [hnil, hrest hnil] at hne
    exact hne rfl
  · intro hne hnil
    exact hne (List.append_eq_nil_iff.mp hnil).1

theorem mark_completed (hpart : bytes <+: postScriptMark) (zeros : Bytes) :
    postScriptMark <+: bytes ++ (postScriptMark ++ zeros).drop bytes.length := by
  obtain ⟨more, hmore⟩ := hpart
  refine ⟨zeros, ?_⟩
  rw [← hmore, List.append_assoc, List.drop_left]

theorem mark_not_completed (hshort : bytes.length < 4) (count : Nat) :
    ¬ postScriptMark <+: bytes ++ (List.replicate count 0).drop bytes.length := by
  intro hmark
  have hlength : postScriptMark.length = 4 := by decide +kernel
  have hpart : bytes <+: postScriptMark :=
    List.prefix_of_prefix_length_le (List.prefix_append ..) hmark (by omega)
  obtain ⟨more, hmore⟩ := hpart
  rw [← hmore, List.prefix_append_right_inj] at hmark
  cases more with
  | nil =>
    have hcount := congrArg List.length hmore
    rw [List.append_nil] at hcount
    omega
  | cons byte more =>
    have hzero : byte = 0 :=
      List.eq_of_mem_replicate (List.mem_of_mem_drop (hmark.subset List.mem_cons_self))
    have hmem : byte ∈ postScriptMark := by
      rw [← hmore]
      exact List.mem_append_right _ List.mem_cons_self
    rw [hzero] at hmem
    exact absurd hmem (by decide +kernel)

/-- Whatever the buffer holds, the detection is right exactly when the client has marked the
job as text or the first read does not end inside the mark. -/
theorem postscript_detected_iff {calls : SpoolCalls} {req : Printreq} {jobid : Int32}
    (hqueued : (clientThread calls).queued = some (req, jobid)) :
    (∀ stack : Bytes, stack.length = iobufsz → DetectsText { calls with stack }) ↔
      (clientFlags calls).testBit 0 = true ∨ ¬ SplitsMark calls.reads := by
  obtain ⟨header, flags, file, hqueues⟩ := queues_of_queued hqueued
  obtain ⟨rest, hdelivered, _⟩ := delivered_eq calls.reads
  simp only [detectsText_iff hqueues, delivered_ne_nil_iff]
  rw [hdelivered]
  constructor
  · intro hall
    by_contra hnot
    obtain ⟨hclient, hsplits⟩ := not_or.mp hnot
    obtain ⟨hne, hshort, hpart⟩ := not_not.mp hsplits
    have hsame : ∀ stack : Bytes, stack.length = iobufsz →
        (postScriptMark <+: firstRead calls.reads ++ stack.drop (firstRead calls.reads).length ↔
          postScriptMark <+: firstRead calls.reads ++ rest) := by
      intro stack hstack
      have hdetects := hall stack hstack
      tauto
    -- The bytes that follow cannot agree with both buffers.
    have hmarked := hsame (postScriptMark ++ List.replicate (iobufsz - 4) 0) (by decide +kernel)
    have hzeros := hsame (List.replicate iobufsz 0) List.length_replicate
    exact mark_not_completed hshort iobufsz (hzeros.mpr (hmarked.mp (mark_completed hpart _)))
  · rintro (hclient | hwhole) stack hstack
    · simp only [hclient, true_or]
    · by_cases hnil : firstRead calls.reads = []
      · simp only [hnil, ne_eq, not_true_eq_false, false_and]
      · have hpart : ¬ ((firstRead calls.reads).length < 4 ∧
            firstRead calls.reads <+: postScriptMark) :=
          fun hpart => hwhole ⟨hnil, hpart⟩
        have hsame : postScriptMark <+: firstRead calls.reads ++
            stack.drop (firstRead calls.reads).length ↔
              postScriptMark <+: firstRead calls.reads ++ rest :=
          ⟨mark_prefix_append hpart _ _, mark_prefix_append hpart _ _⟩
        rw [hsame]

theorem postscript_detected_at_once :
    (clientThread (sampleCalls [.data (ascii "%!PS-"), .data []])).queued =
        some ({ sampleReq with flags := 0 }, 7) ∧
      ((∀ stack : Bytes, stack.length = iobufsz →
        DetectsText { sampleCalls [.data (ascii "%!PS-"), .data []] with stack }) ↔
      (clientFlags (sampleCalls [.data (ascii "%!PS-"), .data []])).testBit 0 = true ∨
        ¬ SplitsMark [.data (ascii "%!PS-"), .data []]) := by
  have hqueued : (clientThread (sampleCalls [.data (ascii "%!PS-"), .data []])).queued =
      some ({ sampleReq with flags := 0 }, 7) := by
    decide +kernel
  exact ⟨hqueued, postscript_detected_iff hqueued⟩

/-- A PostScript file whose first byte arrives alone, and a buffer of zeros. -/
def splitCalls : SpoolCalls :=
  { sampleCalls [.data (ascii "%"), .data (ascii "!PS-"), .data []] with
    stack := List.replicate iobufsz 0 }

/-- The file is queued as text. -/
theorem split_mark_not_detected : postScriptMark <+: delivered splitCalls.reads ∧
      (clientFlags splitCalls).testBit 0 = false ∧
      ((clientThread splitCalls).queued.map fun job => job.1.flags.testBit 0) = some true := by
  decide +kernel

end ApueFormal.Printer
