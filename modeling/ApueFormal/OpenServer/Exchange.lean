import ApueFormal.OpenServer.Csopen

/-!
# An exchange of client and server

`csopen` sends its request, the server opens the file and replies, and `recv_fd` takes the
reply apart again.  What the client gets is what `open` does in the server, whoever has
asked for what before.
-/

namespace ApueFormal.OpenServer

open Libc

/-- What is received of a reply.  Its last message, the trailer, comes in one piece with its
descriptor; the bytes before it may be cut and joined. -/
inductive Arrives (packets : List Packet) : List Received → Prop where
  | cut (pieces : List Bytes) (text : Bytes) (trailer : Packet)
      (hpieces : ∀ piece ∈ pieces, piece ≠ []) (htrailer : packets.getLast? = some trailer)
      (htext : (packets.dropLast.map Packet.data).flatten = pieces.flatten ++ text) :
      Arrives packets
        (pieces.map (.data · none) ++ [.data (text ++ trailer.data) trailer.fd])

/-- An error message arrives whole, with the code -1. -/
theorem recvFd_error {msg : Bytes} (hnul : (0 : Byte) ∉ msg) {received : List Received}
    (harrives : Arrives (sendErr (fun _ => true) (-1) msg).2 received) :
    ∃ calls, recvFd writesAll received = (.returned (some (-1)), calls) ∧ calls.flatten = msg := by
  obtain ⟨pieces, text, trailer, hpieces, htrailer, htext⟩ := harrives
  have hpackets : (sendErr (fun _ => true) (-1) msg).2 =
      (if msg.length > 0 then [⟨msg, none⟩] else []) ++ [⟨[0, 1], none⟩] := by
    rw [sendErr, cstr_of_noNul hnul, Bool.not_true, Bool.and_false]
    rfl
  rw [hpackets, List.getLast?_concat] at htrailer
  cases htrailer
  have hmsg : msg = pieces.flatten ++ text := by
    rw [← htext, hpackets, List.dropLast_concat]
    cases msg with
    | nil => rfl
    | cons byte rest => simp
  rw [hmsg, List.mem_append, not_or] at hnul
  obtain ⟨calls, hrun, hcalls⟩ := @recvFd_pieces text pieces
    (fun piece hmem => ⟨hpieces piece hmem, fun hzero =>
      hnul.1 (List.mem_flatten.mpr ⟨piece, hmem, hzero⟩)⟩) hnul.2 1 (by decide)
  rw [List.map_append] at hrun
  exact ⟨calls, hrun, hcalls.trans hmsg.symm⟩

/-- `csopen` gets the file that the server opens, or -1 after the server's own message has been
written: as long as the server goes on, the requests before it do not matter. -/
theorem csopen_served {name : CString} {oflag : Int} (hnonneg : 0 ≤ oflag)
    (hoflag : oflag < 2 ^ 31) (hne : name.bytes ≠ [])
    (hname : ∀ byte ∈ name.bytes, white byte = false) {opens : Opens}
    (herrors : ∀ path flags strerror, opens path flags = .error strerror → (0 : Byte) ∉ strerror)
    {uid : Nat} {history : List Request} {packets : List Packet}
    (hreply : reply ⟨opens, true, csopenRequest name oflag, uid⟩ history = some packets)
    {received : List Received} (harrives : Arrives packets received) :
    (∀ file, opens name.bytes oflag = .ok file →
      recvFd writesAll received = (.returned (some file), [])) ∧
    ∀ strerror, opens name.bytes oflag = .error strerror →
      ∃ calls, recvFd writesAll received = (.returned (some (-1)), calls) ∧
        calls.flatten = snprintf (maxline - 1)
          (ascii "can't open " ++ name.bytes ++ ascii ": " ++ strerror ++ ascii "\n") := by
  obtain ⟨oflag, rfl⟩ := Int.eq_ofNat_of_zero_le hnonneg
  have hlast : (csopenRequest name oflag).getLast? = some 0 := by
    rw [csopenRequest, ← List.append_assoc, List.getLast?_append]
    rfl
  obtain ⟨globals, _, rfl⟩ := Option.map_eq_some_iff.mp hreply
  rw [handleRequest, if_neg (not_not.mpr hlast),
    bufArgs_csopenRequest (by omega) hne hname] at harrives
  dsimp only at harrives
  rw [if_neg (by decide)] at harrives
  refine ⟨fun file hopen => ?_, fun strerror hopen => ?_⟩
  · rw [hopen] at harrives
    obtain ⟨pieces, text, trailer, hpieces, htrailer, htext⟩ := harrives
    cases htrailer
    obtain ⟨hnone, rfl⟩ := List.append_eq_nil_iff.mp htext.symm
    cases pieces with
    | nil => rfl
    | cons piece rest =>
      exact absurd (List.append_eq_nil_iff.mp hnone).1 (hpieces piece List.mem_cons_self)
  · rw [hopen] at harrives
    refine recvFd_error (fun hmem => ?_) harrives
    have hnul := List.mem_of_mem_take hmem
    simp only [List.mem_append] at hnul
    rcases hnul with (((hnul | hnul) | hnul) | hnul) | hnul
    · exact absurd hnul (by decide)
    · exact name.noNul hnul
    · exact absurd hnul (by decide)
    · exact herrors _ _ _ hopen hnul
    · exact absurd hnul (by decide)

/-- A file that is not there, asked for after a request of another client, with the message
cut in two. -/
theorem csopen_served_missing : ∃ received calls,
    recvFd writesAll received = (.returned (some (-1)), calls) ∧
      calls.flatten = ascii "can't open motd: none\n" := by
  have hreply : reply ⟨fun _ _ => .error (ascii "none"), true,
      csopenRequest ⟨ascii "motd", by decide⟩ 0, 0⟩ [keyRequest] =
      some [⟨ascii "can't open motd: none\n", none⟩, ⟨[0, 1], none⟩] := by decide +kernel
  have harrives : Arrives [⟨ascii "can't open motd: none\n", none⟩, ⟨[0, 1], none⟩] _ :=
    .cut [ascii "can't "] (ascii "open motd: none\n") ⟨[0, 1], none⟩ (by decide)
      (by decide +kernel) (by decide +kernel)
  obtain ⟨calls, hcalls, htext⟩ := (csopen_served (by decide) (by decide) (by decide)
    (by decide +kernel) (by rintro _ _ _ ⟨⟩; decide) hreply harrives).2 (ascii "none") rfl
  exact ⟨_, calls, hcalls, htext⟩

end ApueFormal.OpenServer
