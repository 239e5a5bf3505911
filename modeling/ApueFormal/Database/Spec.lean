import ApueFormal.Database.Model
import ApueFormal.Program.History

/-!
# The database as its users see it

The abstract database is a finite map from keys to data.  `store`, `fetch` and
`delete` have the results that the comments of `db.c` give them.
-/

namespace ApueFormal.Database

open Libc Program

inductive Call where
  | store (key data : Arg) (flag : Int)
  | fetch (key : CString)
  | delete (key : CString)
  | nextrec
  | rewind
  deriving DecidableEq

/-- The results of the calls.  The result of `db_nextrec` also says where its
index record and its data are. -/
inductive Reply where
  | code (rc : Int)
  | data (found : Option Bytes)
  | record (key data : Bytes) (idxoff datoff : Int)
  | eof
  | done

/-- The result of `db_nextrec`, with the place noted in the handle. -/
def nextReply (found : Option (Bytes × Bytes)) (db : DB) : Reply :=
  match found with
  | some (key, data) => .record key data db.idxoff db.datoff
  | none => .eof

def Call.prog (db : DB) : Call → DbProg (Reply × DB)
  | .store key data flag => do
      let (rc, db) ← dbStore db key data flag
      return (.code rc, db)
  | .fetch key => do
      let (found, db) ← dbFetch db key
      return (.data found, db)
  | .delete key => do
      let (rc, db) ← dbDelete db key
      return (.code rc, db)
  | .nextrec => do
      let (found, db) ← dbNextRec db
      return (nextReply found db, db)
  | .rewind => return (.done, dbRewind db)

def Call.key? : Call → Option CString
  | .store key _ _ => some key.toCString
  | .fetch key => some key
  | .delete key => some key
  | .nextrec => none
  | .rewind => none

/-! ## Strings in the data buffer -/

/-- The string lies where the caller says. -/
def Arg.At (arg : Arg) (db : DB) : Prop :=
  ∀ off ∈ arg.place, arg.bytes ++ [0] <+: db.datbuf.drop off

instance (arg : Arg) (db : DB) : Decidable (arg.At db) :=
  inferInstanceAs (Decidable (∀ _ ∈ arg.place, _))

/-- The string lies behind the first bytes of the data buffer. -/
def Arg.Behind (arg : Arg) (size : Nat) : Prop := ∀ off ∈ arg.place, size < off

/-- The strings of a call are those that its handle holds. -/
def Call.Reads (db : DB) : Call → Prop
  | .store key data _ => key.At db ∧ data.At db
  | _ => True

instance (db : DB) : (call : Call) → Decidable (call.Reads db)
  | .store key data _ => inferInstanceAs (Decidable (key.At db ∧ data.At db))
  | .fetch _ | .delete _ | .nextrec | .rewind => inferInstanceAs (Decidable True)

section Arg

variable {arg : Arg} {db db' : DB}

theorem Arg.At.now_eq (hat : arg.At db) : arg.now db = arg.toCString := by
  apply CString.ext
  unfold Arg.now
  cases hplace : arg.place with
  | none => rfl
  | some off =>
    obtain ⟨rest, hrest⟩ := hat off hplace
    change cstr (db.datbuf.drop off) = arg.bytes
    rw [← hrest, List.append_assoc]
    exact (cstr_append_zero ..).trans (cstr_of_noNul arg.noNul)

theorem Arg.At.same (hat : arg.At db) (hbuf : db'.datbuf = db.datbuf) : arg.At db' := by
  intro off hplace
  rw [hbuf]
  exact hat off hplace

/-- What lies behind the bytes that are overwritten stays. -/
theorem Arg.At.overwritten {size : Nat} {bytes : Bytes} (hat : arg.At db)
    (hbehind : arg.Behind size) (hsize : bytes.length = size + 1)
    (hbuf : db'.datbuf = writeAt db.datbuf 0 bytes) : arg.At db' := by
  intro off hplace
  have hoff := hbehind off hplace
  have hdrop : (writeAt db.datbuf 0 bytes).drop off = db.datbuf.drop off := by
    simp only [writeAt, List.take_zero, Nat.zero_sub, List.replicate_zero, List.nil_append,
      Nat.zero_add]
    rw [List.drop_append, List.drop_eq_nil_of_le (by omega), List.nil_append, List.drop_drop,
      Nat.add_sub_cancel' (by omega)]
  rw [hbuf, hdrop]
  exact hat off hplace

end Arg

abbrev KeyMap := Bytes → Option Bytes

def ValidFlag (flag : Int) : Prop :=
  flag = dbInsert ∨ flag = dbReplace ∨ flag = dbStoreFlag

instance (flag : Int) : Decidable (ValidFlag flag) :=
  inferInstanceAs (Decidable (_ ∨ _ ∨ _))

/-- The result of storing under a key that has or has not a record. -/
def storeCode (present : Bool) (flag : Int) : Int :=
  if ¬ ValidFlag flag then -1
  else if present ∧ flag = dbInsert then 1
  else if ¬ present ∧ flag = dbReplace then -1
  else 0

namespace KeyMap

def next (map : KeyMap) : Call → KeyMap
  | .store key data flag =>
    if storeCode (map key.bytes).isSome flag = 0 then
      Function.update map key.bytes (some data.bytes)
    else
      map
  | .fetch _ => map
  | .delete key => Function.update map key.bytes none
  | .nextrec => map
  | .rewind => map

/-- The reply of a call; a scan is not described by the map. -/
def accepts (map : KeyMap) : Call → Reply → Prop
  | .store key _ flag, reply =>
    reply = .code (storeCode (map key.bytes).isSome flag)
  | .fetch key, reply => reply = .data (map key.bytes)
  | .delete key, reply =>
    reply = .code (if (map key.bytes).isSome then 0 else -1)
  | .nextrec, _ => True
  | .rewind, _ => True

end KeyMap

/-- The sequential object that the database implements. -/
def keyMap : Object Call Reply KeyMap where
  init := fun _ => none
  next := KeyMap.next
  accepts := KeyMap.accepts

theorem KeyMap.stored_of_next {map : KeyMap} {call : Call} {key data : Bytes}
    (hmap : map.next call key = some data) : map key = some data ∨
      ∃ name text : Arg, ∃ flag, call = .store name text flag ∧ text.bytes = data := by
  cases call with
  | store name text flag =>
    simp only [KeyMap.next] at hmap
    split at hmap
    · rw [Function.update_apply] at hmap
      split at hmap
      · exact .inr ⟨name, text, flag, rfl, Option.some.inj hmap⟩
      · exact .inl hmap
    · exact .inl hmap
  | delete name =>
    simp only [KeyMap.next, Function.update_apply] at hmap
    split at hmap
    · cases hmap
    · exact .inl hmap
  | _ => exact .inl hmap

variable {calls : List (Call × Reply)}

/-- What the map holds has been stored. -/
theorem stored_of_after {key data : Bytes} (hmap : keyMap.after calls key = some data) :
    ∃ name text : Arg, ∃ flag reply,
      (.store name text flag, reply) ∈ calls ∧ text.bytes = data := by
  induction calls using List.reverseRecOn with
  | nil => cases hmap
  | append_singleton calls entry ih =>
    obtain ⟨call, reply⟩ := entry
    rw [Object.after_snoc] at hmap
    rcases KeyMap.stored_of_next hmap with hbefore | ⟨name, text, flag, rfl, htext⟩
    · obtain ⟨name, text, flag, answer, hmem, htext⟩ := ih hbefore
      exact ⟨name, text, flag, answer, List.mem_append_left _ hmem, htext⟩
    · exact ⟨name, text, flag, reply, by simp, htext⟩

/-- The entry stores this data. -/
def isStored (data : Bytes) : Call × Reply → Bool
  | (.store _ text _, _) => text.bytes == data
  | _ => false

/-- The entry fetches this data. -/
def isFetched (data : Bytes) : Call × Reply → Bool
  | (.fetch _, .data found) => found == some data
  | _ => false

theorem not_legal_of_unstored {data : Bytes} (hfetched : calls.any (isFetched data))
    (hstored : calls.any (isStored data) = false) : ¬ keyMap.Legal calls := by
  intro hlegal
  obtain ⟨entry, hmem, hentry⟩ := List.any_eq_true.mp hfetched
  unfold isFetched at hentry
  split at hentry
  next key found =>
    cases eq_of_beq hentry
    obtain ⟨before, rest, hsplit⟩ := List.append_of_mem hmem
    have hreply : Reply.data (some data) = .data (keyMap.after before key.bytes) :=
      hlegal before _ _ rest hsplit
    obtain ⟨name, text, flag, reply, hbefore, htext⟩ :=
      stored_of_after (Reply.data.inj hreply).symm
    refine List.any_eq_false.mp hstored (.store name text flag, reply) ?_
      (by simp [isStored, htext])
    rw [hsplit]
    exact List.mem_append_left _ hbefore
  next => cases hentry

/-! ## Histories of the database -/

/-- A remark of a process is a write to one of the files. -/
abbrev DbEvent := Event Nat Call Reply Sys

abbrev Trace := List DbEvent

/-- The map after the calls that a history has completed. -/
def mapOf (trace : Trace) : KeyMap := keyMap.after (completed trace)

end ApueFormal.Database
