import LedaSdk.Base.KeyedList
import LedaSdk.ErrorCode

/-!
# The list of pending replies

`sdk/leda.c:72–79,352–450`: `g_ws_msg_reply_list` and the functions that hold its lock.
The list is in the order of its nodes, an entry's semaphore is its value, and message ids
are keys of type `int`, to which callers convert their `unsigned int`.
-/

namespace LedaSdk.Leda
open LedaSdk.Base

/-- `ws_msg_reply_t`, `leda.c:72–79`. -/
structure WsMsgReply where
  msgId : Int32
  code : Int32
  payload : Option (List UInt8)
  sem : Nat
  deriving DecidableEq, Repr

/-- `g_ws_msg_reply_list`. -/
abbrev ReplyList := List WsMsgReply

/-- `_ws_get_reply_by_msg_id`, `leda.c:352–370`. -/
def wsGetReplyByMsgId (msgId : Int32) (l : ReplyList) : Option WsMsgReply :=
  KeyedList.find WsMsgReply.msgId msgId l

/-- `_ws_insert_reply`, `leda.c:372–401`, with the results of `malloc` and `sem_init`. -/
def wsInsertReply (mallocOk semInitOk : Bool) (msgId : Int32) (l : ReplyList) :
    Int32 × ReplyList :=
  if mallocOk then
    if semInitOk then (leSuccess, ⟨msgId, leErrorUnknown, none, 0⟩ :: l)
    else (leErrorUnknown, l)
  else (leErrorAllocatingMem, l)

/-- `_ws_remove_reply`, `leda.c:403–427`, without interruption. -/
def wsRemoveReply (msgId : Int32) (l : ReplyList) : ReplyList :=
  KeyedList.erase WsMsgReply.msgId msgId l

/-- The writes of `_ws_set_reply_result` to the entry it found, `leda.c:439–444`; the copy
of the payload succeeds. -/
def WsMsgReply.store (code : Int32) (payload : Option (List UInt8)) (r : WsMsgReply) :
    WsMsgReply :=
  { r with code := code, payload := payload.or r.payload }

/-- `sem_post` on an entry. -/
def WsMsgReply.semPost (r : WsMsgReply) : WsMsgReply := { r with sem := r.sem + 1 }

/-- A successful `sem_timedwait` on an entry. -/
def WsMsgReply.semTake (r : WsMsgReply) : WsMsgReply := { r with sem := r.sem - 1 }

/-- What a response does to an entry, `leda.c:439–447`. -/
def WsMsgReply.setResult (code : Int32) (payload : Option (List UInt8)) (r : WsMsgReply) :
    WsMsgReply :=
  (r.store code payload).semPost

/-- `_ws_set_reply_result`, `leda.c:429–450`, without interruption. -/
def wsSetReplyResult (msgId code : Int32) (payload : Option (List UInt8)) (l : ReplyList) :
    Int32 × ReplyList :=
  match wsGetReplyByMsgId msgId l with
  | none => (leErrorUnknown, l)
  | some _ => (leSuccess, KeyedList.modify WsMsgReply.msgId msgId (·.setResult code payload) l)

/-- A successful `sem_timedwait` on the entry with this id. -/
def semTake (msgId : Int32) (l : ReplyList) : ReplyList :=
  KeyedList.modify WsMsgReply.msgId msgId WsMsgReply.semTake l

/-- A successful insertion puts a new entry in front. -/
theorem wsInsertReply_success {m k : Bool} {msgId : Int32} {l : ReplyList}
    (h : (wsInsertReply m k msgId l).1 = leSuccess) :
    m = true ∧ k = true ∧
      (wsInsertReply m k msgId l).2 = ⟨msgId, leErrorUnknown, none, 0⟩ :: l := by
  cases m with
  | false => exact absurd h (show leErrorAllocatingMem ≠ leSuccess by decide)
  | true =>
    cases k with
    | false => exact absurd h (show leErrorUnknown ≠ leSuccess by decide)
    | true => exact ⟨rfl, rfl, rfl⟩

variable {msgId code : Int32} {payload : Option (List UInt8)} {l : ReplyList}

/-- A result for an absent id changes nothing. -/
theorem wsSetReplyResult_absent (h : wsGetReplyByMsgId msgId l = none) :
    wsSetReplyResult msgId code payload l = (leErrorUnknown, l) := by
  rw [wsSetReplyResult, h]

/-- A result for a pending id is written to its entry. -/
theorem wsSetReplyResult_present {r : WsMsgReply} (h : wsGetReplyByMsgId msgId l = some r) :
    wsSetReplyResult msgId code payload l =
      (leSuccess, KeyedList.modify WsMsgReply.msgId msgId (·.setResult code payload) l) := by
  rw [wsSetReplyResult, h]

theorem map_msgId_semTake : (semTake msgId l).map WsMsgReply.msgId = l.map WsMsgReply.msgId :=
  KeyedList.map_modify fun _ ↦ rfl

theorem wsGetReplyByMsgId_semTake :
    wsGetReplyByMsgId msgId (semTake msgId l) =
      (wsGetReplyByMsgId msgId l).map WsMsgReply.semTake :=
  KeyedList.find_modify_self fun _ ↦ rfl

theorem map_msgId_modify_setResult :
    (KeyedList.modify WsMsgReply.msgId msgId (·.setResult code payload) l).map WsMsgReply.msgId =
      l.map WsMsgReply.msgId :=
  KeyedList.map_modify fun _ ↦ rfl

theorem wsGetReplyByMsgId_modify_setResult :
    wsGetReplyByMsgId msgId (KeyedList.modify WsMsgReply.msgId msgId (·.setResult code payload) l) =
      (wsGetReplyByMsgId msgId l).map (·.setResult code payload) :=
  KeyedList.find_modify_self fun _ ↦ rfl

/-- Distinct unsigned ids are distinct keys. -/
theorem toInt32_inj {a b : UInt32} : a.toInt32 = b.toInt32 ↔ a = b := by
  constructor
  · intro h
    rw [← UInt32.toUInt32_toInt32 a, h, UInt32.toUInt32_toInt32]
  · exact congrArg UInt32.toInt32

end LedaSdk.Leda
