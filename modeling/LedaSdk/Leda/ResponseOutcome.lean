import LedaSdk.Leda.Answering

/-!
# What a response does to the call that waits for it

`threadpool_recv_proc` prints the payload of a response before it looks for the call that waits
(`sdk/leda.c:671–686`), although `_ws_set_reply_result` takes a null pointer for the payload.
So a response is delivered only if its payload can be printed, and if no member before its
`messageId` or `code` has that name up to case.
-/

namespace LedaSdk.Leda
open LedaSdk.Base LedaSdk.Json

section Property
variable {P : Type} (gDevsCb : LedaDeviceCallback P)

/-- The member that a JSON object has under a name. -/
def namedMember (root : CJson) (name : CStr) : Option CJson :=
  (root.children.find? fun c ↦ c.1 = some name).map (·.2)

/-- The `valueint` of that member. -/
def namedInt (root : CJson) (name : CStr) : Int32 :=
  ((namedMember root name).map CJson.valueint).getD 0

/-- Two messages with the same id and the same code, both numbers. -/
def SameResponse (a b : CJson) : Prop :=
  SameNumber (namedMember a (.lit "messageId")) (namedMember b (.lit "messageId")) ∧
    SameNumber (namedMember a (.lit "code")) (namedMember b (.lit "code"))

/-- What a task did to the callbacks and to the calls that wait, without the payloads that are
stored for these. -/
def outcome (result : List (Event P) × ReplyList) :
    List (Event P) × List (Int32 × Int32 × Nat) :=
  (result.1, result.2.map fun r ↦ (r.msgId, r.code, r.sem))

/-- The call that waits for the id is woken with the code; if none does, the reply is reported
once, if there is a callback for that. -/
def DeliversTo (msgId code : Int32) (pending : ReplyList)
    (result : List (Event P) × ReplyList) : Prop :=
  match wsGetReplyByMsgId msgId pending with
  | some r => result.1 = [] ∧
      ∃ r', wsGetReplyByMsgId msgId result.2 = some r' ∧ r'.code = code ∧ r'.sem = r.sem + 1
  | none => result.2 = pending ∧ result.1 =
      match gDevsCb.reportReplyCb with
      | none => []
      | some cb =>
        let usrData := gDevsCb.usrDataReportReply
        [.reportReply msgId.toUInt32 code usrData (cb.fn msgId.toUInt32 code usrData)]

/-- Both messages are delivered, and with the same outcome. -/
def SameOutcome (a b : CJson) (pending : ReplyList)
    (result result' : List (Event P) × ReplyList) : Prop :=
  outcome result = outcome result' ∧
    DeliversTo gDevsCb (namedInt a (.lit "messageId")) (namedInt a (.lit "code")) pending result ∧
    DeliversTo gDevsCb (namedInt b (.lit "messageId")) (namedInt b (.lit "code")) pending result'

/-- The members that `cJSON_GetObjectItem` finds for the id and the code are numbers with these
values. -/
def ReadAs (root : CJson) (msgId code : Int32) : Prop :=
  (∃ d, getObjectItem (some root) (.lit "messageId") = some (.number d) ∧ saturate d = msgId) ∧
    ∃ d, getObjectItem (some root) (.lit "code") = some (.number d) ∧ saturate d = code

/-- The payload that `cJSON_GetObjectItem` finds can be printed. -/
def PayloadPrints (root : CJson) : Prop :=
  ∃ payload, getObjectItem (some root) (.lit "payload") = some payload ∧
    payload.render.length + 2 ≤ intMax.toNat

/-- The id and the code are read as they are and the payload can be printed; or nobody is to
hear of the response, and it is not read as one that a call waits for. -/
def Heard (root : CJson) (pending : ReplyList) : Prop :=
  let msgId := namedInt root (.lit "messageId")
  ReadAs root msgId (namedInt root (.lit "code")) ∧ PayloadPrints root ∨
  wsGetReplyByMsgId msgId pending = none ∧ gDevsCb.reportReplyCb = none ∧
    ∀ readId code, ReadAs root readId code → PayloadPrints root →
      wsGetReplyByMsgId readId pending = none

end Property

section Members
variable {root : CJson} {name : CStr}

/-- A name is matched by itself, so what has it exactly is no obstacle to finding something. -/
theorem getObjectItem_ne_none {item : CJson} (h : namedMember root name = some item) :
    getObjectItem (some root) name ≠ none := by
  obtain ⟨c, hc, -⟩ := Option.map_eq_some_iff.mp h
  have hname : c.1 = some name := by simpa using List.find?_some hc
  have hmatch : caseInsensitiveEq name c.1 = true := by
    rw [hname, caseInsensitiveEq]
    exact beq_self_eq_true _
  intro hnone
  rw [getObjectItem, Option.bind_some, Option.map_eq_none_iff, List.find?_eq_none] at hnone
  exact hnone c (List.mem_of_find?_eq_some hc) hmatch

/-- What is read of a message with a code. -/
theorem ledaParseReceiveMsg_readAs {msgId code : Int32} (h : ReadAs root msgId code) :
    ledaParseReceiveMsg root =
      ⟨.rsp, msgId, code, none, getObjectItem (some root) (.lit "payload")⟩ := by
  obtain ⟨⟨id, hid, rfl⟩, c, hcode, rfl⟩ := h
  exact ledaParseReceiveMsg_rsp hid hcode

/-- A message with a code is never a request. -/
theorem ledaParseReceiveMsg_unread (hcode : getObjectItem (some root) (.lit "code") ≠ none)
    (h : ∀ msgId code, ¬ ReadAs root msgId code) :
    (ledaParseReceiveMsg root).msgType = .invalid := by
  unfold ledaParseReceiveMsg
  split
  · next id hid =>
    split
    · next code hc => exact absurd ⟨⟨id, hid, rfl⟩, code, hc, rfl⟩ (h _ _)
    · rfl
    · next hnone => exact absurd hnone hcode
  · rfl

end Members

section Steps
variable {P : Type} {gDevsCb : LedaDeviceCallback P} {parsedMsg : ParsedMsg} {pending : ReplyList}
  {msgId code : Int32}

theorem exists_printUnformatted_iff {payload : Option CJson} :
    (∃ payloadStr, printUnformatted payload = some payloadStr) ↔
      ∃ json, payload = some json ∧ json.render.length + 2 ≤ intMax.toNat := by
  cases payload with
  | none => simp [printUnformatted]
  | some json =>
    rw [printUnformatted_eq]
    split
    · next h => simp [h]
    · next h => simp [h]

/-- Without a printed payload nothing happens. -/
theorem recvRsp_unprinted (h : printUnformatted parsedMsg.payload = none) :
    recvRsp gDevsCb parsedMsg pending = ([], pending) := by
  rw [recvRsp, h]

/-- A printed payload is stored for a call that waits. -/
theorem recvRsp_present {payloadStr : CStr} {r : WsMsgReply}
    (h : printUnformatted parsedMsg.payload = some payloadStr)
    (hr : wsGetReplyByMsgId parsedMsg.msgId pending = some r) :
    recvRsp gDevsCb parsedMsg pending = ([], KeyedList.modify WsMsgReply.msgId parsedMsg.msgId
      (·.setResult parsedMsg.code (some payloadStr.bytes)) pending) := by
  rw [recvRsp, h]
  simp only [wsSetReplyResult_present hr]
  cases gDevsCb.reportReplyCb <;> rfl

/-- If none waits, the reply is reported. -/
theorem recvRsp_absent {payloadStr : CStr}
    (h : printUnformatted parsedMsg.payload = some payloadStr)
    (hr : wsGetReplyByMsgId parsedMsg.msgId pending = none) :
    recvRsp gDevsCb parsedMsg pending =
      (match gDevsCb.reportReplyCb with
        | none => []
        | some cb =>
          [.reportReply parsedMsg.msgId.toUInt32 parsedMsg.code gDevsCb.usrDataReportReply
            (cb.fn parsedMsg.msgId.toUInt32 parsedMsg.code gDevsCb.usrDataReportReply)],
        pending) := by
  rw [recvRsp, h]
  simp only [wsSetReplyResult_absent hr]
  cases gDevsCb.reportReplyCb <;> rfl

/-- If nobody is to hear of it, nothing happens either. -/
theorem recvRsp_unheard (hr : wsGetReplyByMsgId parsedMsg.msgId pending = none)
    (hcb : gDevsCb.reportReplyCb = none) : recvRsp gDevsCb parsedMsg pending = ([], pending) := by
  cases hprint : printUnformatted parsedMsg.payload with
  | none => exact recvRsp_unprinted hprint
  | some payloadStr => rw [recvRsp_absent hprint hr, hcb]

/-- Where nothing happens, a response is delivered only if nobody is to hear of it. -/
theorem deliversTo_nothing_iff :
    DeliversTo gDevsCb msgId code pending ([], pending) ↔
      wsGetReplyByMsgId msgId pending = none ∧ gDevsCb.reportReplyCb = none := by
  rw [DeliversTo]
  cases hr : wsGetReplyByMsgId msgId pending with
  | some r => simp
  | none => cases gDevsCb.reportReplyCb <;> simp

/-- A response that is stored for a call is delivered exactly if it is that call's. -/
private theorem deliversTo_present_iff {payloadStr : CStr} {r : WsMsgReply}
    (h : printUnformatted parsedMsg.payload = some payloadStr)
    (hr : wsGetReplyByMsgId parsedMsg.msgId pending = some r) :
    DeliversTo gDevsCb msgId code pending (recvRsp gDevsCb parsedMsg pending) ↔
      parsedMsg.msgId = msgId ∧ parsedMsg.code = code := by
  rw [recvRsp_present h hr, DeliversTo]
  have hself : wsGetReplyByMsgId parsedMsg.msgId (KeyedList.modify WsMsgReply.msgId parsedMsg.msgId
      (·.setResult parsedMsg.code (some payloadStr.bytes)) pending) =
        some (r.setResult parsedMsg.code (some payloadStr.bytes)) := by
    rw [wsGetReplyByMsgId_modify_setResult, hr]
    rfl
  by_cases hid : parsedMsg.msgId = msgId
  · subst hid
    rw [hr]
    simp only [hself, Option.some.injEq, exists_eq_left', true_and]
    exact and_iff_left rfl
  · refine iff_of_false ?_ (fun h ↦ hid h.1)
    cases hother : wsGetReplyByMsgId msgId pending with
    | some q =>
      rintro ⟨-, q', hq', -, hsem⟩
      have hsame : wsGetReplyByMsgId msgId pending = some q' :=
        (KeyedList.find_modify_ne
          (f := WsMsgReply.setResult parsedMsg.code (some payloadStr.bytes)) (fun _ ↦ rfl)
          (Ne.symm hid)).symm.trans hq'
      cases hother.symm.trans hsame
      exact Nat.succ_ne_self _ hsem.symm
    | none =>
      -- The list is not the one before: the semaphore of the other call was posted.
      rintro ⟨hlist, -⟩
      rw [show KeyedList.modify _ _ _ pending = pending from hlist, hr] at hself
      have hsem := congrArg (Option.map WsMsgReply.sem) hself
      exact Nat.succ_ne_self _ (Option.some.inj hsem).symm

/-- A response that is reported is delivered exactly if no call waits for it and the report is
the right one, or none is made. -/
private theorem deliversTo_absent_iff {payloadStr : CStr}
    (h : printUnformatted parsedMsg.payload = some payloadStr)
    (hr : wsGetReplyByMsgId parsedMsg.msgId pending = none) :
    DeliversTo gDevsCb msgId code pending (recvRsp gDevsCb parsedMsg pending) ↔
      parsedMsg.msgId = msgId ∧ parsedMsg.code = code ∨
        wsGetReplyByMsgId msgId pending = none ∧ gDevsCb.reportReplyCb = none := by
  cases hcb : gDevsCb.reportReplyCb with
  | none =>
    rw [recvRsp_unheard hr hcb, deliversTo_nothing_iff, hcb]
    refine ⟨.inr, fun h ↦ h.elim (fun h ↦ ⟨h.1 ▸ hr, rfl⟩) id⟩
  | some cb =>
    rw [recvRsp_absent h hr, hcb, DeliversTo, hcb]
    simp only [reduceCtorEq, and_false, or_false]
    cases hother : wsGetReplyByMsgId msgId pending with
    | some r =>
      refine iff_of_false (fun h ↦ ?_) (fun h ↦ ?_)
      · cases h.1
      · rw [h.1, hother] at hr
        cases hr
    | none =>
      simp only [true_and, List.cons.injEq, and_true, Event.reportReply.injEq]
      constructor
      · rintro ⟨hid, hcode, -⟩
        refine ⟨?_, hcode⟩
        rw [← Int32.toInt32_toUInt32 parsedMsg.msgId, hid, Int32.toInt32_toUInt32]
      · rintro ⟨rfl, rfl⟩
        exact ⟨rfl, rfl, rfl⟩

/-- A printed response is delivered exactly if it has the id and the code, or nobody is to hear
of them and no call waits for the id that it has. -/
theorem deliversTo_printed_iff {payloadStr : CStr}
    (h : printUnformatted parsedMsg.payload = some payloadStr) :
    DeliversTo gDevsCb msgId code pending (recvRsp gDevsCb parsedMsg pending) ↔
      parsedMsg.msgId = msgId ∧ parsedMsg.code = code ∨
        wsGetReplyByMsgId msgId pending = none ∧ gDevsCb.reportReplyCb = none ∧
          wsGetReplyByMsgId parsedMsg.msgId pending = none := by
  cases hr : wsGetReplyByMsgId parsedMsg.msgId pending with
  | some r =>
    rw [deliversTo_present_iff h hr]
    simp
  | none =>
    rw [deliversTo_absent_iff h hr]
    simp

/-- Printed responses with one id and one code have one outcome. -/
theorem outcome_recvRsp_congr {other : ParsedMsg} (hid : other.msgId = parsedMsg.msgId)
    (hcode : other.code = parsedMsg.code) {payloadStr payloadStr' : CStr}
    (h : printUnformatted parsedMsg.payload = some payloadStr)
    (h' : printUnformatted other.payload = some payloadStr') :
    outcome (recvRsp gDevsCb parsedMsg pending) = outcome (recvRsp gDevsCb other pending) := by
  cases hr : wsGetReplyByMsgId parsedMsg.msgId pending with
  | some r =>
    rw [recvRsp_present h hr, recvRsp_present h' (hid ▸ hr), hid, hcode, outcome, outcome]
    exact congrArg (Prod.mk _) (KeyedList.map_modify_congr fun _ ↦ rfl)
  | none => rw [recvRsp_absent h hr, recvRsp_absent h' (hid ▸ hr), hid, hcode]

end Steps

section Responses
variable {P : Type}

section Received
variable {gDevsCb : LedaDeviceCallback P} {gLogLvl : Int32} {contents : Nat → LedaDeviceData}
  {pending : ReplyList} {root : CJson} {msgId code : Int32}

/-- The task of a message that is read as a response. -/
theorem threadpoolRecvProc_readAs (h : ReadAs root msgId code) :
    threadpoolRecvProc gDevsCb gLogLvl contents (.ofReceived (ledaParseReceiveMsg root)) pending =
      recvRsp gDevsCb (.ofReceived ⟨.rsp, msgId, code, none,
        getObjectItem (some root) (.lit "payload")⟩) pending := by
  rw [ledaParseReceiveMsg_readAs h]
  rfl

/-- The task of a message with a code that is not read as a response does nothing. -/
theorem threadpoolRecvProc_unread (hcode : getObjectItem (some root) (.lit "code") ≠ none)
    (h : ∀ msgId code, ¬ ReadAs root msgId code) :
    threadpoolRecvProc gDevsCb gLogLvl contents (.ofReceived (ledaParseReceiveMsg root)) pending =
      ([], pending) := by
  have htype : (ParsedMsg.ofReceived (ledaParseReceiveMsg root)).msgType = .invalid :=
    ledaParseReceiveMsg_unread hcode h
  rw [threadpoolRecvProc, htype]

/-- A message with a code is delivered exactly if it is heard. -/
theorem deliversTo_iff_heard (hcode : getObjectItem (some root) (.lit "code") ≠ none) :
    DeliversTo gDevsCb (namedInt root (.lit "messageId")) (namedInt root (.lit "code")) pending
        (threadpoolRecvProc gDevsCb gLogLvl contents (.ofReceived (ledaParseReceiveMsg root))
          pending) ↔ Heard gDevsCb root pending := by
  rw [Heard]
  by_cases hread : ∃ msgId code, ReadAs root msgId code
  · obtain ⟨readId, code, hread⟩ := hread
    have hreads (msgId code' : Int32) : ReadAs root msgId code' ↔ readId = msgId ∧ code = code' := by
      refine ⟨fun h ↦ ?_, fun ⟨hid, hc⟩ ↦ hid ▸ hc ▸ hread⟩
      have heq := (ledaParseReceiveMsg_readAs hread).symm.trans (ledaParseReceiveMsg_readAs h)
      exact ⟨congrArg ReceivedMsg.msgId heq, congrArg ReceivedMsg.code heq⟩
    rw [threadpoolRecvProc_readAs hread, hreads]
    by_cases hprints : PayloadPrints root
    · obtain ⟨payloadStr, hstr⟩ := exists_printUnformatted_iff.mpr hprints
      rw [deliversTo_printed_iff (by exact hstr)]
      simp only [hreads, hprints, and_true, forall_const]
      exact or_congr_right (and_congr_right' (and_congr_right'
        ⟨fun h _ _ ⟨hid, _⟩ ↦ hid ▸ h, fun h ↦ h readId code ⟨rfl, rfl⟩⟩))
    · have hnone : printUnformatted (getObjectItem (some root) (.lit "payload")) = none :=
        Option.eq_none_iff_forall_ne_some.mpr fun payloadStr hstr ↦
          hprints (exists_printUnformatted_iff.mp ⟨payloadStr, hstr⟩)
      rw [recvRsp_unprinted (by exact hnone), deliversTo_nothing_iff]
      simp [hprints]
  · have hnever : ∀ msgId code, ¬ ReadAs root msgId code := fun msgId code h ↦
      hread ⟨msgId, code, h⟩
    rw [threadpoolRecvProc_unread hcode hnever, deliversTo_nothing_iff]
    simp [hnever]

/-- A heard message of which nobody is to hear has no effect. -/
theorem threadpoolRecvProc_unheard (hcode : getObjectItem (some root) (.lit "code") ≠ none)
    (h : Heard gDevsCb root pending)
    (hr : wsGetReplyByMsgId (namedInt root (.lit "messageId")) pending = none)
    (hcb : gDevsCb.reportReplyCb = none) :
    threadpoolRecvProc gDevsCb gLogLvl contents (.ofReceived (ledaParseReceiveMsg root)) pending =
      ([], pending) := by
  by_cases hread : ∃ msgId code, ReadAs root msgId code
  · obtain ⟨readId, code, hread⟩ := hread
    rw [threadpoolRecvProc_readAs hread]
    by_cases hprints : PayloadPrints root
    · have habsent : wsGetReplyByMsgId readId pending = none := by
        rcases h with ⟨hsame, -⟩ | ⟨-, -, hwait⟩
        · have heq := (ledaParseReceiveMsg_readAs hread).symm.trans (ledaParseReceiveMsg_readAs hsame)
          rw [show readId = _ from congrArg ReceivedMsg.msgId heq]
          exact hr
        · exact hwait readId code hread hprints
      exact recvRsp_unheard habsent hcb
    · refine recvRsp_unprinted (Option.eq_none_iff_forall_ne_some.mpr fun payloadStr hstr ↦ ?_)
      exact hprints (exists_printUnformatted_iff.mp ⟨payloadStr, hstr⟩)
  · exact threadpoolRecvProc_unread hcode fun msgId code h ↦ hread ⟨msgId, code, h⟩

end Received

/-- Two responses with the same id and the same code are delivered alike exactly if both are
heard. -/
theorem same_outcome_iff (gDevsCb : LedaDeviceCallback P) (gLogLvl : Int32)
    (contents contents' : Nat → LedaDeviceData) (pending : ReplyList) (a b : CJson)
    (h : SameResponse a b) :
    SameOutcome gDevsCb a b pending
        (threadpoolRecvProc gDevsCb gLogLvl contents (.ofReceived (ledaParseReceiveMsg a)) pending)
        (threadpoolRecvProc gDevsCb gLogLvl contents' (.ofReceived (ledaParseReceiveMsg b))
          pending) ↔
      Heard gDevsCb a pending ∧ Heard gDevsCb b pending := by
  obtain ⟨⟨id, id', hid, hid', hideq⟩, code, code', hcode, hcode', hcodeeq⟩ := h
  have hmsgId : namedInt b (.lit "messageId") = namedInt a (.lit "messageId") := by
    rw [namedInt, namedInt, hid, hid']
    exact (saturate_congr hideq).symm
  have hmsgCode : namedInt b (.lit "code") = namedInt a (.lit "code") := by
    rw [namedInt, namedInt, hcode, hcode']
    exact (saturate_congr hcodeeq).symm
  have ha := getObjectItem_ne_none hcode
  have hb := getObjectItem_ne_none hcode'
  rw [SameOutcome, deliversTo_iff_heard ha, deliversTo_iff_heard hb]
  refine ⟨fun h ↦ h.2, fun h ↦ ⟨?_, h⟩⟩
  by_cases hunheard : wsGetReplyByMsgId (namedInt a (.lit "messageId")) pending = none ∧
      gDevsCb.reportReplyCb = none
  · obtain ⟨hnone, hcb⟩ := hunheard
    rw [threadpoolRecvProc_unheard ha h.1 hnone hcb,
      threadpoolRecvProc_unheard hb h.2 (hmsgId ▸ hnone) hcb]
  · obtain ⟨hread, hprints⟩ := h.1.resolve_right fun h ↦ hunheard ⟨h.1, h.2.1⟩
    obtain ⟨hread', hprints'⟩ := h.2.resolve_right fun h ↦ hunheard ⟨hmsgId ▸ h.1, h.2.1⟩
    obtain ⟨payloadStr, hstr⟩ := exists_printUnformatted_iff.mpr hprints
    obtain ⟨payloadStr', hstr'⟩ := exists_printUnformatted_iff.mpr hprints'
    rw [threadpoolRecvProc_readAs hread, threadpoolRecvProc_readAs hread']
    exact outcome_recvRsp_congr hmsgId hmsgCode hstr hstr'

/-- A table without callbacks. -/
def noCallbacks : LedaDeviceCallback Unit := ⟨none, (), none, (), none, 0, (), none, ()⟩

/-- A response to the first call, with what follows its code. -/
def firstResponse (rest : Members) : CJson :=
  .object ((.lit "messageId", .number (.ofInt 1)) :: (.lit "code", .number (.ofInt 0)) :: rest)

/-- The first call is waiting. -/
def firstPending : ReplyList := [⟨1, leErrorUnknown, none, 0⟩]

theorem sameResponse_firstResponse (rest rest' : Members) :
    SameResponse (firstResponse rest) (firstResponse rest') :=
  ⟨⟨_, _, rfl, rfl, by decide +kernel⟩, _, _, rfl, rfl, by decide +kernel⟩

theorem readAs_firstResponse (rest : Members) :
    ReadAs (firstResponse rest) (namedInt (firstResponse rest) (.lit "messageId"))
      (namedInt (firstResponse rest) (.lit "code")) :=
  ⟨⟨_, rfl, rfl⟩, _, rfl, rfl⟩

/-- Two payloads that are both printed. -/
theorem same_outcome_iff_printed :
    SameResponse (firstResponse [(.lit "payload", .null)])
        (firstResponse [(.lit "payload", .object [])]) ∧
      SameOutcome noCallbacks (firstResponse [(.lit "payload", .null)])
        (firstResponse [(.lit "payload", .object [])]) firstPending
        (threadpoolRecvProc noCallbacks 0 (fun _ ↦ zeroDeviceData) (.ofReceived
          (ledaParseReceiveMsg (firstResponse [(.lit "payload", .null)]))) firstPending)
        (threadpoolRecvProc noCallbacks 0 (fun _ ↦ zeroDeviceData) (.ofReceived
          (ledaParseReceiveMsg (firstResponse [(.lit "payload", .object [])]))) firstPending) :=
  ⟨sameResponse_firstResponse _ _,
    (same_outcome_iff noCallbacks 0 (fun _ ↦ zeroDeviceData) (fun _ ↦ zeroDeviceData) firstPending
      _ _ (sameResponse_firstResponse _ _)).mpr
      ⟨.inl ⟨readAs_firstResponse _, .null, rfl, by decide⟩,
        .inl ⟨readAs_firstResponse _, .object [], rfl, by decide⟩⟩⟩

/-- A response without a payload does not wake the call that one with a payload wakes. -/
theorem payload_decides_outcome :
    parse (firstResponse []).renderStr = some (firstResponse []) ∧
      SameResponse (firstResponse []) (firstResponse [(.lit "payload", .object [])]) ∧
      ¬ SameOutcome noCallbacks (firstResponse [])
        (firstResponse [(.lit "payload", .object [])]) firstPending
        (threadpoolRecvProc noCallbacks 0 (fun _ ↦ zeroDeviceData)
          (.ofReceived (ledaParseReceiveMsg (firstResponse []))) firstPending)
        (threadpoolRecvProc noCallbacks 0 (fun _ ↦ zeroDeviceData) (.ofReceived
          (ledaParseReceiveMsg (firstResponse [(.lit "payload", .object [])]))) firstPending) := by
  have hfinite : (firstResponse []).Finite := by
    have hzero : (Binary64.ofInt 0).IsFinite := by
      rw [Binary64.ofInt_eq (by decide)]
      trivial
    exact ⟨finite_ofInt_one, hzero, trivial⟩
  refine ⟨?_, sameResponse_firstResponse _ _, ?_⟩
  · rw [parse_renderStr hfinite, if_pos (by decide)]
  · rintro ⟨-, hdelivers, -⟩
    have hmember : namedMember (firstResponse []) (.lit "code") = some (.number (.ofInt 0)) := rfl
    have hcode := getObjectItem_ne_none hmember
    rcases (deliversTo_iff_heard hcode).mp hdelivers with ⟨-, payload, hpayload, -⟩ | ⟨hnone, -⟩
    · cases hpayload
    · have hid : namedInt (firstResponse []) (.lit "messageId") = 1 := saturate_ofInt 1
      rw [hid] at hnone
      cases hnone

end Responses

end LedaSdk.Leda
