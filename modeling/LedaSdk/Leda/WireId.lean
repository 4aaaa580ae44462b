import LedaSdk.Json.RoundTrip
import LedaSdk.Leda.RecvProc
import LedaSdk.Leda.ReplyRouting

/-!
# Message ids on the wire

An id is an `unsigned int` when a request is built, a `double` in the tree, decimal text on
the wire, and an `int` when a message is taken apart, where it stops at `INT_MAX`. The list
of pending replies is searched, and requests are answered, with that `int`.
-/

namespace LedaSdk.Leda
open LedaSdk.Base LedaSdk.Json

/-- A message that carries back the message id of a sent one: the number that the text of
the sent id denotes. -/
def Echoes (sent received : CJson) : Prop :=
  ∃ id id', getObjectItem (some sent) (.lit "messageId") = some (.number id) ∧
    strtod (numberText id) = some (id', []) ∧
    getObjectItem (some received) (.lit "messageId") = some (.number id')

section Numbers
variable (id : UInt32)

private theorem natAbs_toNat_le : (id.toNat : Int).natAbs ≤ 2 ^ 53 := by
  have := id.toNat_lt
  omega

private theorem isFinite_ofInt {n : Int} (h : n.natAbs ≤ 2 ^ 53) : (Binary64.ofInt n).IsFinite := by
  rw [Binary64.ofInt_eq h]
  trivial

private theorem ofInt_inj {m n : Int} (hm : m.natAbs ≤ 2 ^ 53) (hn : n.natAbs ≤ 2 ^ 53)
    (h : Binary64.ofInt m = .ofInt n) : m = n := by
  rw [← Binary64.trunc_ofInt hm, h, Binary64.trunc_ofInt hn]

/-- An id that fits in an `int` keeps its value there. -/
private theorem toInt_toInt32 (h : id.toNat ≤ 2147483647) : id.toInt32.toInt = id.toNat := by
  rw [← Int32.toInt_toBitVec, UInt32.toBitVec_toInt32, BitVec.toInt_eq_toNat_of_lt]
  · rfl
  · rw [UInt32.toNat_toBitVec]
    omega

/-- The `valueint` of an id. -/
theorem saturate_id : saturate (.ofInt id.toNat) = wireId id := by
  rw [wireId]
  split
  · next h => rw [← toInt_toInt32 id h, saturate_ofInt]
  · next h => exact saturate_of_intMax_le (by rw [intMax]; omega) (natAbs_toNat_le id)

/-- The `int` of an id converts to the same number exactly up to `INT_MAX`. -/
theorem ofInt_wireId_iff :
    Binary64.ofInt (wireId id).toInt = .ofInt id.toNat ↔ id.toNat ≤ 2147483647 := by
  constructor
  · intro h
    have heq := ofInt_inj (natAbs_toInt_le (wireId id)) (natAbs_toNat_le id) h
    have := (wireId id).toInt_lt
    omega
  · intro h
    rw [wireId, if_pos h, toInt_toInt32 id h]

/-- The `int` of an id is the key of its pending reply exactly up to `INT_MAX`. -/
theorem wireId_eq_toInt32_iff : wireId id = id.toInt32 ↔ id.toNat ≤ 2147483647 := by
  constructor
  · intro h
    apply (ofInt_wireId_iff id).mp
    by_contra hne
    have hbig : ¬ id.toNat ≤ 2147483647 := fun hle ↦ hne ((ofInt_wireId_iff id).mpr hle)
    rw [wireId, if_neg hbig] at h
    have hid : id = 2147483647 := by
      rw [← UInt32.toUInt32_toInt32 id, ← h]
      rfl
    exact hbig (by rw [hid]; decide)
  · intro h
    rw [wireId, if_pos h]

/-- The `int` of an id converts back to the id exactly up to `INT_MAX`. -/
theorem toUInt32_wireId_iff : (wireId id).toUInt32 = id ↔ id.toNat ≤ 2147483647 := by
  rw [← wireId_eq_toInt32_iff]
  constructor
  · intro h
    rw [← Int32.toInt32_toUInt32 (wireId id), h]
  · intro h
    rw [h, UInt32.toUInt32_toInt32]

/-- Two ids become the same `int` exactly from `INT_MAX` on. -/
theorem wireId_eq_iff {a b : UInt32} (hne : a ≠ b) :
    wireId a = wireId b ↔ 2147483647 ≤ a.toNat ∧ 2147483647 ≤ b.toNat := by
  have key : ∀ {a b : UInt32}, a ≠ b → wireId a = wireId b → a.toNat ≤ 2147483647 →
      2147483647 ≤ a.toNat := by
    intro a b hne h ha
    rw [wireId, if_pos ha] at h
    by_cases hb : b.toNat ≤ 2147483647
    · rw [wireId, if_pos hb] at h
      exact absurd (toInt32_inj.mp h) hne
    · rw [wireId, if_neg hb] at h
      have : a = 2147483647 := by
        rw [← UInt32.toUInt32_toInt32 a, h]
        rfl
      rw [this]
      decide
  have top : ∀ {a : UInt32}, 2147483647 ≤ a.toNat → wireId a = 2147483647 := by
    intro a ha
    rw [wireId]
    split
    · next hle =>
      have : a = 2147483647 := UInt32.toNat.inj (by rw [show (2147483647 : UInt32).toNat = 2147483647 by decide]; omega)
      rw [this]
      rfl
    · rfl
  constructor
  · intro h
    constructor
    · by_cases ha : a.toNat ≤ 2147483647
      · exact key hne h ha
      · omega
    · by_cases hb : b.toNat ≤ 2147483647
      · exact key hne.symm h.symm hb
      · omega
  · rintro ⟨ha, hb⟩
    rw [top ha, top hb]

end Numbers

section Messages
variable {P : Type} {id : UInt32} {sent received : CJson}

/-- The echo of an id is the number of the id. -/
theorem Echoes.getObjectItem (h : Echoes sent received)
    (hsent : getObjectItem (some sent) (.lit "messageId") = some (.number (.ofInt id.toNat))) :
    getObjectItem (some received) (.lit "messageId") = some (.number (.ofInt id.toNat)) := by
  obtain ⟨d, d', hd, hread, hreceived⟩ := h
  obtain rfl : d = .ofInt id.toNat := by
    rw [hd] at hsent
    cases hsent
    rfl
  rw [strtod_numberText (isFinite_ofInt (natAbs_toNat_le id))] at hread
  cases hread
  exact hreceived

/-- The id of a message is taken over whatever else the message holds. -/
theorem msgId_ledaParseReceiveMsg
    (h : getObjectItem (some received) (.lit "messageId") = some (.number (.ofInt id.toNat))) :
    (ledaParseReceiveMsg received).msgId = wireId id := by
  rw [ledaParseReceiveMsg, h, ← saturate_id]
  simp only
  split
  · rfl
  · rfl
  · split
    · rfl
    · rfl

/-- A printable response whose id is not pending reaches a registered `report_reply_cb`. -/
theorem reply_recvRsp (gDevsCb : LedaDeviceCallback P) (hcb : gDevsCb.reportReplyCb.isSome)
    (parsedMsg : ParsedMsg) (hpayload : (printUnformatted parsedMsg.payload).isSome)
    (pending : ReplyList) :
    (recvRsp gDevsCb parsedMsg pending).1.filterMap Event.reply? =
      if wsGetReplyByMsgId parsedMsg.msgId pending = none then
        [(parsedMsg.msgId.toUInt32, parsedMsg.code)]
      else [] := by
  obtain ⟨cb, hcb⟩ := Option.isSome_iff_exists.mp hcb
  obtain ⟨payloadStr, hpayload⟩ := Option.isSome_iff_exists.mp hpayload
  rw [recvRsp, hpayload]
  cases hfind : wsGetReplyByMsgId parsedMsg.msgId pending with
  | none =>
    simp only [wsSetReplyResult_absent hfind, hcb]
    rfl
  | some r =>
    simp only [wsSetReplyResult_present hfind, hcb]
    rfl

/-- Exactly the ids up to `INT_MAX` survive: a response finds the key of the call or passes
the id of the report to the callback, and a request is answered with its own id. Two ids
become the same key exactly from `INT_MAX` on. -/
theorem wire_id_kept_iff (P : Type) (id : UInt32) :
    (∀ pk dn method response code, Echoes (sendMethodRoot id pk dn method) response →
      getObjectItem (some response) (.lit "code") = some (.number code) →
      (ledaParseReceiveMsg response).msgType = .rsp ∧
        ((ledaParseReceiveMsg response).msgId = id.toInt32 ↔ id.toNat ≤ 2147483647)) ∧
    (∀ gLogLvl pk dn method eventName data report response code,
      asynSendMethodRoot gLogLvl id pk dn method eventName data = some (some report) →
      Echoes report response →
      getObjectItem (some response) (.lit "code") = some (.number code) →
      (printUnformatted (getObjectItem (some response) (.lit "payload"))).isSome →
      ∀ (gDevsCb : LedaDeviceCallback P) (contents : Nat → LedaDeviceData) (pending : ReplyList),
        gDevsCb.reportReplyCb.isSome → wsGetReplyByMsgId id.toInt32 pending = none →
        ((threadpoolRecvProc gDevsCb gLogLvl contents
            (.ofReceived (ledaParseReceiveMsg response)) pending).1.filterMap Event.reply? =
              [(id, saturate code)] ↔ id.toNat ≤ 2147483647)) ∧
    (∀ request, getObjectItem (some request) (.lit "messageId") = some (.number (.ofInt id.toNat)) →
      ∀ code payload, ∀ response ∈ (ledaSendRsp code (ledaParseReceiveMsg request).msgId payload :
          List (Event P)).filterMap Event.sent?,
        (getObjectItem (some response) (.lit "messageId") =
          getObjectItem (some request) (.lit "messageId") ↔ id.toNat ≤ 2147483647)) ∧
    ∀ other, other ≠ id → ∀ message message',
      getObjectItem (some message) (.lit "messageId") = some (.number (.ofInt id.toNat)) →
      getObjectItem (some message') (.lit "messageId") = some (.number (.ofInt other.toNat)) →
      ((ledaParseReceiveMsg message).msgId = (ledaParseReceiveMsg message').msgId ↔
        2147483647 ≤ id.toNat ∧ 2147483647 ≤ other.toNat) := by
  constructor
  · intro pk dn method response code hecho hcode
    have hid := hecho.getObjectItem (getObjectItem_sendMethodRoot id pk dn method)
    constructor
    · rw [ledaParseReceiveMsg_rsp hid hcode]
    · rw [msgId_ledaParseReceiveMsg hid, wireId_eq_toInt32_iff]
  constructor
  · intro gLogLvl pk dn method eventName data report response code hreport hecho hcode hpayload
      gDevsCb contents pending hcb hpending
    have hid := hecho.getObjectItem (getObjectItem_asynSendMethodRoot hreport)
    rw [ledaParseReceiveMsg_rsp hid hcode, saturate_id]
    generalize hm : ParsedMsg.ofReceived ⟨.rsp, wireId id, saturate code, none,
      getObjectItem (some response) (.lit "payload")⟩ = m
    have hreply := reply_recvRsp gDevsCb hcb m (by rw [← hm]; exact hpayload) pending
    have htype : m.msgType = .rsp := by rw [← hm]; rfl
    have hkey : m.msgId = wireId id := by rw [← hm]; rfl
    have hcode : m.code = saturate code := by rw [← hm]; rfl
    simp only [threadpoolRecvProc, htype]
    rw [hreply, hkey, hcode]
    constructor
    · intro hevents
      split at hevents
      · exact (toUInt32_wireId_iff id).mp (Prod.mk.inj (List.cons.inj hevents).1).1
      · cases hevents
    · intro hle
      rw [(wireId_eq_toInt32_iff id).mpr hle, if_pos hpending, UInt32.toUInt32_toInt32]
  constructor
  · intro request hid code payload response hresponse
    rw [ledaSendRsp, sent_addRspMsg] at hresponse
    split at hresponse
    · rw [List.mem_singleton.mp hresponse, (getObjectItem_rspRoot _ _ _).2.1, hid,
        msgId_ledaParseReceiveMsg hid, ← ofInt_wireId_iff, Option.some.injEq, CJson.number.injEq]
    · cases hresponse
  · intro other hne message message' hid hother
    rw [msgId_ledaParseReceiveMsg hid, msgId_ledaParseReceiveMsg hother, wireId_eq_iff hne.symm]

/-- A table with only `report_reply_cb`. -/
def reportListener : LedaDeviceCallback Unit where
  getPropertiesCb := none
  usrDataGetProperty := ()
  setPropertiesCb := none
  usrDataSetProperty := ()
  callServiceCb := none
  serviceOutputMaxCount := 0
  usrDataCallService := ()
  reportReplyCb := some ⟨(), fun _ _ _ ↦ leSuccess⟩
  usrDataReportReply := ()

/-- The id 7 survives: its echo finds the entry of a call and passes the id of a report, a
request that carries it is answered with it, and the next id is another key. -/
theorem wire_id_kept_seven :
    let echo := rspRoot 0 7 none
    let online := sendMethodRoot 7 (.lit "pk") (.lit "dn") methodOnline
    let temperature : LedaDeviceData :=
      ⟨LedaDataType.int.toInt32, .snprintf 64 (.lit "temperature"), .snprintf 2048 (.lit "21")⟩
    ((ledaParseReceiveMsg echo).msgType = .rsp ∧
        (ledaParseReceiveMsg echo).msgId = (7 : UInt32).toInt32) ∧
      (∃ report, asynSendMethodRoot 0 7 (.lit "pk") (.lit "dn") methodReportProperty none
          [temperature] = some (some report) ∧ Echoes report echo) ∧
      (threadpoolRecvProc reportListener 0 (fun _ ↦ zeroDeviceData)
        (.ofReceived (ledaParseReceiveMsg echo)) []).1.filterMap Event.reply? = [(7, 0)] ∧
      (ledaSendRsp 0 (ledaParseReceiveMsg online).msgId none : List (Event Unit)).filterMap
        Event.sent? = [echo] ∧
      getObjectItem (some echo) (.lit "messageId") =
        getObjectItem (some online) (.lit "messageId") ∧
      (ledaParseReceiveMsg online).msgId ≠
        (ledaParseReceiveMsg (sendMethodRoot 8 (.lit "pk") (.lit "dn") methodOnline)).msgId := by
  intro echo online temperature
  have h7 : (7 : UInt32).toNat ≤ 2147483647 := by decide
  obtain ⟨hcall, hreport, hrequest, hother⟩ := wire_id_kept_iff Unit 7
  have hread : strtod (numberText (.ofInt (7 : UInt32).toNat)) =
      some (.ofInt (7 : UInt32).toNat, []) :=
    strtod_numberText (isFinite_ofInt (natAbs_toNat_le 7))
  have hechoes {root : CJson} (hroot : getObjectItem (some root) (.lit "messageId") =
      some (.number (.ofInt (7 : UInt32).toNat))) : Echoes root echo :=
    ⟨_, _, hroot, hread, rfl⟩
  obtain ⟨hcode, -, -⟩ := getObjectItem_rspRoot 0 7 none
  have hid := getObjectItem_sendMethodRoot 7 (.lit "pk") (.lit "dn") methodOnline
  have hsent : (ledaSendRsp 0 (ledaParseReceiveMsg online).msgId none :
      List (Event Unit)).filterMap Event.sent? = [echo] := by
    have hkey : (ledaParseReceiveMsg online).msgId = 7 := msgId_ledaParseReceiveMsg hid
    rw [hkey, ledaSendRsp, sent_addRspMsg, if_pos (rspRoot_fits 0 7)]
  obtain ⟨report, hroot⟩ : ∃ report, asynSendMethodRoot 0 7 (.lit "pk") (.lit "dn")
      methodReportProperty none [temperature] = some (some report) := ⟨_, rfl⟩
  have hecho := hechoes (getObjectItem_asynSendMethodRoot hroot)
  obtain ⟨htype, hkey⟩ := hcall _ _ _ echo _ (hechoes hid) hcode
  refine ⟨⟨htype, hkey.mpr h7⟩, ⟨report, hroot, hecho⟩, ?_, hsent, ?_, ?_⟩
  · have hreply := (hreport 0 _ _ _ none _ report echo _ hroot hecho hcode (by decide)
      reportListener (fun _ ↦ zeroDeviceData) [] rfl rfl).mpr h7
    rw [saturate_ofInt] at hreply
    exact hreply
  · exact (hrequest online hid 0 none echo (by rw [hsent]; exact List.mem_singleton_self _)).mpr h7
  · have hkeys := hother 8 (by decide) online _ hid
      (getObjectItem_sendMethodRoot 8 (.lit "pk") (.lit "dn") methodOnline)
    exact fun heq ↦ absurd (hkeys.mp heq).1 (by decide)

/-- From `2 ^ 31` on an id does not survive: its echo is looked up, passed on and answered as
`INT_MAX`, and so is that of the next id. -/
theorem large_id_not_kept :
    let key (text : String) := (cbWsRecv (some (.lit text))).map fun m ↦ (m.msgType, m.msgId)
    key "\x7b\"code\":0,\"messageId\":2147483648,\"payload\":\x7b\x7d\x7d" =
        some (.rsp, 2147483647) ∧
      key "\x7b\"code\":0,\"messageId\":2147483649,\"payload\":\x7b\x7d\x7d" =
        some (.rsp, 2147483647) ∧
      key "\x7b\"messageId\":2147483648,\"method\":\"getProperty\"\x7d" =
        some (.method, 2147483647) ∧
      (2147483648 : UInt32).toInt32 ≠ 2147483647 ∧
      (2147483647 : Int32).toUInt32 ≠ 2147483648 ∧
      (rspRoot 0 2147483647 none).renderStr =
        .lit "\x7b\"code\":0,\"messageId\":2147483647,\"payload\":\x7b\x7d\x7d" := by
  decide +kernel

end Messages

end LedaSdk.Leda
