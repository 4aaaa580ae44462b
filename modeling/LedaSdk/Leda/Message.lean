import LedaSdk.Leda.DeviceData

/-!
# Messages of the protocol

`sdk/leda.c:47–58,62–85,501–541,756–849,877–1075`: the JSON trees that the SDK sends
and the classification of the ones it receives. Allocation succeeds.
-/

namespace LedaSdk.Leda
open LedaSdk.Base LedaSdk.Json

/-- `METHOD_ONLINE`. -/
def methodOnline : CStr := .lit "onlineDevice"

/-- `EMTHOD_REPORT_PROPERTY`. -/
def methodReportProperty : CStr := .lit "reportProperty"

/-- `METHOD_CALL_SERVICE`. -/
def methodCallService : CStr := .lit "callService"

/-- `METHOD_GET_PROPERTY`. -/
def methodGetProperty : CStr := .lit "getProperty"

/-- `METHOD_SET_PROPERTY`. -/
def methodSetProperty : CStr := .lit "setProperty"

/-- The requests that are served have different methods. -/
theorem served_methods_ne : methodGetProperty ≠ methodSetProperty ∧
    methodGetProperty ≠ methodCallService ∧ methodSetProperty ≠ methodCallService := by decide

/-- `PROTOCOL_VERSION`. -/
def protocolVersion : CStr := .lit "1.0"

/-- The members of a request before its payload, `leda.c:923–925` and `leda.c:1021–1023`. -/
def methodHeader (msgId : UInt32) (method : CStr) : Members :=
  let root := addStringToObject [] (.lit "version") protocolVersion
  let root := addNumberToObject root (.lit "messageId") (.ofInt msgId.toNat)
  addStringToObject root (.lit "method") method

/-- The members of a payload that name the device. -/
def devicePayload (pk dn : CStr) : Members :=
  addStringToObject (addStringToObject [] (.lit "productKey") pk) (.lit "deviceName") dn

/-- The tree that `leda_send_method` prints, `leda.c:923–929`. -/
def sendMethodRoot (msgId : UInt32) (pk dn method : CStr) : CJson :=
  .object (addItemToObject (methodHeader msgId method) (.lit "payload")
    (some (.object (devicePayload pk dn))))

/-- The tree that `leda_asyn_send_method` prints, `leda.c:1021–1045`; it gives up when the
data cannot be encoded. -/
def asynSendMethodRoot (gLogLvl : Int32) (msgId : UInt32) (pk dn method : CStr)
    (eventName : Option CStr) (data : List LedaDeviceData) : Option (Option CJson) := do
  let params ← structDataToJsonData gLogLvl data
  return params.map fun params ↦
    let payload := match eventName with
      | some event =>
        let payload := addStringToObject (devicePayload pk dn) (.lit "identifier") event
        addItemToObject payload (.lit "outputData") (some params)
      | none => addItemToObject (devicePayload pk dn) (.lit "properties") (some params)
    .object (addItemToObject (methodHeader msgId method) (.lit "payload") (some (.object payload)))

/-- The tree that `leda_send_rsp` prints, `leda.c:507–528`. -/
def rspRoot (code msgId : Int32) (payload : Option CJson) : CJson :=
  let root := addNumberToObject [] (.lit "code") (.ofInt code.toInt)
  let root := addNumberToObject root (.lit "messageId") (.ofInt msgId.toInt)
  .object (addItemToObject root (.lit "payload") (some (payload.getD (.object []))))

/-- `ws_msg_type_e`, `leda.c:80–85`. -/
inductive WsMsgType where
  | invalid
  | rsp
  | method
  deriving DecidableEq, Repr

/-- What `leda_parse_receive_msg` returns and writes through its pointers. -/
structure ReceivedMsg where
  msgType : WsMsgType := .invalid
  msgId : Int32 := 0
  code : Int32 := 0
  method : Option CStr := none
  payload : Option CJson := none

/-- `leda_parse_receive_msg`, `leda.c:756–790`. -/
def ledaParseReceiveMsg (root : CJson) : ReceivedMsg :=
  match getObjectItem (some root) (.lit "messageId") with
  | some (.number id) =>
    let received : ReceivedMsg :=
      { msgId := saturate id, payload := getObjectItem (some root) (.lit "payload") }
    match getObjectItem (some root) (.lit "code") with
    | some (.number code) => { received with msgType := .rsp, code := saturate code }
    | some _ => received
    | none =>
      match getObjectItem (some root) (.lit "method") with
      | some (.string method) => { received with msgType := .method, method := some method }
      | _ => received
  | _ => {}

/-- `parsed_msg_t`, `leda.c:62–69`. -/
structure ParsedMsg where
  msgType : WsMsgType
  msgId : Int32
  code : Int32
  method : CharBuf 16
  payload : Option CJson

/-- A copied method is compared with a short name as the method itself is. -/
theorem ParsedMsg.method_str_eq_iff {parsedMsg : ParsedMsg} {method : CStr}
    (h : parsedMsg.method = .snprintf 16 method) (name : CStr) (hname : name.length + 1 < 16) :
    parsedMsg.method.str = name ↔ method = name := by
  rw [h, CharBuf.snprintf_str_eq_iff hname]

/-- The task that `cb_ws_recv` hands to the thread pool, `leda.c:818–843`. -/
def ParsedMsg.ofReceived (r : ReceivedMsg) : ParsedMsg where
  msgType := r.msgType
  msgId := r.msgId
  code := r.code
  method := .snprintf 16 (r.method.getD (.lit ""))
  payload := r.payload

/-- `cb_ws_recv`, `leda.c:792–849`: the task it adds, if any. -/
def cbWsRecv (msg : Option CStr) : Option ParsedMsg :=
  (msg.bind parse).map fun root ↦ .ofReceived (ledaParseReceiveMsg root)

/-- The number of a request is its id. -/
theorem getObjectItem_sendMethodRoot (msgId : UInt32) (pk dn method : CStr) :
    getObjectItem (some (sendMethodRoot msgId pk dn method)) (.lit "messageId") =
      some (.number (.ofInt msgId.toNat)) := rfl

theorem getObjectItem_asynSendMethodRoot {gLogLvl : Int32} {msgId : UInt32} {pk dn method : CStr}
    {eventName : Option CStr} {data : List LedaDeviceData} {root : CJson}
    (h : asynSendMethodRoot gLogLvl msgId pk dn method eventName data = some (some root)) :
    getObjectItem (some root) (.lit "messageId") = some (.number (.ofInt msgId.toNat)) := by
  rw [asynSendMethodRoot] at h
  cases hparams : structDataToJsonData gLogLvl data with
  | none =>
    rw [hparams] at h
    cases h
  | some params =>
    rw [hparams] at h
    cases params with
    | none => cases h
    | some params =>
      cases h
      rfl

section Responses
variable (code msgId : Int32) (payload : Option CJson)

/-- A response carries the code, the id and the payload it is built from. -/
theorem getObjectItem_rspRoot :
    getObjectItem (some (rspRoot code msgId payload)) (.lit "code") =
        some (.number (.ofInt code.toInt)) ∧
      getObjectItem (some (rspRoot code msgId payload)) (.lit "messageId") =
        some (.number (.ofInt msgId.toInt)) ∧
      getObjectItem (some (rspRoot code msgId payload)) (.lit "payload") =
        some (payload.getD (.object [])) :=
  ⟨rfl, rfl, rfl⟩

-- The numbers are variables here: the kernel would evaluate conversions to `double`.
private theorem render_rspMembers (c i : Binary64) (p : CJson) :
    (CJson.object [(.lit "code", .number c), (.lit "messageId", .number i),
      (.lit "payload", p)]).render = text "\x7b\"code\":" ++ numberText c ++
        text ",\"messageId\":" ++ numberText i ++ text ",\"payload\":" ++ p.render ++
        text "\x7d" := by
  have hcode : quoted (.lit "code") = text "\"code\"" := by decide
  have hid : quoted (.lit "messageId") = text "\"messageId\"" := by decide
  have hpayload : quoted (.lit "payload") = text "\"payload\"" := by decide
  simp only [CJson.render, renderMembers, hcode, hid, hpayload, reduceCtorEq, if_false, if_true]
  simp [text]

/-- The text of a response around the texts of its parts. -/
theorem render_rspRoot :
    (rspRoot code msgId payload).render = text "\x7b\"code\":" ++ numberText (.ofInt code.toInt) ++
      text ",\"messageId\":" ++ numberText (.ofInt msgId.toInt) ++ text ",\"payload\":" ++
      (payload.getD (.object [])).render ++ text "\x7d" :=
  render_rspMembers _ _ _

/-- Around its payload a response is short. -/
theorem rspRoot_fits_of_le (h : (payload.getD (.object [])).render.length ≤ 1000) :
    (rspRoot code msgId payload).render.length + 2 ≤ intMax.toNat := by
  have hcode := length_numberText_le (.ofInt code.toInt)
  have hid := length_numberText_le (.ofInt msgId.toInt)
  have hmax : intMax.toNat = 2147483647 := by decide
  have htexts : (text "\x7b\"code\":").length = 8 ∧ (text ",\"messageId\":").length = 13 ∧
      (text ",\"payload\":").length = 11 ∧ (text "\x7d").length = 1 := by decide
  rw [render_rspRoot, hmax]
  simp only [List.length_append]
  omega

/-- A response without a payload is always printed. -/
theorem rspRoot_fits : (rspRoot code msgId none).render.length + 2 ≤ intMax.toNat :=
  rspRoot_fits_of_le code msgId none (by decide)

end Responses

section Received
variable {root : CJson}

/-- Which messages are requests. -/
theorem msgType_eq_method_iff :
    (ledaParseReceiveMsg root).msgType = .method ↔
      ∃ id method, getObjectItem (some root) (.lit "messageId") = some (.number id) ∧
        getObjectItem (some root) (.lit "code") = none ∧
        getObjectItem (some root) (.lit "method") = some (.string method) ∧
        ledaParseReceiveMsg root = ⟨.method, saturate id, 0, some method,
          getObjectItem (some root) (.lit "payload")⟩ := by
  constructor
  · intro h
    generalize hr : ledaParseReceiveMsg root = r at h
    unfold ledaParseReceiveMsg at hr
    split at hr
    · next id hid =>
      split at hr
      · rw [← hr] at h
        cases h
      · rw [← hr] at h
        cases h
      · next hcode =>
        split at hr
        · next method hmethod => exact ⟨id, method, hid, hcode, hmethod, hr.symm⟩
        · rw [← hr] at h
          cases h
    · rw [← hr] at h
      cases h
  · rintro ⟨id, method, -, -, -, h⟩
    rw [h]

/-- A message with a numeric id and a numeric code is a response. -/
theorem ledaParseReceiveMsg_rsp {id code : Binary64}
    (hid : getObjectItem (some root) (.lit "messageId") = some (.number id))
    (hcode : getObjectItem (some root) (.lit "code") = some (.number code)) :
    ledaParseReceiveMsg root = ⟨.rsp, saturate id, saturate code, none,
      getObjectItem (some root) (.lit "payload")⟩ := by
  rw [ledaParseReceiveMsg, hid, hcode]

end Received

end LedaSdk.Leda
