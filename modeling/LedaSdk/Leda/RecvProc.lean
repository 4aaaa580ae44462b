import LedaSdk.Base.CInt
import LedaSdk.Leda.CallSystem
import LedaSdk.Leda.Message

/-!
# Serving a received message

`sdk/leda.c:501–754` and `sdk/export/include/leda.h:86–162`: the registered callbacks, the
functions that answer a request and `threadpool_recv_proc`. What a task does is the list of
the callbacks it invokes and the messages it sends, in order. Addresses have the type `P`.
-/

namespace LedaSdk.Leda
open LedaSdk.Base LedaSdk.Json

/-- A function pointer that is not null: its address and the function there. -/
structure FunctionPtr (P F : Type) where
  addr : P
  fn : F

/-- `get_properties_callback`, `leda.h:86–90`: the result and what it leaves in the array. -/
abbrev GetPropertiesCallback (P : Type) :=
  Option CStr → Option CStr → List LedaDeviceData → Int32 → P → Int32 × (Nat → LedaDeviceData)

/-- `set_properties_callback`, `leda.h:106–110`. -/
abbrev SetPropertiesCallback (P : Type) :=
  Option CStr → Option CStr → List LedaDeviceData → Int32 → P → Int32

/-- `call_service_callback`, `leda.h:127–133`: the result and what it leaves in the output
array. -/
abbrev CallServiceCallback (P : Type) :=
  Option CStr → Option CStr → Option CStr → List LedaDeviceData → Int32 →
    List LedaDeviceData → P → Int32 × (Nat → LedaDeviceData)

/-- `report_reply_callback`, `leda.h:143`. -/
abbrev ReportReplyCallback (P : Type) := UInt32 → Int32 → P → Int32

/-- `leda_device_callback_t`, `leda.h:148–162`; a callback that is not registered is `none`. -/
structure LedaDeviceCallback (P : Type) where
  getPropertiesCb : Option (FunctionPtr P (GetPropertiesCallback P))
  usrDataGetProperty : P
  setPropertiesCb : Option (FunctionPtr P (SetPropertiesCallback P))
  usrDataSetProperty : P
  callServiceCb : Option (FunctionPtr P (CallServiceCallback P))
  serviceOutputMaxCount : Int32
  usrDataCallService : P
  reportReplyCb : Option (FunctionPtr P (ReportReplyCallback P))
  usrDataReportReply : P

/-- An invocation of a callback with its arguments and its result, or a call of
`wsc_add_msg`, where `root` is the tree that the message is the text of. -/
inductive Event (P : Type) where
  | getProperties (pk dn : Option CStr) (data : List LedaDeviceData) (dataCnt : Int32)
      (usrData : P) (ret : Int32)
  | setProperties (pk dn : Option CStr) (data : List LedaDeviceData) (dataCnt : Int32)
      (usrData : P) (ret : Int32)
  | callService (pk dn serviceName : Option CStr) (data : List LedaDeviceData) (dataCnt : Int32)
      (usrData : P) (ret : Int32)
  | reportReply (msgId : UInt32) (code : Int32) (usrData : P) (ret : Int32)
  | addMsg (root : CJson) (msg : CStr) (len : Nat) (type : Int32)
  /-- Undefined behaviour, after which nothing is known. -/
  | undefined

section Responses
variable {P : Type} (gDevsCb : LedaDeviceCallback P) (gLogLvl : Int32)

/-- The end of `leda_send_rsp`, `leda.c:529–540`. -/
def addRspMsg (root : CJson) : List (Event P) :=
  match printUnformatted (some root) with
  | none => []
  | some msg => [.addMsg root msg (msg.length + 1) 0]

/-- `leda_send_rsp`, `leda.c:501–541`; no caller reads its result. -/
def ledaSendRsp (code msgId : Int32) (payload : Option CJson) : List (Event P) :=
  addRspMsg (rspRoot code msgId payload)

/-- The invocation in `leda_rsp_get_properties`, `leda.c:560–567`: the result, the array
afterwards and the event. -/
def invokeGetProperties (pk dn : Option CStr) (data : List LedaDeviceData) (dataCnt : Int32) :
    Int32 × List LedaDeviceData × List (Event P) :=
  match gDevsCb.getPropertiesCb with
  | none => (leErrorUnknown, data, [])
  | some cb =>
    let (ret, written) := cb.fn pk dn data dataCnt gDevsCb.usrDataGetProperty
    (ret, data.mapIdx fun i _ ↦ written i,
      [.getProperties pk dn data dataCnt gDevsCb.usrDataGetProperty ret])

/-- `leda_rsp_get_properties`, `leda.c:543–576`. -/
def ledaRspGetProperties (pk dn : Option CStr) (msgId : Int32) (data : List LedaDeviceData)
    (dataCnt : Int32) : List (Event P) :=
  let (ret, data, events) := invokeGetProperties gDevsCb pk dn data dataCnt
  events ++
    if ret = leSuccess then
      match structDataToJsonData gLogLvl data with
      | none => [.undefined]
      | some properties =>
        ledaSendRsp ret msgId (some (.object (addItemToObject [] (.lit "properties") properties)))
    else ledaSendRsp ret msgId (some (.object []))

/-- The invocation in `leda_rsp_set_properties`, `leda.c:582–589`; the callback is passed its
own address in the place of the user's data. -/
def invokeSetProperties (pk dn : Option CStr) (data : List LedaDeviceData) (dataCnt : Int32) :
    Int32 × List (Event P) :=
  match gDevsCb.setPropertiesCb with
  | none => (leErrorUnknown, [])
  | some cb =>
    let ret := cb.fn pk dn data dataCnt cb.addr
    (ret, [.setProperties pk dn data dataCnt cb.addr ret])

/-- `leda_rsp_set_properties`, `leda.c:578–592`. -/
def ledaRspSetProperties (pk dn : Option CStr) (msgId : Int32) (data : List LedaDeviceData)
    (dataCnt : Int32) : List (Event P) :=
  let (ret, events) := invokeSetProperties gDevsCb pk dn data dataCnt
  events ++ ledaSendRsp ret msgId none

/-- `sizeof(leda_device_data_t)`. -/
def sizeofLedaDeviceData : Nat := 2116

/-- `PTRDIFF_MAX`: an object is not larger, so `malloc` refuses to allocate one. -/
def ptrdiffMax : Nat := 2 ^ 63 - 1

/-- An entry of an array after `memset` to 0. -/
def zeroDeviceData : LedaDeviceData := ⟨0, .snprintf 64 (.lit ""), .snprintf 2048 (.lit "")⟩

/-- The invocation in `leda_rsp_call_service`, `leda.c:613–624`: the result, the output array
afterwards and the event. -/
def invokeCallService (pk dn serviceName : Option CStr) (inputParams : List LedaDeviceData)
    (paramsCnt : Int32) (outputParams : List LedaDeviceData) :
    Int32 × List LedaDeviceData × List (Event P) :=
  match gDevsCb.callServiceCb with
  | none => (leErrorUnknown, outputParams, [])
  | some cb =>
    let (ret, written) :=
      cb.fn pk dn serviceName inputParams paramsCnt outputParams gDevsCb.usrDataCallService
    (ret, outputParams.mapIdx fun i _ ↦ written i,
      [.callService pk dn serviceName inputParams paramsCnt gDevsCb.usrDataCallService ret])

/-- The entries of the output array that are sent, `leda.c:626–634`. -/
def outputPrefix (outputParams : List LedaDeviceData) : List LedaDeviceData :=
  outputParams.takeWhile fun d ↦ d.key.str.length ≠ 0

/-- `leda_rsp_call_service`, `leda.c:594–657`; a negative count makes a size that `malloc`
refuses. -/
def ledaRspCallService (pk dn : Option CStr) (msgId : Int32) (serviceName : Option CStr)
    (inputParams : List LedaDeviceData) (paramsCnt : Int32) : List (Event P) :=
  let count := gDevsCb.serviceOutputMaxCount
  if ptrdiffMax < sizeMul sizeofLedaDeviceData (toSize count.toInt) then []
  else
    let outputParams := List.replicate count.toNatClampNeg zeroDeviceData
    let (ret, outputParams, events) :=
      invokeCallService gDevsCb pk dn serviceName inputParams paramsCnt outputParams
    events ++
      if gDevsCb.callServiceCb.isSome ∧ ret ≠ leSuccess then ledaSendRsp ret msgId none
      else
        match structDataToJsonData gLogLvl (outputPrefix outputParams) with
        | none => [.undefined]
        | some params =>
          ledaSendRsp ret msgId (some (.object (addItemToObject [] (.lit "outputData") params)))

end Responses

section Dispatch
variable {P : Type} (gDevsCb : LedaDeviceCallback P) (gLogLvl : Int32)

/-- The dispatch on the method, `leda.c:718–734`, with the decoded data. -/
def dispatchMethod (parsedMsg : ParsedMsg) (pk dn : Option CStr) (decoded : DecodedData) :
    List (Event P) :=
  if parsedMsg.method.str = methodGetProperty then
    ledaRspGetProperties gDevsCb gLogLvl pk dn parsedMsg.msgId decoded.structData decoded.dataCnt
  else if parsedMsg.method.str = methodSetProperty then
    ledaRspSetProperties gDevsCb pk dn parsedMsg.msgId decoded.structData decoded.dataCnt
  else if parsedMsg.method.str = methodCallService then
    match getObjectItem parsedMsg.payload (.lit "identifier") with
    | none => []
    | some serviceName =>
      ledaRspCallService gDevsCb gLogLvl pk dn parsedMsg.msgId serviceName.valuestring
        decoded.structData decoded.dataCnt
  else []

/-- The properties or else the input data of a payload, `leda.c:703–711`. -/
def paramsItem (payload : Option CJson) : Option CJson :=
  (getObjectItem payload (.lit "properties")).or (getObjectItem payload (.lit "inputData"))

/-- The branch of `threadpool_recv_proc` for requests, `leda.c:687–736`. -/
def recvMethod (contents : Nat → LedaDeviceData) (parsedMsg : ParsedMsg) : List (Event P) :=
  match getObjectItem parsedMsg.payload (.lit "productKey"),
    getObjectItem parsedMsg.payload (.lit "deviceName"), paramsItem parsedMsg.payload with
  | some pk, some dn, some item =>
    match jsonDataToStructData gLogLvl contents item with
    | none => [.undefined]
    | some decoded =>
      if decoded.ret ≠ leSuccess then []
      else dispatchMethod gDevsCb gLogLvl parsedMsg pk.valuestring dn.valuestring decoded
  | _, _, _ => []

/-- The branch of `threadpool_recv_proc` for responses, `leda.c:671–686`: the events and the
pending replies afterwards. -/
def recvRsp (parsedMsg : ParsedMsg) (pending : ReplyList) : List (Event P) × ReplyList :=
  match printUnformatted parsedMsg.payload with
  | none => ([], pending)
  | some payloadStr =>
    let (ret, pending) :=
      wsSetReplyResult parsedMsg.msgId parsedMsg.code (some payloadStr.bytes) pending
    match gDevsCb.reportReplyCb with
    | some cb =>
      if ret ≠ leSuccess then
        let msgId := parsedMsg.msgId.toUInt32
        let usrData := gDevsCb.usrDataReportReply
        ([.reportReply msgId parsedMsg.code usrData (cb.fn msgId parsedMsg.code usrData)], pending)
      else ([], pending)
    | none => ([], pending)

/-- `threadpool_recv_proc`, `leda.c:659–754`, with what the memory it allocates for the
decoded data holds before it is written. -/
def threadpoolRecvProc (contents : Nat → LedaDeviceData) (parsedMsg : ParsedMsg)
    (pending : ReplyList) : List (Event P) × ReplyList :=
  match parsedMsg.msgType with
  | .rsp => recvRsp gDevsCb parsedMsg pending
  | .method => (recvMethod gDevsCb gLogLvl contents parsedMsg, pending)
  | .invalid => ([], pending)

end Dispatch

/-- The tree of the message that an event sends. -/
def Event.sent? {P : Type} : Event P → Option CJson
  | .addMsg root _ _ _ => some root
  | _ => none

/-- The id and the code that an event passes to `report_reply_cb`. -/
def Event.reply? {P : Type} : Event P → Option (UInt32 × Int32)
  | .reportReply msgId code _ _ => some (msgId, code)
  | _ => none

section Lemmas
variable {P : Type} (gDevsCb : LedaDeviceCallback P) (gLogLvl : Int32)

/-- A response is sent exactly if its text leaves two bytes of `INT_MAX`. -/
theorem sent_addRspMsg (root : CJson) :
    (addRspMsg root : List (Event P)).filterMap Event.sent? =
      if root.render.length + 2 ≤ intMax.toNat then [root] else [] := by
  rw [addRspMsg, printUnformatted_eq]
  by_cases h : root.render.length + 2 ≤ intMax.toNat
  · simp only [h, if_true]
    rfl
  · simp only [h, if_false]
    rfl

/-- The size of the output array exceeds `PTRDIFF_MAX` exactly for negative counts. -/
theorem ptrdiffMax_lt_iff (count : Int32) :
    ptrdiffMax < sizeMul sizeofLedaDeviceData (toSize count.toInt) ↔ count.toInt < 0 := by
  have hlo := count.le_toInt
  have hhi := count.toInt_lt
  rw [ptrdiffMax, sizeMul, sizeofLedaDeviceData, sizeMod]
  by_cases h : count.toInt < 0
  · have hsize := toSize_of_neg h (by omega)
    have hprod : 2116 * toSize count.toInt =
        (2 ^ 64 - 2116 * (2 ^ 64 - toSize count.toInt)) + 2 ^ 64 * 2115 := by omega
    rw [hprod, Nat.add_mul_mod_self_left, Nat.mod_eq_of_lt (by omega)]
    omega
  · rw [toSize_int32 (by omega), Nat.mod_eq_of_lt (by omega)]
    omega

/-- Without a callback for services no output is sent. -/
theorem outputPrefix_zero (n : Nat) : outputPrefix (List.replicate n zeroDeviceData) = [] := by
  cases n with
  | zero => rfl
  | succ n => rfl

/-- The response branch is the step that responses take in the system of calls. -/
theorem recvRsp_respond (parsedMsg : ParsedMsg) (s : CallState) :
    callStep gDevsCb.reportReplyCb.isSome s (.respond parsedMsg.msgId parsedMsg.code
        ((printUnformatted parsedMsg.payload).map CStr.bytes)) =
      some ({ replyCb := (recvRsp gDevsCb parsedMsg s.replies).1.findSome? Event.reply? },
        { s with replies := (recvRsp gDevsCb parsedMsg s.replies).2 }) := by
  cases hprint : printUnformatted parsedMsg.payload with
  | none =>
    rw [recvRsp, hprint]
    rfl
  | some payloadStr =>
    cases hcb : gDevsCb.reportReplyCb with
    | none =>
      rw [recvRsp, hprint]
      simp [callStep, hcb]
    | some cb =>
      rw [recvRsp, hprint]
      simp only [callStep, hcb, Option.map_some]
      split <;> simp_all [Event.reply?]

end Lemmas

end LedaSdk.Leda
