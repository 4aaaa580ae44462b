import LedaSdk.Json.RoundTrip
import LedaSdk.Leda.Decoding
import LedaSdk.Leda.RecvProc

/-!
# Which requests are answered

The peer waits for one response to each request. Which requests get exactly one that carries
their id, and reports success only for a callback that succeeded, is decided by the members
of the request, the registered callbacks and what they hand back.
-/

namespace LedaSdk.Leda
open LedaSdk.Base LedaSdk.Json

section Property
variable {P : Type}

/-- An invocation of the callback for a method that returned `LE_SUCCESS`. -/
def Event.Succeeded (method : CStr) : Event P → Prop
  | .getProperties _ _ _ _ _ ret => method = methodGetProperty ∧ ret = leSuccess
  | .setProperties _ _ _ _ _ ret => method = methodSetProperty ∧ ret = leSuccess
  | .callService _ _ _ _ _ _ ret => method = methodCallService ∧ ret = leSuccess
  | _ => False

/-- Two members that are numbers which C compares equal. -/
def SameNumber (a b : Option CJson) : Prop :=
  ∃ c d, a = some (.number c) ∧ b = some (.number d) ∧ c.eq d = true

/-- Exactly one response is sent. It carries the id of the request, and its code is
`LE_SUCCESS` only if the callback for the method was invoked and returned that. -/
def AnsweredOnce (request : CJson) (events : List (Event P)) : Prop :=
  Event.undefined ∉ events ∧ ∃ response, events.filterMap Event.sent? = [response] ∧
    SameNumber (getObjectItem (some request) (.lit "messageId"))
      (getObjectItem (some response) (.lit "messageId")) ∧
    ∀ code, getObjectItem (some response) (.lit "code") = some code →
      code.valueint = leSuccess →
      ∃ method, getObjectItem (some request) (.lit "method") = some (.string method) ∧
        ∃ e ∈ events, e.Succeeded method

end Property

section Condition
variable {P : Type} (gDevsCb : LedaDeviceCallback P) (gLogLvl msgId : Int32)

/-- The output of a callback can be sent: no type is logged with `%s`, and the text of the
response leaves two bytes of `INT_MAX`. -/
def Sendable (name : CStr) (output : List LedaDeviceData) : Prop :=
  ∃ items, structDataToJsonData gLogLvl output = some items ∧
    (rspRoot leSuccess msgId (some (.object (addItemToObject [] name items)))).render.length + 2 ≤
      intMax.toNat

/-- The methods that are served, with what they ask of the payload and of the callback. -/
inductive Served (payload : Option CJson) (pk dn : Option CStr) (decoded : DecodedData) :
    CStr → Prop where
  | getProperty
      (h : (invokeGetProperties gDevsCb pk dn decoded.structData decoded.dataCnt).1 = leSuccess →
        Sendable gLogLvl msgId (.lit "properties")
          (invokeGetProperties gDevsCb pk dn decoded.structData decoded.dataCnt).2.1) :
      Served payload pk dn decoded methodGetProperty
  | setProperty : Served payload pk dn decoded methodSetProperty
  | callService {serviceName : CJson}
      (hid : getObjectItem payload (.lit "identifier") = some serviceName)
      (hcount : 0 ≤ gDevsCb.serviceOutputMaxCount.toInt)
      (h : (invokeCallService gDevsCb pk dn serviceName.valuestring decoded.structData
          decoded.dataCnt (List.replicate gDevsCb.serviceOutputMaxCount.toNatClampNeg
            zeroDeviceData)).1 = leSuccess →
        Sendable gLogLvl msgId (.lit "outputData") (outputPrefix
          (invokeCallService gDevsCb pk dn serviceName.valuestring decoded.structData
            decoded.dataCnt (List.replicate gDevsCb.serviceOutputMaxCount.toNatClampNeg
              zeroDeviceData)).2.1)) :
      Served payload pk dn decoded methodCallService

/-- Requests that are answered: the id is a value of type `int`, the payload names a device
and has properties or input data that can be decoded, and the method is served. -/
def Answerable (contents : Nat → LedaDeviceData) (request : CJson) : Prop :=
  let received := ledaParseReceiveMsg request
  (∃ n : Int32, SameNumber (getObjectItem (some request) (.lit "messageId"))
    (some (.number (.ofInt n.toInt)))) ∧
  ∃ pk dn item method, getObjectItem received.payload (.lit "productKey") = some pk ∧
    getObjectItem received.payload (.lit "deviceName") = some dn ∧
    paramsItem received.payload = some item ∧
    getObjectItem (some request) (.lit "method") = some (.string method) ∧
    Decodable gLogLvl item ∧
    ∀ decoded, jsonDataToStructData gLogLvl contents item = some decoded →
      Served gDevsCb gLogLvl received.msgId received.payload pk.valuestring dn.valuestring decoded
        method

end Condition

/-- One response to a message id, with success reported only after the callback's. -/
def Answers {P : Type} (method : CStr) (msgId : Int32) (events : List (Event P)) : Prop :=
  Event.undefined ∉ events ∧ ∃ code payload,
    events.filterMap Event.sent? = [rspRoot code msgId payload] ∧
      (code = leSuccess → ∃ e ∈ events, e.Succeeded method)

section Steps
variable {P : Type} {gDevsCb : LedaDeviceCallback P} {gLogLvl msgId : Int32} {method : CStr}
  {pk dn serviceName : Option CStr} {data output : List LedaDeviceData} {dataCnt : Int32}
  {invoked : List (Event P)} {ret : Int32} {payload : Option CJson}

/-- Events before the response that send nothing and, if they succeeded, say so. -/
structure Quiet (method : CStr) (ret : Int32) (invoked : List (Event P)) : Prop where
  sent : invoked.filterMap Event.sent? = []
  defined : Event.undefined ∉ invoked
  succeeded : ret = leSuccess → ∃ e ∈ invoked, e.Succeeded method

theorem mem_ledaSendRsp {code : Int32} {e : Event P} (h : e ∈ ledaSendRsp code msgId payload) :
    e ≠ .undefined := by
  rw [ledaSendRsp, addRspMsg] at h
  split at h
  · cases h
  · rw [List.mem_singleton.mp h]
    simp

/-- A response after the invocation answers exactly if it can be printed. -/
theorem Quiet.answers_iff (h : Quiet method ret invoked) :
    Answers method msgId (invoked ++ ledaSendRsp ret msgId payload) ↔
      (rspRoot ret msgId payload).render.length + 2 ≤ intMax.toNat := by
  have hsent : (invoked ++ ledaSendRsp ret msgId payload).filterMap Event.sent? =
      if (rspRoot ret msgId payload).render.length + 2 ≤ intMax.toNat then
        [rspRoot ret msgId payload] else [] := by
    rw [List.filterMap_append, h.sent, List.nil_append, ledaSendRsp, sent_addRspMsg]
  constructor
  · rintro ⟨-, code, payload', heq, -⟩
    by_contra hfits
    rw [hsent, if_neg hfits] at heq
    cases heq
  · intro hfits
    refine ⟨?_, ret, payload, by rw [hsent, if_pos hfits], ?_⟩
    · intro hm
      rcases List.mem_append.mp hm with hm | hm
      · exact h.defined hm
      · exact mem_ledaSendRsp hm rfl
    · intro hret
      obtain ⟨e, he, hs⟩ := h.succeeded hret
      exact ⟨e, List.mem_append_left _ he, hs⟩

theorem not_answers_undefined : ¬ Answers method msgId (invoked ++ [.undefined]) := by
  rintro ⟨h, -⟩
  exact h (by simp)

theorem quiet_invokeGetProperties :
    Quiet methodGetProperty (invokeGetProperties gDevsCb pk dn data dataCnt).1
      (invokeGetProperties gDevsCb pk dn data dataCnt).2.2 := by
  rw [invokeGetProperties]
  cases gDevsCb.getPropertiesCb with
  | none => exact ⟨rfl, List.not_mem_nil, fun h ↦ absurd h leErrorUnknown_ne⟩
  | some cb => exact ⟨rfl, by simp, fun h ↦ ⟨_, List.mem_singleton_self _, rfl, h⟩⟩

theorem quiet_invokeSetProperties :
    Quiet methodSetProperty (invokeSetProperties gDevsCb pk dn data dataCnt).1
      (invokeSetProperties gDevsCb pk dn data dataCnt).2 := by
  rw [invokeSetProperties]
  cases gDevsCb.setPropertiesCb with
  | none => exact ⟨rfl, List.not_mem_nil, fun h ↦ absurd h leErrorUnknown_ne⟩
  | some cb => exact ⟨rfl, by simp, fun h ↦ ⟨_, List.mem_singleton_self _, rfl, h⟩⟩

theorem quiet_invokeCallService :
    Quiet methodCallService
      (invokeCallService gDevsCb pk dn serviceName data dataCnt output).1
      (invokeCallService gDevsCb pk dn serviceName data dataCnt output).2.2 := by
  rw [invokeCallService]
  cases gDevsCb.callServiceCb with
  | none => exact ⟨rfl, List.not_mem_nil, fun h ↦ absurd h leErrorUnknown_ne⟩
  | some cb => exact ⟨rfl, by simp, fun h ↦ ⟨_, List.mem_singleton_self _, rfl, h⟩⟩

/-- `leda_rsp_get_properties` answers unless a successful callback's output cannot be sent. -/
theorem getProperties_answers_iff :
    Answers methodGetProperty msgId
        (ledaRspGetProperties gDevsCb gLogLvl pk dn msgId data dataCnt) ↔
      ((invokeGetProperties gDevsCb pk dn data dataCnt).1 = leSuccess →
        Sendable gLogLvl msgId (.lit "properties")
          (invokeGetProperties gDevsCb pk dn data dataCnt).2.1) := by
  have hq : Quiet methodGetProperty (invokeGetProperties gDevsCb pk dn data dataCnt).1
    (invokeGetProperties gDevsCb pk dn data dataCnt).2.2 := quiet_invokeGetProperties
  rw [ledaRspGetProperties]
  generalize invokeGetProperties gDevsCb pk dn data dataCnt = r at hq ⊢
  obtain ⟨ret, output, invoked⟩ := r
  simp only at hq ⊢
  by_cases hret : ret = leSuccess
  · simp only [hret, if_true, forall_const, Sendable]
    cases structDataToJsonData gLogLvl output with
    | none => simp [not_answers_undefined]
    | some items =>
      rw [hret] at hq
      rw [hq.answers_iff]
      simp
  · simp only [hret, if_false, false_implies, iff_true]
    exact hq.answers_iff.mpr (rspRoot_fits ret msgId)

/-- `leda_rsp_set_properties` always answers. -/
theorem setProperties_answers :
    Answers methodSetProperty msgId (ledaRspSetProperties gDevsCb pk dn msgId data dataCnt) :=
  quiet_invokeSetProperties.answers_iff.mpr (rspRoot_fits _ msgId)

/-- Without a registered callback for services an empty output is sent. -/
theorem invokeCallService_none (h : gDevsCb.callServiceCb.isSome = false) :
    invokeCallService gDevsCb pk dn serviceName data dataCnt output =
      (leErrorUnknown, output, []) := by
  rw [invokeCallService, Option.isSome_eq_false_iff.mp h |> Option.isNone_iff_eq_none.mp]

/-- `leda_rsp_call_service` answers unless the count is negative or a successful callback's
output cannot be sent. -/
theorem callService_answers_iff :
    Answers methodCallService msgId
        (ledaRspCallService gDevsCb gLogLvl pk dn msgId serviceName data dataCnt) ↔
      0 ≤ gDevsCb.serviceOutputMaxCount.toInt ∧
      ((invokeCallService gDevsCb pk dn serviceName data dataCnt (List.replicate
          gDevsCb.serviceOutputMaxCount.toNatClampNeg zeroDeviceData)).1 = leSuccess →
        Sendable gLogLvl msgId (.lit "outputData") (outputPrefix
          (invokeCallService gDevsCb pk dn serviceName data dataCnt (List.replicate
            gDevsCb.serviceOutputMaxCount.toNatClampNeg zeroDeviceData)).2.1)) := by
  by_cases hcount : gDevsCb.serviceOutputMaxCount.toInt < 0
  · rw [ledaRspCallService, if_pos ((ptrdiffMax_lt_iff _).mpr hcount)]
    constructor
    · rintro ⟨-, code, payload, h, -⟩
      cases h
    · rintro ⟨h, -⟩
      omega
  rw [ledaRspCallService, if_neg (mt (ptrdiffMax_lt_iff _).mp hcount)]
  have hnonneg : 0 ≤ gDevsCb.serviceOutputMaxCount.toInt := by omega
  simp only [hnonneg, true_and]
  cases hcb : gDevsCb.callServiceCb.isSome with
  | false =>
    -- The array is still zero, and its encoding is an empty list.
    rw [invokeCallService_none hcb]
    simp only [Bool.false_eq_true, false_and, if_false, outputPrefix_zero]
    have hq : Quiet methodCallService leErrorUnknown ([] : List (Event P)) :=
      ⟨rfl, List.not_mem_nil, fun h ↦ absurd h leErrorUnknown_ne⟩
    constructor
    · intro _ h
      exact absurd h leErrorUnknown_ne
    · intro _
      exact hq.answers_iff.mpr (rspRoot_fits_of_le _ _ _ (by decide))
  | true =>
    have hq : Quiet methodCallService
        (invokeCallService gDevsCb pk dn serviceName data dataCnt (List.replicate
          gDevsCb.serviceOutputMaxCount.toNatClampNeg zeroDeviceData)).1
        (invokeCallService gDevsCb pk dn serviceName data dataCnt (List.replicate
          gDevsCb.serviceOutputMaxCount.toNatClampNeg zeroDeviceData)).2.2 :=
      quiet_invokeCallService
    generalize invokeCallService gDevsCb pk dn serviceName data dataCnt (List.replicate
      gDevsCb.serviceOutputMaxCount.toNatClampNeg zeroDeviceData) = r at hq ⊢
    obtain ⟨ret, output, invoked⟩ := r
    simp only [true_and] at hq ⊢
    by_cases hret : ret = leSuccess
    · simp only [hret, ne_eq, not_true_eq_false, if_false, forall_const, Sendable]
      cases structDataToJsonData gLogLvl (outputPrefix output) with
      | none => simp [not_answers_undefined]
      | some items =>
        rw [hret] at hq
        rw [hq.answers_iff]
        simp
    · simp only [hret, ne_eq, not_false_eq_true, if_true, false_implies, iff_true]
      exact hq.answers_iff.mpr (rspRoot_fits ret msgId)

/-- The dispatch answers exactly the served methods. -/
theorem dispatchMethod_answers_iff {parsedMsg : ParsedMsg} {decoded : DecodedData}
    (hmethod : parsedMsg.method = .snprintf 16 method) :
    Answers method parsedMsg.msgId (dispatchMethod gDevsCb gLogLvl parsedMsg pk dn decoded) ↔
      Served gDevsCb gLogLvl parsedMsg.msgId parsedMsg.payload pk dn decoded method := by
  obtain ⟨hgetset, hgetcall, hsetcall⟩ := served_methods_ne
  have hname := ParsedMsg.method_str_eq_iff hmethod
  rw [dispatchMethod]
  simp only [hname methodGetProperty (by decide), hname methodSetProperty (by decide),
    hname methodCallService (by decide)]
  constructor
  · intro h
    split at h
    · next hm =>
      rw [hm] at h ⊢
      exact .getProperty (getProperties_answers_iff.mp h)
    · split at h
      · next hm =>
        rw [hm]
        exact .setProperty
      · split at h
        · next hm =>
          rw [hm] at h ⊢
          split at h
          · obtain ⟨-, code, payload, heq, -⟩ := h
            cases heq
          · next serviceName hid =>
            obtain ⟨hcount, hsend⟩ := callService_answers_iff.mp h
            exact .callService hid hcount hsend
        · obtain ⟨-, code, payload, heq, -⟩ := h
          cases heq
  · intro h
    cases h with
    | getProperty h =>
      rw [if_pos rfl]
      exact getProperties_answers_iff.mpr h
    | setProperty =>
      rw [if_neg hgetset.symm, if_pos rfl]
      exact setProperties_answers
    | callService hid hcount h =>
      rw [if_neg hgetcall.symm, if_neg hsetcall.symm, if_pos rfl, hid]
      exact callService_answers_iff.mpr ⟨hcount, h⟩

/-- Whatever is sent carries this id. -/
def Carries (msgId : Int32) (events : List (Event P)) : Prop :=
  ∀ response ∈ events.filterMap Event.sent?, ∃ code payload, response = rspRoot code msgId payload

theorem carries_nil : Carries msgId ([] : List (Event P)) := fun _ h ↦ absurd h List.not_mem_nil

theorem carries_undefined : Carries msgId [(.undefined : Event P)] :=
  fun _ h ↦ absurd h List.not_mem_nil

theorem carries_ledaSendRsp {code : Int32} :
    Carries msgId (ledaSendRsp code msgId payload : List (Event P)) := by
  intro response h
  rw [ledaSendRsp, sent_addRspMsg] at h
  split at h
  · exact ⟨code, payload, List.mem_singleton.mp h⟩
  · cases h

theorem Quiet.carries {events : List (Event P)} (h : Quiet method ret invoked)
    (he : Carries msgId events) : Carries msgId (invoked ++ events) := by
  rw [Carries, List.filterMap_append, h.sent]
  exact he

/-- An encoded output or undefined behaviour. -/
private theorem carries_encoded {code : Int32} {name : CStr} :
    Carries msgId (match structDataToJsonData gLogLvl output with
      | none => [(.undefined : Event P)]
      | some items => ledaSendRsp code msgId (some (.object (addItemToObject [] name items)))) := by
  cases structDataToJsonData gLogLvl output with
  | none => exact carries_undefined
  | some items => exact carries_ledaSendRsp

private theorem carries_ite {p : Prop} [Decidable p] {a b : List (Event P)}
    (ha : Carries msgId a) (hb : Carries msgId b) : Carries msgId (if p then a else b) := by
  split
  · exact ha
  · exact hb

theorem carries_ledaRspGetProperties :
    Carries msgId (ledaRspGetProperties gDevsCb gLogLvl pk dn msgId data dataCnt) :=
  quiet_invokeGetProperties.carries (carries_ite carries_encoded carries_ledaSendRsp)

theorem carries_ledaRspCallService :
    Carries msgId (ledaRspCallService gDevsCb gLogLvl pk dn msgId serviceName data dataCnt) :=
  carries_ite carries_nil
    (quiet_invokeCallService.carries (carries_ite carries_ledaSendRsp carries_encoded))

/-- Whatever is sent for a request carries the id it was parsed to. -/
theorem carries_recvMethod (gDevsCb : LedaDeviceCallback P) (gLogLvl : Int32)
    (contents : Nat → LedaDeviceData) (parsedMsg : ParsedMsg) :
    Carries parsedMsg.msgId (recvMethod gDevsCb gLogLvl contents parsedMsg) := by
  rw [recvMethod]
  split
  · split
    · exact carries_undefined
    · apply carries_ite carries_nil
      apply carries_ite carries_ledaRspGetProperties
      apply carries_ite (quiet_invokeSetProperties.carries carries_ledaSendRsp)
      apply carries_ite _ carries_nil
      split
      · exact carries_nil
      · exact carries_ledaRspCallService
  · exact carries_nil

end Steps

section Requests
variable {P : Type} {gDevsCb : LedaDeviceCallback P} {gLogLvl : Int32}
  {contents : Nat → LedaDeviceData} {request : CJson}

/-- The request branch answers exactly the requests that name a device, have data that can be
decoded and a served method. -/
theorem recvMethod_answers_iff {parsedMsg : ParsedMsg} {method : CStr}
    (hmethod : parsedMsg.method = .snprintf 16 method) :
    Answers method parsedMsg.msgId (recvMethod gDevsCb gLogLvl contents parsedMsg) ↔
      ∃ pk dn item, getObjectItem parsedMsg.payload (.lit "productKey") = some pk ∧
        getObjectItem parsedMsg.payload (.lit "deviceName") = some dn ∧
        paramsItem parsedMsg.payload = some item ∧ Decodable gLogLvl item ∧
        ∀ decoded, jsonDataToStructData gLogLvl contents item = some decoded →
          Served gDevsCb gLogLvl parsedMsg.msgId parsedMsg.payload pk.valuestring dn.valuestring
            decoded method := by
  have hnil : ¬ Answers method parsedMsg.msgId ([] : List (Event P)) := by
    rintro ⟨-, code, payload, h, -⟩
    cases h
  rw [recvMethod]
  constructor
  · intro h
    split at h
    · next pk dn item hpk hdn hitem =>
      split at h
      · exact absurd h.1 (by simp)
      · next decoded hdecoded =>
        split at h
        · exact absurd h hnil
        · next hret =>
          refine ⟨pk, dn, item, hpk, hdn, hitem, ?_, ?_⟩
          · exact jsonDataToStructData_success_iff.mp ⟨decoded, hdecoded, not_not.mp hret⟩
          · intro decoded' hdecoded'
            rw [hdecoded] at hdecoded'
            cases hdecoded'
            exact (dispatchMethod_answers_iff hmethod).mp h
    · exact absurd h hnil
  · rintro ⟨pk, dn, item, hpk, hdn, hitem, hdecodable, hserved⟩
    obtain ⟨decoded, hdecoded, hret⟩ : ∃ decoded,
        jsonDataToStructData gLogLvl contents item = some decoded ∧ decoded.ret = leSuccess :=
      jsonDataToStructData_success_iff.mpr hdecodable
    rw [hpk, hdn, hitem]
    simp only [hdecoded, hret, ne_eq, not_true_eq_false, if_false]
    exact (dispatchMethod_answers_iff hmethod).mpr (hserved decoded hdecoded)

/-- A run that sends only responses to `msgId` answers once exactly if it answers and the id
is the request's. -/
theorem answeredOnce_iff_answers {id : Binary64} {method : CStr} {msgId : Int32}
    {events : List (Event P)} (hid : getObjectItem (some request) (.lit "messageId") =
      some (.number id)) (hmethod : getObjectItem (some request) (.lit "method") =
      some (.string method)) (hcarries : Carries msgId events) :
    AnsweredOnce request events ↔
      id.eq (.ofInt msgId.toInt) = true ∧ Answers method msgId events := by
  constructor
  · rintro ⟨hdefined, response, hsent, ⟨c, d, hc, hd, heq⟩, hcode⟩
    obtain ⟨code, payload, rfl⟩ := hcarries response (by rw [hsent]; exact List.mem_singleton_self _)
    obtain ⟨hrspCode, hrspId, -⟩ := getObjectItem_rspRoot code msgId payload
    rw [hid] at hc
    rw [hrspId] at hd
    cases hc
    cases hd
    refine ⟨heq, hdefined, code, payload, hsent, ?_⟩
    intro hsuccess
    obtain ⟨m, hm, he⟩ := hcode _ hrspCode (by rw [CJson.valueint, saturate_ofInt, hsuccess])
    rw [hmethod] at hm
    cases hm
    exact he
  · rintro ⟨heq, hdefined, code, payload, hsent, hsuccess⟩
    obtain ⟨hrspCode, hrspId, -⟩ := getObjectItem_rspRoot code msgId payload
    refine ⟨hdefined, _, hsent, ⟨_, _, hid, hrspId, heq⟩, ?_⟩
    intro c hc hvalue
    rw [hrspCode] at hc
    cases hc
    rw [CJson.valueint, saturate_ofInt] at hvalue
    exact ⟨method, hmethod, hsuccess hvalue⟩

/-- A request is served by the branch for requests, with its method cut to 15 characters. -/
theorem threadpoolRecvProc_method (gDevsCb : LedaDeviceCallback P) (gLogLvl : Int32)
    (contents : Nat → LedaDeviceData) (pending : ReplyList) {method : CStr}
    (hreq : (ledaParseReceiveMsg request).msgType = .method)
    (hmethod : getObjectItem (some request) (.lit "method") = some (.string method)) :
    (threadpoolRecvProc gDevsCb gLogLvl contents (.ofReceived (ledaParseReceiveMsg request))
        pending).1 =
      recvMethod gDevsCb gLogLvl contents (.ofReceived (ledaParseReceiveMsg request)) ∧
    (ParsedMsg.ofReceived (ledaParseReceiveMsg request)).method = .snprintf 16 method := by
  obtain ⟨id, method', -, -, hmethod', hr⟩ := msgType_eq_method_iff.mp hreq
  rw [hmethod] at hmethod'
  cases hmethod'
  constructor
  · rw [threadpoolRecvProc, show (ParsedMsg.ofReceived (ledaParseReceiveMsg request)).msgType =
      .method from hreq]
  · rw [hr]
    rfl

/-- A request is answered once exactly if it is answerable. -/
theorem answered_once_iff (gDevsCb : LedaDeviceCallback P) (gLogLvl : Int32)
    (contents : Nat → LedaDeviceData) (pending : ReplyList) (request : CJson)
    (hreq : (ledaParseReceiveMsg request).msgType = .method) :
    AnsweredOnce request (threadpoolRecvProc gDevsCb gLogLvl contents
        (.ofReceived (ledaParseReceiveMsg request)) pending).1 ↔
      Answerable gDevsCb gLogLvl contents request := by
  obtain ⟨id, method, hid, -, hmethod, hr⟩ := msgType_eq_method_iff.mp hreq
  obtain ⟨hrun, hbuf⟩ := threadpoolRecvProc_method gDevsCb gLogLvl contents pending hreq hmethod
  have hmsgId : (ledaParseReceiveMsg request).msgId = saturate id := by rw [hr]
  rw [hrun, answeredOnce_iff_answers hid hmethod (carries_recvMethod gDevsCb gLogLvl contents _),
    recvMethod_answers_iff hbuf, Answerable]
  -- The id in the response is the request's when that is a value of type `int`.
  have hint : id.eq (.ofInt (saturate id).toInt) = true ↔
      ∃ n : Int32, SameNumber (getObjectItem (some request) (.lit "messageId"))
        (some (.number (.ofInt n.toInt))) := by
    constructor
    · intro h
      exact ⟨_, _, _, hid, rfl, h⟩
    · rintro ⟨n, c, d, hc, hd, heq⟩
      rw [hid] at hc
      cases hc
      cases hd
      rw [saturate_of_eq heq]
      exact heq
  rw [show (ParsedMsg.ofReceived (ledaParseReceiveMsg request)).msgId = saturate id from hmsgId]
  apply and_congr hint
  constructor
  · rintro ⟨pk, dn, item, hpk, hdn, hitem, hdecodable, hserved⟩
    exact ⟨pk, dn, item, method, hpk, hdn, hitem, hmethod, hdecodable, by
      rw [hmsgId]
      exact hserved⟩
  · rintro ⟨pk, dn, item, method', hpk, hdn, hitem, hmethod', hdecodable, hserved⟩
    rw [hmethod] at hmethod'
    cases hmethod'
    rw [hmsgId] at hserved
    exact ⟨pk, dn, item, hpk, hdn, hitem, hdecodable, hserved⟩

/-- A request for the properties of a device. -/
def getRequest (method : CStr) : CJson :=
  .object [(.lit "messageId", .number (.ofInt 1)), (.lit "method", .string method),
    (.lit "payload", .object [(.lit "productKey", .string (.lit "pk")),
      (.lit "deviceName", .string (.lit "dn")), (.lit "properties", .array [])])]

theorem finite_ofInt_one : (Binary64.ofInt 1).IsFinite := by
  rw [Binary64.ofInt_eq (by decide)]
  trivial

theorem finite_getRequest (method : CStr) : (getRequest method).Finite :=
  ⟨finite_ofInt_one, trivial, ⟨trivial, trivial, trivial, trivial⟩, trivial⟩

/-- A request for one property. -/
def modeRequest : CJson :=
  .object [(.lit "messageId", .number (.ofInt 1)), (.lit "method", .string methodGetProperty),
    (.lit "payload", .object [(.lit "productKey", .string (.lit "pk")),
      (.lit "deviceName", .string (.lit "dn")),
      (.lit "properties", .array [.string (.lit "mode")])])]

/-- A structure with this text as its value. -/
def modeEntry (value : CStr) : LedaDeviceData :=
  ⟨LedaDataType.struct.toInt32, .snprintf 64 (.lit "mode"), .snprintf 2048 value⟩

/-- A callback that succeeds and reports a structure. -/
def modeReporter (value : CStr) : LedaDeviceCallback Unit where
  getPropertiesCb := some ⟨(), fun _ _ _ _ _ ↦ (leSuccess, fun _ ↦ modeEntry value)⟩
  usrDataGetProperty := ()
  setPropertiesCb := none
  usrDataSetProperty := ()
  callServiceCb := none
  serviceOutputMaxCount := 0
  usrDataCallService := ()
  reportReplyCb := none
  usrDataReportReply := ()

theorem decodable_mode : Decodable 0 (.array [.string (.lit "mode")]) := by
  refine .inr ⟨by decide, ?_⟩
  intro item h
  obtain rfl := List.mem_singleton.mp h
  exact (DecodesTo.bare (.lit "mode") : DecodesTo 0 zeroDeviceData _ _).decodable

/-- A request is answered once when the callback writes an entry that can be sent. -/
theorem answered_once_iff_modeReporter :
    AnsweredOnce modeRequest (threadpoolRecvProc (modeReporter (.lit "1")) 0
      (fun _ ↦ zeroDeviceData) (.ofReceived (ledaParseReceiveMsg modeRequest)) []).1 := by
  apply (answered_once_iff (modeReporter (.lit "1")) 0 (fun _ ↦ zeroDeviceData) [] modeRequest
    rfl).mpr
  refine ⟨⟨1, _, _, rfl, rfl, by decide +kernel⟩, .string (.lit "pk"), .string (.lit "dn"),
    .array [.string (.lit "mode")], methodGetProperty, rfl, rfl, rfl, rfl, decodable_mode, ?_⟩
  intro decoded hdecoded
  cases hdecoded
  apply Served.getProperty
  intro _
  exact ⟨_, rfl, by decide +kernel⟩

/-- A well-formed request with another method is not answered at all, whatever the callbacks
do. -/
theorem unknown_method_unanswered :
    parse (getRequest (.lit "ping")).renderStr = some (getRequest (.lit "ping")) ∧
      (ledaParseReceiveMsg (getRequest (.lit "ping"))).msgType = .method ∧
      ∀ (gDevsCb : LedaDeviceCallback Unit) gLogLvl contents pending,
        (threadpoolRecvProc gDevsCb gLogLvl contents
          (.ofReceived (ledaParseReceiveMsg (getRequest (.lit "ping")))) pending).1 = [] ∧
        ¬ AnsweredOnce (getRequest (.lit "ping")) (threadpoolRecvProc gDevsCb gLogLvl contents
          (.ofReceived (ledaParseReceiveMsg (getRequest (.lit "ping")))) pending).1 := by
  refine ⟨?_, rfl, ?_⟩
  · rw [parse_renderStr (finite_getRequest _), if_pos (by decide)]
  · intro gDevsCb gLogLvl contents pending
    have hnil : (threadpoolRecvProc gDevsCb gLogLvl contents
        (.ofReceived (ledaParseReceiveMsg (getRequest (.lit "ping")))) pending).1 = [] := rfl
    refine ⟨hnil, ?_⟩
    rw [hnil]
    rintro ⟨-, response, h, -⟩
    cases h

end Requests

end LedaSdk.Leda
