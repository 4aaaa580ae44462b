import LedaSdk.Leda.Answering

/-!
# What the callbacks are passed

The arguments of a callback come from members of the payload whose types are not looked at,
from an array that is chosen before the method is, and from the registration. Which messages
and registrations line these up.
-/

namespace LedaSdk.Leda
open LedaSdk.Base LedaSdk.Json

/-- Events that are invocations of a callback. -/
def Event.IsInvocation {P : Type} : Event P → Prop
  | .getProperties _ _ _ _ _ _ | .setProperties _ _ _ _ _ _ => True
  | .callService _ _ _ _ _ _ _ | .reportReply _ _ _ _ => True
  | .addMsg _ _ _ _ | .undefined => False

section Property
variable {P : Type} (gDevsCb : LedaDeviceCallback P) (gLogLvl : Int32)
  (contents : Nat → LedaDeviceData)

/-- An argument that is the string of a member, and not null. -/
def MemberString (payload : Option CJson) (name : CStr) (arg : Option CStr) : Prop :=
  ∃ s, arg = some s ∧ getObjectItem payload name = some (.string s)

/-- Data that is decoded from a member. -/
def DecodedMember (payload : Option CJson) (name : CStr) (data : List LedaDeviceData)
    (dataCnt : Int32) : Prop :=
  ∃ item, getObjectItem payload name = some item ∧
    jsonDataToStructData gLogLvl contents item = some ⟨leSuccess, data, dataCnt⟩

/-- An invocation with the arguments that the message and the registration have for it. -/
inductive RightArguments (method : Option CStr) (payload : Option CJson) : Event P → Prop where
  | getProperties {pk dn : Option CStr} {data : List LedaDeviceData} {dataCnt ret : Int32}
      (hmethod : method = some methodGetProperty)
      (hpk : MemberString payload (.lit "productKey") pk)
      (hdn : MemberString payload (.lit "deviceName") dn)
      (hdata : DecodedMember gLogLvl contents payload (.lit "properties") data dataCnt) :
      RightArguments method payload
        (.getProperties pk dn data dataCnt gDevsCb.usrDataGetProperty ret)
  | setProperties {pk dn : Option CStr} {data : List LedaDeviceData} {dataCnt ret : Int32}
      (hmethod : method = some methodSetProperty)
      (hpk : MemberString payload (.lit "productKey") pk)
      (hdn : MemberString payload (.lit "deviceName") dn)
      (hdata : DecodedMember gLogLvl contents payload (.lit "properties") data dataCnt) :
      RightArguments method payload
        (.setProperties pk dn data dataCnt gDevsCb.usrDataSetProperty ret)
  | callService {pk dn serviceName : Option CStr} {data : List LedaDeviceData}
      {dataCnt ret : Int32} (hmethod : method = some methodCallService)
      (hpk : MemberString payload (.lit "productKey") pk)
      (hdn : MemberString payload (.lit "deviceName") dn)
      (hname : MemberString payload (.lit "identifier") serviceName)
      (hdata : DecodedMember gLogLvl contents payload (.lit "inputData") data dataCnt) :
      RightArguments method payload
        (.callService pk dn serviceName data dataCnt gDevsCb.usrDataCallService ret)
  | reportReply {msgId : UInt32} {code ret : Int32} :
      RightArguments method payload (.reportReply msgId code gDevsCb.usrDataReportReply ret)

/-- Every invocation for a message has the right arguments. -/
def ArgumentsRight (root : CJson) (events : List (Event P)) : Prop :=
  let received := ledaParseReceiveMsg root
  ∀ e ∈ events, e.IsInvocation →
    RightArguments gDevsCb gLogLvl contents received.method received.payload e

end Property

section Condition
variable {P : Type} (gDevsCb : LedaDeviceCallback P) (gLogLvl : Int32)
  (contents : Nat → LedaDeviceData)

/-- What a payload and the registration have to provide for the callback of a method, if that is
reached. Properties in the payload of a service call have to decode as its input data does. -/
structure LinedUp (payload : Option CJson) (pk dn : CJson) (method : CStr) : Prop where
  getProperty : method = methodGetProperty → gDevsCb.getPropertiesCb.isSome →
    pk.valuestring.isSome ∧ dn.valuestring.isSome ∧
      (getObjectItem payload (.lit "properties")).isSome
  setProperty : method = methodSetProperty → ∀ cb, gDevsCb.setPropertiesCb = some cb →
    pk.valuestring.isSome ∧ dn.valuestring.isSome ∧
      (getObjectItem payload (.lit "properties")).isSome ∧ cb.addr = gDevsCb.usrDataSetProperty
  callService : method = methodCallService → 0 ≤ gDevsCb.serviceOutputMaxCount.toInt →
    gDevsCb.callServiceCb.isSome →
    ∀ serviceName, getObjectItem payload (.lit "identifier") = some serviceName →
      pk.valuestring.isSome ∧ dn.valuestring.isSome ∧ serviceName.valuestring.isSome ∧
        ∃ input, getObjectItem payload (.lit "inputData") = some input ∧
          ∀ properties, getObjectItem payload (.lit "properties") = some properties →
            jsonDataToStructData gLogLvl contents properties =
              jsonDataToStructData gLogLvl contents input

/-- A message whose data is decoded, if it is a request at all, has and is registered with what
its method takes. -/
def ArgumentsLinedUp (root : CJson) : Prop :=
  let received := ledaParseReceiveMsg root
  received.msgType = .method → ∀ pk dn item method,
    getObjectItem received.payload (.lit "productKey") = some pk →
    getObjectItem received.payload (.lit "deviceName") = some dn →
    paramsItem received.payload = some item → Decodable gLogLvl item →
    received.method = some method →
      LinedUp gDevsCb gLogLvl contents received.payload pk dn method

end Condition

section Steps
variable {P : Type} {gDevsCb : LedaDeviceCallback P} {gLogLvl msgId : Int32}
  {contents : Nat → LedaDeviceData} {R : Event P → Prop} {method : CStr}
  {pk dn serviceName : Option CStr} {data : List LedaDeviceData} {dataCnt : Int32}
  {payload : Option CJson} {invoked events : List (Event P)}

/-- Events without an invocation. -/
def Silent (events : List (Event P)) : Prop := ∀ e ∈ events, ¬ e.IsInvocation

theorem silent_nil : Silent ([] : List (Event P)) := fun _ h ↦ absurd h List.not_mem_nil

theorem silent_ite {p : Prop} [Decidable p] {a b : List (Event P)} (ha : Silent a)
    (hb : Silent b) : Silent (if p then a else b) := by
  split
  · exact ha
  · exact hb

theorem silent_ledaSendRsp {code : Int32} :
    Silent (ledaSendRsp code msgId payload : List (Event P)) := by
  intro e h
  rw [ledaSendRsp, addRspMsg] at h
  split at h
  · cases h
  · rw [List.mem_singleton.mp h]
    exact id

theorem silent_undefined : Silent [(.undefined : Event P)] := by
  intro e h
  rw [List.mem_singleton.mp h]
  exact id

/-- An encoded output or undefined behaviour. -/
private theorem silent_encoded {code : Int32} {name : CStr} {output : List LedaDeviceData} :
    Silent (match structDataToJsonData gLogLvl output with
      | none => [(.undefined : Event P)]
      | some items => ledaSendRsp code msgId (some (.object (addItemToObject [] name items)))) := by
  cases structDataToJsonData gLogLvl output with
  | none => exact silent_undefined
  | some items => exact silent_ledaSendRsp

theorem Silent.forall_iff_true (h : Silent events) :
    (∀ e ∈ events, e.IsInvocation → R e) ↔ True :=
  iff_true_intro fun e he hinv ↦ absurd hinv (h e he)

/-- What comes after the invocation is silent. -/
theorem Silent.forall_append_iff (h : Silent events) :
    (∀ e ∈ invoked ++ events, e.IsInvocation → R e) ↔ ∀ e ∈ invoked, e.IsInvocation → R e := by
  simp only [List.forall_mem_append, h.forall_iff_true, and_true]

/-- The invocations of `leda_rsp_get_properties`. -/
theorem getProperties_invocations :
    (∀ e ∈ ledaRspGetProperties gDevsCb gLogLvl pk dn msgId data dataCnt, e.IsInvocation → R e) ↔
      ∀ cb, gDevsCb.getPropertiesCb = some cb →
        R (.getProperties pk dn data dataCnt gDevsCb.usrDataGetProperty
          (cb.fn pk dn data dataCnt gDevsCb.usrDataGetProperty).1) := by
  rw [ledaRspGetProperties]
  refine (Silent.forall_append_iff (silent_ite silent_encoded silent_ledaSendRsp)).trans ?_
  cases gDevsCb.getPropertiesCb with
  | none => simp
  | some cb => simp [Event.IsInvocation]

/-- The invocations of `leda_rsp_set_properties`. -/
theorem setProperties_invocations :
    (∀ e ∈ ledaRspSetProperties gDevsCb pk dn msgId data dataCnt, e.IsInvocation → R e) ↔
      ∀ cb, gDevsCb.setPropertiesCb = some cb →
        R (.setProperties pk dn data dataCnt cb.addr (cb.fn pk dn data dataCnt cb.addr)) := by
  rw [ledaRspSetProperties]
  refine silent_ledaSendRsp.forall_append_iff.trans ?_
  cases gDevsCb.setPropertiesCb with
  | none => simp
  | some cb => simp [Event.IsInvocation]

/-- The invocations of `leda_rsp_call_service`. -/
theorem callService_invocations :
    (∀ e ∈ ledaRspCallService gDevsCb gLogLvl pk dn msgId serviceName data dataCnt,
        e.IsInvocation → R e) ↔
      (0 ≤ gDevsCb.serviceOutputMaxCount.toInt → ∀ cb, gDevsCb.callServiceCb = some cb →
        R (.callService pk dn serviceName data dataCnt gDevsCb.usrDataCallService
          (cb.fn pk dn serviceName data dataCnt (List.replicate
            gDevsCb.serviceOutputMaxCount.toNatClampNeg zeroDeviceData)
            gDevsCb.usrDataCallService).1)) := by
  by_cases hcount : gDevsCb.serviceOutputMaxCount.toInt < 0
  · rw [ledaRspCallService, if_pos ((ptrdiffMax_lt_iff _).mpr hcount), silent_nil.forall_iff_true]
    exact iff_of_true trivial fun h ↦ absurd h (by omega)
  · have hnonneg : 0 ≤ gDevsCb.serviceOutputMaxCount.toInt := by omega
    rw [ledaRspCallService, if_neg (mt (ptrdiffMax_lt_iff _).mp hcount)]
    refine (Silent.forall_append_iff (silent_ite silent_ledaSendRsp silent_encoded)).trans ?_
    cases gDevsCb.callServiceCb with
    | none => simp
    | some cb => simp [Event.IsInvocation, hnonneg]

end Steps

section Messages
variable {P : Type} {gDevsCb : LedaDeviceCallback P} {gLogLvl : Int32}
  {contents : Nat → LedaDeviceData} {payload : Option CJson} {name : CStr} {pk dn item : CJson}

/-- A member of another type has no string. -/
theorem memberString_iff (h : getObjectItem payload name = some item) :
    MemberString payload name item.valuestring ↔ item.valuestring.isSome := by
  simp only [MemberString, h, Option.some.injEq]
  cases item with
  | string s => simp [CJson.valuestring]
  | _ => simp [CJson.valuestring]

/-- The data of a message is decoded from `name` exactly if that decodes alike. -/
theorem decodedMember_iff {decoded : DecodedData}
    (hdecoded : jsonDataToStructData gLogLvl contents item = some decoded)
    (hret : decoded.ret = leSuccess) :
    DecodedMember gLogLvl contents payload name decoded.structData decoded.dataCnt ↔
      ∃ input, getObjectItem payload name = some input ∧
        jsonDataToStructData gLogLvl contents input = jsonDataToStructData gLogLvl contents item := by
  rw [DecodedMember, hdecoded, ← hret]

/-- The properties are what is decoded if there are any. -/
theorem decodedMember_properties_iff {decoded : DecodedData} (hitem : paramsItem payload = some item)
    (hdecoded : jsonDataToStructData gLogLvl contents item = some decoded)
    (hret : decoded.ret = leSuccess) :
    DecodedMember gLogLvl contents payload (.lit "properties") decoded.structData
        decoded.dataCnt ↔ (getObjectItem payload (.lit "properties")).isSome := by
  rw [decodedMember_iff hdecoded hret]
  rw [paramsItem] at hitem
  cases hproperties : getObjectItem payload (.lit "properties") with
  | none => simp
  | some properties =>
    rw [hproperties] at hitem
    cases hitem
    simp

/-- The input data is what is decoded unless there are properties that decode otherwise. -/
theorem decodedMember_inputData_iff {decoded : DecodedData} (hitem : paramsItem payload = some item)
    (hdecoded : jsonDataToStructData gLogLvl contents item = some decoded)
    (hret : decoded.ret = leSuccess) :
    DecodedMember gLogLvl contents payload (.lit "inputData") decoded.structData
        decoded.dataCnt ↔
      ∃ input, getObjectItem payload (.lit "inputData") = some input ∧
        ∀ properties, getObjectItem payload (.lit "properties") = some properties →
          jsonDataToStructData gLogLvl contents properties =
            jsonDataToStructData gLogLvl contents input := by
  rw [decodedMember_iff hdecoded hret]
  apply exists_congr
  intro input
  apply and_congr_right
  intro hinput
  rw [paramsItem] at hitem
  cases hproperties : getObjectItem payload (.lit "properties") with
  | none =>
    rw [hproperties, hinput] at hitem
    cases hitem
    simp
  | some properties =>
    rw [hproperties] at hitem
    cases hitem
    simp [eq_comm]

section Invocations
variable {method : Option CStr} {pk dn serviceName : Option CStr} {data : List LedaDeviceData}
  {dataCnt ret : Int32} {usrData : P}

theorem rightArguments_getProperties_iff :
    RightArguments gDevsCb gLogLvl contents method payload
        (.getProperties pk dn data dataCnt usrData ret) ↔
      method = some methodGetProperty ∧ MemberString payload (.lit "productKey") pk ∧
        MemberString payload (.lit "deviceName") dn ∧
        DecodedMember gLogLvl contents payload (.lit "properties") data dataCnt ∧
        usrData = gDevsCb.usrDataGetProperty := by
  constructor
  · intro h
    cases h with
    | getProperties hmethod hpk hdn hdata => exact ⟨hmethod, hpk, hdn, hdata, rfl⟩
  · rintro ⟨hmethod, hpk, hdn, hdata, rfl⟩
    exact .getProperties hmethod hpk hdn hdata

theorem rightArguments_setProperties_iff :
    RightArguments gDevsCb gLogLvl contents method payload
        (.setProperties pk dn data dataCnt usrData ret) ↔
      method = some methodSetProperty ∧ MemberString payload (.lit "productKey") pk ∧
        MemberString payload (.lit "deviceName") dn ∧
        DecodedMember gLogLvl contents payload (.lit "properties") data dataCnt ∧
        usrData = gDevsCb.usrDataSetProperty := by
  constructor
  · intro h
    cases h with
    | setProperties hmethod hpk hdn hdata => exact ⟨hmethod, hpk, hdn, hdata, rfl⟩
  · rintro ⟨hmethod, hpk, hdn, hdata, rfl⟩
    exact .setProperties hmethod hpk hdn hdata

theorem rightArguments_callService_iff :
    RightArguments gDevsCb gLogLvl contents method payload
        (.callService pk dn serviceName data dataCnt usrData ret) ↔
      method = some methodCallService ∧ MemberString payload (.lit "productKey") pk ∧
        MemberString payload (.lit "deviceName") dn ∧
        MemberString payload (.lit "identifier") serviceName ∧
        DecodedMember gLogLvl contents payload (.lit "inputData") data dataCnt ∧
        usrData = gDevsCb.usrDataCallService := by
  constructor
  · intro h
    cases h with
    | callService hmethod hpk hdn hname hdata => exact ⟨hmethod, hpk, hdn, hname, hdata, rfl⟩
  · rintro ⟨hmethod, hpk, hdn, hname, hdata, rfl⟩
    exact .callService hmethod hpk hdn hname hdata

end Invocations

/-- The dispatch of decoded data. -/
theorem dispatchMethod_arguments_iff {parsedMsg : ParsedMsg} {decoded : DecodedData}
    {method : CStr} (hmethod : parsedMsg.method = .snprintf 16 method)
    (hpk : getObjectItem parsedMsg.payload (.lit "productKey") = some pk)
    (hdn : getObjectItem parsedMsg.payload (.lit "deviceName") = some dn)
    (hitem : paramsItem parsedMsg.payload = some item)
    (hdecoded : jsonDataToStructData gLogLvl contents item = some decoded)
    (hret : decoded.ret = leSuccess) :
    (∀ e ∈ dispatchMethod gDevsCb gLogLvl parsedMsg pk.valuestring dn.valuestring decoded,
        e.IsInvocation →
          RightArguments gDevsCb gLogLvl contents (some method) parsedMsg.payload e) ↔
      LinedUp gDevsCb gLogLvl contents parsedMsg.payload pk dn method := by
  obtain ⟨hgetset, hgetcall, hsetcall⟩ := served_methods_ne
  have hname := ParsedMsg.method_str_eq_iff hmethod
  rw [dispatchMethod]
  simp only [hname methodGetProperty (by decide), hname methodSetProperty (by decide),
    hname methodCallService (by decide)]
  by_cases hget : method = methodGetProperty
  · rw [if_pos hget, getProperties_invocations]
    simp only [rightArguments_getProperties_iff, memberString_iff hpk, memberString_iff hdn,
      decodedMember_properties_iff hitem hdecoded hret]
    constructor
    · intro h
      refine ⟨fun _ hcb ↦ ?_, fun hset ↦ absurd (hget.symm.trans hset) hgetset,
        fun hcall ↦ absurd (hget.symm.trans hcall) hgetcall⟩
      obtain ⟨cb, hcb⟩ := Option.isSome_iff_exists.mp hcb
      obtain ⟨-, hpk, hdn, hdata, -⟩ := h cb hcb
      exact ⟨hpk, hdn, hdata⟩
    · intro h cb hcb
      obtain ⟨hpk, hdn, hdata⟩ := h.getProperty hget (by rw [hcb]; rfl)
      exact ⟨congrArg some hget, hpk, hdn, hdata, trivial⟩
  rw [if_neg hget]
  by_cases hset : method = methodSetProperty
  · rw [if_pos hset, setProperties_invocations]
    simp only [rightArguments_setProperties_iff, memberString_iff hpk, memberString_iff hdn,
      decodedMember_properties_iff hitem hdecoded hret]
    constructor
    · intro h
      refine ⟨fun h ↦ absurd h hget, fun _ cb hcb ↦ (h cb hcb).2,
        fun hcall ↦ absurd (hset.symm.trans hcall) hsetcall⟩
    · intro h cb hcb
      exact ⟨congrArg some hset, h.setProperty hset cb hcb⟩
  rw [if_neg hset]
  by_cases hcall : method = methodCallService
  · rw [if_pos hcall]
    cases hid : getObjectItem parsedMsg.payload (.lit "identifier") with
    | none =>
      refine iff_of_true (fun e he ↦ absurd he List.not_mem_nil)
        ⟨fun h ↦ absurd h hget, fun h ↦ absurd h hset, fun _ _ _ serviceName h ↦ ?_⟩
      cases hid.symm.trans h
    | some serviceName =>
      simp only [callService_invocations, rightArguments_callService_iff, memberString_iff hpk,
        memberString_iff hdn, memberString_iff hid,
        decodedMember_inputData_iff hitem hdecoded hret]
      constructor
      · intro h
        refine ⟨fun h ↦ absurd h hget, fun h ↦ absurd h hset, fun _ hcount hcb name hname ↦ ?_⟩
        cases hid.symm.trans hname
        obtain ⟨cb, hcb⟩ := Option.isSome_iff_exists.mp hcb
        obtain ⟨-, hpk, hdn, hname, hdata, -⟩ := h hcount cb hcb
        exact ⟨hpk, hdn, hname, hdata⟩
      · intro h hcount cb hcb
        obtain ⟨hpk, hdn, hname, hdata⟩ :=
          h.callService hcall hcount (by rw [hcb]; rfl) serviceName hid
        exact ⟨congrArg some hcall, hpk, hdn, hname, hdata, trivial⟩
  · rw [if_neg hcall]
    exact iff_of_true (fun e he ↦ absurd he List.not_mem_nil)
      ⟨fun h ↦ absurd h hget, fun h ↦ absurd h hset, fun h ↦ absurd h hcall⟩

/-- The branch for responses passes on the registered user data. -/
theorem recvRsp_arguments {parsedMsg : ParsedMsg} {pending : ReplyList} {method : Option CStr} :
    ∀ e ∈ (recvRsp gDevsCb parsedMsg pending).1, e.IsInvocation →
      RightArguments gDevsCb gLogLvl contents method payload e := by
  intro e he _
  rw [recvRsp] at he
  split at he
  · cases he
  · simp only at he
    split at he
    · split at he
      · obtain rfl := List.mem_singleton.mp he
        exact .reportReply
      · cases he
    · cases he

/-- The branch for requests. -/
theorem recvMethod_arguments_iff {parsedMsg : ParsedMsg} {method : CStr}
    (hmethod : parsedMsg.method = .snprintf 16 method) :
    (∀ e ∈ recvMethod gDevsCb gLogLvl contents parsedMsg, e.IsInvocation →
        RightArguments gDevsCb gLogLvl contents (some method) parsedMsg.payload e) ↔
      ∀ pk dn item, getObjectItem parsedMsg.payload (.lit "productKey") = some pk →
        getObjectItem parsedMsg.payload (.lit "deviceName") = some dn →
        paramsItem parsedMsg.payload = some item → Decodable gLogLvl item →
        LinedUp gDevsCb gLogLvl contents parsedMsg.payload pk dn method := by
  rw [recvMethod]
  constructor
  · intro h pk dn item hpk hdn hitem hdecodable
    obtain ⟨decoded, hdecoded, hret⟩ : ∃ decoded,
        jsonDataToStructData gLogLvl contents item = some decoded ∧ decoded.ret = leSuccess :=
      jsonDataToStructData_success_iff.mpr hdecodable
    rw [hpk, hdn, hitem] at h
    simp only [hdecoded, hret, ne_eq, not_true_eq_false, if_false] at h
    exact (dispatchMethod_arguments_iff hmethod hpk hdn hitem hdecoded hret).mp h
  · intro h
    split
    · next pk dn item hpk hdn hitem =>
      split
      · exact silent_undefined.forall_iff_true.mpr trivial
      · next decoded hdecoded =>
        split
        · exact silent_nil.forall_iff_true.mpr trivial
        · next hret =>
          have hret := not_not.mp hret
          exact (dispatchMethod_arguments_iff hmethod hpk hdn hitem hdecoded hret).mpr
            (h pk dn item hpk hdn hitem
              (jsonDataToStructData_success_iff.mp ⟨decoded, hdecoded, hret⟩))
    · exact silent_nil.forall_iff_true.mpr trivial

/-- Callbacks are passed the right arguments exactly if the message and the registration line
up. -/
theorem right_arguments_iff (gDevsCb : LedaDeviceCallback P) (gLogLvl : Int32)
    (contents : Nat → LedaDeviceData) (pending : ReplyList) (root : CJson) :
    ArgumentsRight gDevsCb gLogLvl contents root (threadpoolRecvProc gDevsCb gLogLvl contents
        (.ofReceived (ledaParseReceiveMsg root)) pending).1 ↔
      ArgumentsLinedUp gDevsCb gLogLvl contents root := by
  have hnot : ∀ {t : WsMsgType}, (ledaParseReceiveMsg root).msgType = t → t ≠ .method →
      ArgumentsLinedUp gDevsCb gLogLvl contents root :=
    fun ht hne hmethod ↦ absurd (ht.symm.trans hmethod) hne
  rw [ArgumentsRight]
  cases htype : (ledaParseReceiveMsg root).msgType with
  | invalid =>
    rw [threadpoolRecvProc, show (ParsedMsg.ofReceived (ledaParseReceiveMsg root)).msgType =
      .invalid from htype]
    exact iff_of_true (silent_nil.forall_iff_true.mpr trivial) (hnot htype (by decide))
  | rsp =>
    rw [threadpoolRecvProc, show (ParsedMsg.ofReceived (ledaParseReceiveMsg root)).msgType =
      .rsp from htype]
    exact iff_of_true recvRsp_arguments (hnot htype (by decide))
  | method =>
    obtain ⟨id, method, -, -, hmethod, hr⟩ := msgType_eq_method_iff.mp htype
    obtain ⟨hrun, hbuf⟩ := threadpoolRecvProc_method gDevsCb gLogLvl contents pending htype hmethod
    have hsome : (ledaParseReceiveMsg root).method = some method := by rw [hr]
    rw [hrun, ArgumentsLinedUp]
    simp only [hsome, htype, forall_const, Option.some.injEq]
    refine (recvMethod_arguments_iff hbuf).trans ?_
    constructor
    · rintro h pk dn item _ hpk hdn hitem hdecodable rfl
      exact h pk dn item hpk hdn hitem hdecodable
    · intro h pk dn item hpk hdn hitem hdecodable
      exact h pk dn item method hpk hdn hitem hdecodable rfl

/-- A table whose callback for setting properties is at address 1, with 2 as its user data. -/
def setPropertiesOnly : LedaDeviceCallback Nat where
  getPropertiesCb := none
  usrDataGetProperty := 0
  setPropertiesCb := some ⟨1, fun _ _ _ _ _ ↦ leSuccess⟩
  usrDataSetProperty := 2
  callServiceCb := none
  serviceOutputMaxCount := 0
  usrDataCallService := 0
  reportReplyCb := none
  usrDataReportReply := 0

/-- The callback for setting properties is passed its own address. -/
theorem set_properties_passed_itself :
    parse (getRequest methodSetProperty).renderStr = some (getRequest methodSetProperty) ∧
      Event.setProperties (some (.lit "pk")) (some (.lit "dn")) [] 0 1 leSuccess ∈
        (threadpoolRecvProc setPropertiesOnly 0 (fun _ ↦ zeroDeviceData)
          (.ofReceived (ledaParseReceiveMsg (getRequest methodSetProperty))) []).1 ∧
      ¬ ArgumentsRight setPropertiesOnly 0 (fun _ ↦ zeroDeviceData) (getRequest methodSetProperty)
        (threadpoolRecvProc setPropertiesOnly 0 (fun _ ↦ zeroDeviceData)
          (.ofReceived (ledaParseReceiveMsg (getRequest methodSetProperty))) []).1 := by
  have hmem : Event.setProperties (some (.lit "pk")) (some (.lit "dn")) [] 0 1 leSuccess ∈
      (threadpoolRecvProc setPropertiesOnly 0 (fun _ ↦ zeroDeviceData)
        (.ofReceived (ledaParseReceiveMsg (getRequest methodSetProperty))) []).1 :=
    List.mem_append_left _ (List.mem_singleton_self _)
  refine ⟨?_, hmem, ?_⟩
  · rw [parse_renderStr (finite_getRequest _), if_pos (by decide)]
  · intro h
    obtain ⟨-, -, -, -, husr⟩ := rightArguments_setProperties_iff.mp (h _ hmem trivial)
    exact absurd husr (by decide)

end Messages

end LedaSdk.Leda
