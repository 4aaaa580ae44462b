import LedaSdk.Leda.Answering
import LedaSdk.Leda.Encoding

/-!
# What a success carries

The code of a response is the result of the callback, and the payload is built afterwards from
what the callback wrote. When that cannot be encoded, `leda_rsp_get_properties` and
`leda_rsp_call_service` add a null pointer to the payload, which leaves it empty, and send the
code all the same.
-/

namespace LedaSdk.Leda
open LedaSdk.Base LedaSdk.Json

section Property
variable {P : Type} (gDevsCb : LedaDeviceCallback P) (gLogLvl : Int32)

/-- A response whose code is `LE_SUCCESS`. -/
def ReportsSuccess (response : CJson) : Prop :=
  ∃ code, getObjectItem (some response) (.lit "code") = some code ∧ code.valueint = leSuccess

/-- The payload of a response has an array with the encodings of these entries, in order. -/
def HasEncoded (response : CJson) (name : CStr) (entries : List LedaDeviceData) : Prop :=
  ∃ payload items, getObjectItem (some response) (.lit "payload") = some payload ∧
    getObjectItem (some payload) name = some (.array items) ∧
    List.Forall₂ (EncodesTo gLogLvl) entries items

/-- The result of the callback for properties, what it leaves in the array, and the event. -/
def filledProperties (pk dn : Option CStr) (decoded : DecodedData) :
    Int32 × List LedaDeviceData × List (Event P) :=
  invokeGetProperties gDevsCb pk dn decoded.structData decoded.dataCnt

/-- The same of the callback for services, whose array has `service_output_max_count`
entries. -/
def filledOutput (pk dn serviceName : Option CStr) (decoded : DecodedData) :
    Int32 × List LedaDeviceData × List (Event P) :=
  invokeCallService gDevsCb pk dn serviceName decoded.structData decoded.dataCnt
    (List.replicate gDevsCb.serviceOutputMaxCount.toNatClampNeg zeroDeviceData)

/-- The entries that a success has to carry, under a name: one for each property that is
requested, or the output before the first empty key. -/
inductive Expected (payload : Option CJson) (pk dn : Option CStr) (item : CJson)
    (decoded : DecodedData) : CStr → CStr → List LedaDeviceData → Prop where
  | properties
      (hlen : (filledProperties gDevsCb pk dn decoded).2.1.length = (childItems item).length) :
      Expected payload pk dn item decoded methodGetProperty (.lit "properties")
        (filledProperties gDevsCb pk dn decoded).2.1
  | outputData {serviceName : CJson}
      (hid : getObjectItem payload (.lit "identifier") = some serviceName) :
      Expected payload pk dn item decoded methodCallService (.lit "outputData")
        (outputPrefix (filledOutput gDevsCb pk dn serviceName.valuestring decoded).2.1)

/-- A response that carries what a success has to carry for a request with this payload. -/
def CompleteResponse (contents : Nat → LedaDeviceData) (payload : Option CJson) (method : CStr)
    (response : CJson) : Prop :=
  ∃ pk dn item decoded name entries, getObjectItem payload (.lit "productKey") = some pk ∧
    getObjectItem payload (.lit "deviceName") = some dn ∧ paramsItem payload = some item ∧
    jsonDataToStructData gLogLvl contents item = some decoded ∧
    Expected gDevsCb payload pk.valuestring dn.valuestring item decoded method name entries ∧
    HasEncoded gLogLvl response name entries

/-- A run that is defined, and whose successes are good. -/
def Sound (Good : CJson → Prop) (events : List (Event P)) : Prop :=
  Event.undefined ∉ events ∧
    ∀ response ∈ events.filterMap Event.sent?, ReportsSuccess response → Good response

/-- Every response to a request that reports success is complete. -/
def SuccessComplete (contents : Nat → LedaDeviceData) (request : CJson)
    (events : List (Event P)) : Prop :=
  Sound (fun response ↦ ∃ method,
    getObjectItem (some request) (.lit "method") = some (.string method) ∧
      CompleteResponse gDevsCb gLogLvl contents (ledaParseReceiveMsg request).payload method
        response) events

end Property

section Condition
variable {P : Type} (gDevsCb : LedaDeviceCallback P) (gLogLvl : Int32)

/-- If the callback succeeds, every entry it leaves can be encoded. -/
inductive Backed (payload : Option CJson) (pk dn : Option CStr) (item : CJson)
    (decoded : DecodedData) : CStr → Prop where
  | getProperty
      (h : (filledProperties gDevsCb pk dn decoded).1 = leSuccess →
        (childItems item).length ≤ intMax.toNat ∧
          ∀ d ∈ (filledProperties gDevsCb pk dn decoded).2.1, EncodableEntry gLogLvl d) :
      Backed payload pk dn item decoded methodGetProperty
  | callService
      (h : ∀ serviceName, getObjectItem payload (.lit "identifier") = some serviceName →
        (filledOutput gDevsCb pk dn serviceName.valuestring decoded).1 = leSuccess →
          ∀ d ∈ outputPrefix (filledOutput gDevsCb pk dn serviceName.valuestring decoded).2.1,
            EncodableEntry gLogLvl d) :
      Backed payload pk dn item decoded methodCallService

/-- The data of a request, if it reaches the decoder, is refused, or it can be decoded and the
callback's output can be encoded if it succeeds. -/
def SuccessBacked (contents : Nat → LedaDeviceData) (payload : Option CJson) (method : CStr) :
    Prop :=
  ∀ pk dn item, getObjectItem payload (.lit "productKey") = some pk →
    getObjectItem payload (.lit "deviceName") = some dn → paramsItem payload = some item →
    Refuses item gLogLvl ∨ Decodable gLogLvl item ∧
      ∀ decoded, jsonDataToStructData gLogLvl contents item = some decoded →
        Backed gDevsCb gLogLvl payload pk.valuestring dn.valuestring item decoded method

end Condition

section Responses
variable {gLogLvl code msgId : Int32} {name : CStr} {entries : List LedaDeviceData}

theorem reportsSuccess_rspRoot {payload : Option CJson} :
    ReportsSuccess (rspRoot code msgId payload) ↔ code = leSuccess := by
  rw [ReportsSuccess, (getObjectItem_rspRoot code msgId payload).1]
  simp [CJson.valueint, saturate_ofInt]

theorem hasEncoded_rspRoot {payload : CJson} :
    HasEncoded gLogLvl (rspRoot code msgId (some payload)) name entries ↔
      ∃ items, getObjectItem (some payload) name = some (.array items) ∧
        List.Forall₂ (EncodesTo gLogLvl) entries items := by
  rw [HasEncoded, (getObjectItem_rspRoot code msgId (some payload)).2.2]
  simp

theorem getObjectItem_singleton (name : CStr) (json : CJson) :
    getObjectItem (some (.object (addItemToObject [] name (some json)))) name = some json := by
  rw [addItemToObject, List.nil_append, getObjectItem_cons, if_pos]
  exact beq_self_eq_true _

end Responses

section Steps
variable {P : Type} {Good Good' : CJson → Prop} {gDevsCb : LedaDeviceCallback P}
  {gLogLvl msgId ret : Int32} {method name : CStr} {pk dn serviceName : Option CStr}
  {data output : List LedaDeviceData} {dataCnt : Int32} {payload : Option CJson}
  {invoked events : List (Event P)}

theorem sound_nil : Sound Good ([] : List (Event P)) :=
  ⟨List.not_mem_nil, fun _ h ↦ absurd h List.not_mem_nil⟩

theorem not_sound_undefined : ¬ Sound Good [(.undefined : Event P)] :=
  fun h ↦ h.1 (List.mem_singleton_self _)

theorem sound_congr (h : ∀ response, Good response ↔ Good' response) :
    Sound Good events ↔ Sound Good' events := by
  simp only [Sound, h]

/-- The invocation before a response sends nothing. -/
theorem Quiet.sound_append_iff (h : Quiet method ret invoked) :
    Sound Good (invoked ++ events) ↔ Sound Good events := by
  rw [Sound, Sound, List.filterMap_append, h.sent, List.nil_append, List.mem_append, not_or]
  simp only [h.defined, not_false_eq_true, true_and]

/-- A response is sound exactly if it cannot be printed, reports an error or is good. -/
theorem sound_ledaSendRsp_iff :
    Sound Good (ledaSendRsp ret msgId payload : List (Event P)) ↔
      ((rspRoot ret msgId payload).render.length + 2 ≤ intMax.toNat → ret = leSuccess →
        Good (rspRoot ret msgId payload)) := by
  have hdefined : Event.undefined ∉ (ledaSendRsp ret msgId payload : List (Event P)) :=
    fun h ↦ mem_ledaSendRsp h rfl
  rw [Sound, ledaSendRsp, sent_addRspMsg]
  rw [ledaSendRsp] at hdefined
  simp only [hdefined, not_false_eq_true, true_and]
  split
  · next hfits => simp [reportsSuccess_rspRoot, hfits]
  · next hfits => simp [hfits]

/-- An error is sound. -/
theorem sound_error (h : ret ≠ leSuccess) :
    Sound Good (ledaSendRsp ret msgId payload : List (Event P)) :=
  sound_ledaSendRsp_iff.mpr fun _ hret ↦ absurd hret h

/-- A success with the encoding of an array is sound exactly if every entry can be encoded;
what else it takes holds unless the array is empty. -/
theorem sound_encoded_iff {L : Prop} (hL : ¬ L → output = [])
    (hshort : (CJson.object [(name, .array [])]).render.length ≤ 1000) :
    Sound (fun response ↦ L ∧ HasEncoded gLogLvl response name output)
        (match structDataToJsonData gLogLvl output with
          | none => [(.undefined : Event P)]
          | some json =>
            ledaSendRsp leSuccess msgId (some (.object (addItemToObject [] name json)))) ↔
      L ∧ ∀ d ∈ output, EncodableEntry gLogLvl d := by
  constructor
  · intro h
    constructor
    · by_contra hnot
      obtain rfl := hL hnot
      have hgood := sound_ledaSendRsp_iff.mp h
        (rspRoot_fits_of_le leSuccess msgId (some (.object [(name, .array [])])) hshort) rfl
      exact hnot hgood.1
    · rw [← exists_structDataToJsonData_iff]
      generalize structDataToJsonData gLogLvl output = encoded at h
      rcases encoded with - | - | json
      · exact absurd h not_sound_undefined
      · -- The empty payload is printed, and has no member.
        have hgood := sound_ledaSendRsp_iff.mp h
          (rspRoot_fits_of_le leSuccess msgId (some (.object [])) (by decide)) rfl
        obtain ⟨items, hitems, -⟩ := hasEncoded_rspRoot.mp hgood.2
        cases hitems
      · exact ⟨json, rfl⟩
  · rintro ⟨hl, hall⟩
    obtain ⟨json, hjson⟩ := exists_structDataToJsonData_iff.mpr hall
    obtain ⟨items, rfl, hitems⟩ := structDataToJsonData_eq_some_iff.mp hjson
    rw [hjson]
    apply sound_ledaSendRsp_iff.mpr
    intro _ _
    exact ⟨hl, hasEncoded_rspRoot.mpr ⟨items, getObjectItem_singleton name _, hitems⟩⟩

/-- A success that cannot be encoded is sent with an empty payload. -/
theorem sent_ledaRspGetProperties_null (decoded : DecodedData)
    (hret : (filledProperties gDevsCb pk dn decoded).1 = leSuccess)
    (hnull : structDataToJsonData gLogLvl (filledProperties gDevsCb pk dn decoded).2.1 =
      some none) :
    (ledaRspGetProperties gDevsCb gLogLvl pk dn msgId decoded.structData
        decoded.dataCnt).filterMap Event.sent? =
      [rspRoot leSuccess msgId (some (.object []))] := by
  have hq : Quiet methodGetProperty (filledProperties gDevsCb pk dn decoded).1
    (filledProperties gDevsCb pk dn decoded).2.2 := quiet_invokeGetProperties
  rw [filledProperties] at hret hnull hq
  rw [ledaRspGetProperties, List.filterMap_append, hq.sent, List.nil_append, if_pos hret]
  simp only [hnull, hret]
  rw [ledaSendRsp, sent_addRspMsg, addItemToObject, if_pos]
  exact rspRoot_fits_of_le leSuccess msgId (some (.object [])) (by decide)

/-- `leda_rsp_get_properties` on data that is as long as the array of a request, unless that is
too long to be counted and the data is empty. -/
theorem getProperties_sound_iff {decoded : DecodedData} {n : Nat}
    (hdata : decoded.structData.length = if n ≤ intMax.toNat then n else 0) :
    Sound (fun response ↦ (filledProperties gDevsCb pk dn decoded).2.1.length = n ∧
          HasEncoded gLogLvl response (.lit "properties")
            (filledProperties gDevsCb pk dn decoded).2.1)
        (ledaRspGetProperties gDevsCb gLogLvl pk dn msgId decoded.structData decoded.dataCnt) ↔
      ((filledProperties gDevsCb pk dn decoded).1 = leSuccess → n ≤ intMax.toNat ∧
        ∀ d ∈ (filledProperties gDevsCb pk dn decoded).2.1, EncodableEntry gLogLvl d) := by
  have hq : Quiet methodGetProperty (filledProperties gDevsCb pk dn decoded).1
    (filledProperties gDevsCb pk dn decoded).2.2 := quiet_invokeGetProperties
  have hlen : (filledProperties gDevsCb pk dn decoded).2.1.length = decoded.structData.length := by
    rw [filledProperties, invokeGetProperties]
    cases gDevsCb.getPropertiesCb with
    | none => rfl
    | some cb => exact List.length_mapIdx
  rw [ledaRspGetProperties, ← filledProperties]
  generalize filledProperties gDevsCb pk dn decoded = r at hq hlen ⊢
  obtain ⟨ret, output, invoked⟩ := r
  simp only at hq hlen ⊢
  rw [hq.sound_append_iff]
  by_cases hret : ret = leSuccess
  · have hcount : output.length = n ↔ n ≤ intMax.toNat := by
      rw [hlen, hdata]
      split
      · next h => exact iff_of_true rfl h
      · next h => exact iff_of_false (by omega) h
    simp only [hret, if_true, forall_const, hcount]
    apply sound_encoded_iff _ (by decide)
    intro h
    rw [← List.length_eq_zero_iff, hlen, hdata, if_neg h]
  · simp only [hret, if_false, false_implies, iff_true]
    exact sound_error hret

/-- `leda_rsp_call_service`. -/
theorem callService_sound_iff {decoded : DecodedData} :
    Sound (fun response ↦ HasEncoded gLogLvl response (.lit "outputData")
          (outputPrefix (filledOutput gDevsCb pk dn serviceName decoded).2.1))
        (ledaRspCallService gDevsCb gLogLvl pk dn msgId serviceName decoded.structData
          decoded.dataCnt) ↔
      ((filledOutput gDevsCb pk dn serviceName decoded).1 = leSuccess →
        ∀ d ∈ outputPrefix (filledOutput gDevsCb pk dn serviceName decoded).2.1,
          EncodableEntry gLogLvl d) := by
  have hq : Quiet methodCallService (filledOutput gDevsCb pk dn serviceName decoded).1
    (filledOutput gDevsCb pk dn serviceName decoded).2.2 := quiet_invokeCallService
  by_cases hcount : gDevsCb.serviceOutputMaxCount.toInt < 0
  · -- Nothing is sent, and the callback had no array to write to.
    have hempty : (filledOutput gDevsCb pk dn serviceName decoded).2.1 = [] := by
      rw [filledOutput, invokeCallService, Int32.toNatClampNeg, Int.toNat_of_nonpos (by omega)]
      cases gDevsCb.callServiceCb <;> rfl
    rw [ledaRspCallService, if_pos ((ptrdiffMax_lt_iff _).mpr hcount), hempty]
    exact iff_of_true sound_nil fun _ _ hd ↦ absurd hd List.not_mem_nil
  rw [ledaRspCallService, if_neg (mt (ptrdiffMax_lt_iff _).mp hcount)]
  simp only [filledOutput] at hq ⊢
  cases hcb : gDevsCb.callServiceCb.isSome with
  | false =>
    rw [invokeCallService_none hcb]
    simp only [Bool.false_eq_true, false_and, if_false, outputPrefix_zero]
    rw [List.nil_append, show structDataToJsonData gLogLvl [] = some (some (.array [])) from rfl]
    exact iff_of_true (sound_error leErrorUnknown_ne) fun h ↦ absurd h leErrorUnknown_ne
  | true =>
    generalize invokeCallService gDevsCb pk dn serviceName decoded.structData decoded.dataCnt
      (List.replicate gDevsCb.serviceOutputMaxCount.toNatClampNeg zeroDeviceData) = r at hq ⊢
    obtain ⟨ret, output, invoked⟩ := r
    simp only [true_and] at hq ⊢
    rw [hq.sound_append_iff]
    by_cases hret : ret = leSuccess
    · simp only [hret, ne_eq, not_true_eq_false, if_false, forall_const]
      rw [← true_and (∀ d ∈ outputPrefix output, EncodableEntry gLogLvl d),
        sound_congr fun response ↦ iff_of_eq (true_and _).symm]
      exact sound_encoded_iff (fun h ↦ absurd trivial h) (by decide)
    · simp only [hret, ne_eq, not_false_eq_true, if_true, false_implies, iff_true]
      exact sound_error hret

end Steps

section Requests
variable {P : Type} {gDevsCb : LedaDeviceCallback P} {gLogLvl : Int32}
  {contents : Nat → LedaDeviceData} {payload : Option CJson} {pk dn : Option CStr}
  {item request response : CJson} {decoded : DecodedData} {method name : CStr}
  {entries : List LedaDeviceData}

theorem expected_getProperty_iff :
    (∃ name entries, Expected gDevsCb payload pk dn item decoded methodGetProperty name entries ∧
        HasEncoded gLogLvl response name entries) ↔
      (filledProperties gDevsCb pk dn decoded).2.1.length = (childItems item).length ∧
        HasEncoded gLogLvl response (.lit "properties")
          (filledProperties gDevsCb pk dn decoded).2.1 := by
  constructor
  · rintro ⟨name, entries, h, hencoded⟩
    generalize hm : methodGetProperty = m at h
    cases h with
    | properties hlen => exact ⟨hlen, hencoded⟩
    | outputData hid => exact absurd hm served_methods_ne.2.1
  · rintro ⟨hlen, hencoded⟩
    exact ⟨_, _, .properties hlen, hencoded⟩

theorem expected_callService_iff {serviceName : CJson}
    (hid : getObjectItem payload (.lit "identifier") = some serviceName) :
    (∃ name entries, Expected gDevsCb payload pk dn item decoded methodCallService name entries ∧
        HasEncoded gLogLvl response name entries) ↔
      HasEncoded gLogLvl response (.lit "outputData")
        (outputPrefix (filledOutput gDevsCb pk dn serviceName.valuestring decoded).2.1) := by
  constructor
  · rintro ⟨name, entries, h, hencoded⟩
    generalize hm : methodCallService = m at h
    cases h with
    | properties hlen => exact absurd hm.symm served_methods_ne.2.1
    | outputData hid' =>
      rw [hid] at hid'
      cases hid'
      exact hencoded
  · intro hencoded
    exact ⟨_, _, .outputData hid, hencoded⟩

theorem backed_getProperty_iff :
    Backed gDevsCb gLogLvl payload pk dn item decoded methodGetProperty ↔
      ((filledProperties gDevsCb pk dn decoded).1 = leSuccess →
        (childItems item).length ≤ intMax.toNat ∧
          ∀ d ∈ (filledProperties gDevsCb pk dn decoded).2.1, EncodableEntry gLogLvl d) := by
  constructor
  · intro h
    generalize hm : methodGetProperty = m at h
    cases h with
    | getProperty h => exact h
    | callService h => exact absurd hm served_methods_ne.2.1
  · exact .getProperty

theorem backed_callService_iff :
    Backed gDevsCb gLogLvl payload pk dn item decoded methodCallService ↔
      ∀ serviceName, getObjectItem payload (.lit "identifier") = some serviceName →
        (filledOutput gDevsCb pk dn serviceName.valuestring decoded).1 = leSuccess →
          ∀ d ∈ outputPrefix (filledOutput gDevsCb pk dn serviceName.valuestring decoded).2.1,
            EncodableEntry gLogLvl d := by
  constructor
  · intro h
    generalize hm : methodCallService = m at h
    cases h with
    | getProperty h => exact absurd hm.symm served_methods_ne.2.1
    | callService h => exact h
  · exact .callService

/-- The decoder counts the children as an `int`. -/
theorem length_structData (h : jsonDataToStructData gLogLvl contents item = some decoded)
    (hret : decoded.ret = leSuccess) :
    decoded.structData.length =
      if (childItems item).length ≤ intMax.toNat then (childItems item).length else 0 := by
  by_cases hpos : getArraySize item ≤ 0
  · rw [jsonDataToStructData_nonpos hpos] at h
    cases h
    split
    · next hlen =>
      have hsize := getArraySize_eq hlen
      have hle := Int32.le_iff_toInt_le.mp hpos
      rw [hsize, Int32.toInt_zero] at hle
      exact (Int.natCast_nonpos_iff.mp hle).symm
    · rfl
  · obtain ⟨hlen, -, hdata, -⟩ := jsonDataToStructData_success hpos h hret
    rw [hdata, if_pos hlen]

/-- The dispatch of decoded data. -/
theorem dispatchMethod_sound_iff {parsedMsg : ParsedMsg}
    (hmethod : parsedMsg.method = .snprintf 16 method)
    (hserved : method = methodGetProperty ∨ method = methodCallService)
    (hdata : decoded.structData.length =
      if (childItems item).length ≤ intMax.toNat then (childItems item).length else 0) :
    Sound (fun response ↦ ∃ name entries,
          Expected gDevsCb parsedMsg.payload pk dn item decoded method name entries ∧
            HasEncoded gLogLvl response name entries)
        (dispatchMethod gDevsCb gLogLvl parsedMsg pk dn decoded) ↔
      Backed gDevsCb gLogLvl parsedMsg.payload pk dn item decoded method := by
  have hname := ParsedMsg.method_str_eq_iff hmethod
  rw [dispatchMethod]
  simp only [hname methodGetProperty (by decide), hname methodSetProperty (by decide),
    hname methodCallService (by decide)]
  rcases hserved with rfl | rfl
  · rw [if_pos rfl, backed_getProperty_iff, sound_congr fun _ ↦ expected_getProperty_iff]
    exact getProperties_sound_iff hdata
  · rw [if_neg served_methods_ne.2.1.symm, if_neg (by decide), if_pos rfl,
      backed_callService_iff]
    cases hid : getObjectItem parsedMsg.payload (.lit "identifier") with
    | none => exact iff_of_true sound_nil fun serviceName h ↦ by cases h
    | some serviceName =>
      simp only [Option.some.injEq, forall_eq']
      rw [sound_congr fun _ ↦ expected_callService_iff hid]
      exact callService_sound_iff

/-- The branch for requests. -/
theorem recvMethod_sound_iff {parsedMsg : ParsedMsg}
    (hmethod : parsedMsg.method = .snprintf 16 method)
    (hserved : method = methodGetProperty ∨ method = methodCallService) :
    Sound (CompleteResponse gDevsCb gLogLvl contents parsedMsg.payload method)
        (recvMethod gDevsCb gLogLvl contents parsedMsg) ↔
      SuccessBacked gDevsCb gLogLvl contents parsedMsg.payload method := by
  by_cases hfound : ∃ pk dn item, getObjectItem parsedMsg.payload (.lit "productKey") = some pk ∧
      getObjectItem parsedMsg.payload (.lit "deviceName") = some dn ∧
      paramsItem parsedMsg.payload = some item
  · obtain ⟨pk, dn, item, hpk, hdn, hitem⟩ := hfound
    have hgood : ∀ response,
        CompleteResponse gDevsCb gLogLvl contents parsedMsg.payload method response ↔
          ∃ decoded, jsonDataToStructData gLogLvl contents item = some decoded ∧
            ∃ name entries, Expected gDevsCb parsedMsg.payload pk.valuestring dn.valuestring item
              decoded method name entries ∧ HasEncoded gLogLvl response name entries := by
      intro response
      simp [CompleteResponse, hpk, hdn, hitem]
    have hbacked : SuccessBacked gDevsCb gLogLvl contents parsedMsg.payload method ↔
        Refuses item gLogLvl ∨ Decodable gLogLvl item ∧
          ∀ decoded, jsonDataToStructData gLogLvl contents item = some decoded →
            Backed gDevsCb gLogLvl parsedMsg.payload pk.valuestring dn.valuestring item decoded
              method := by
      simp [SuccessBacked, hpk, hdn, hitem]
    have herror : (∃ decoded, jsonDataToStructData gLogLvl contents item = some decoded ∧
        decoded.ret ≠ leSuccess) ↔ Refuses item gLogLvl := jsonDataToStructData_error_iff
    have hsuccess : (∃ decoded, jsonDataToStructData gLogLvl contents item = some decoded ∧
        decoded.ret = leSuccess) ↔ Decodable gLogLvl item := jsonDataToStructData_success_iff
    rw [recvMethod, hpk, hdn, hitem, sound_congr hgood, hbacked, ← herror, ← hsuccess]
    cases hdecoded : jsonDataToStructData gLogLvl contents item with
    | none => simp [hdecoded, not_sound_undefined]
    | some decoded =>
      simp only [hdecoded, Option.some.injEq, exists_eq_left', forall_eq']
      by_cases hret : decoded.ret = leSuccess
      · simp only [hret, ne_eq, not_true_eq_false, if_false, false_or, true_and]
        exact dispatchMethod_sound_iff hmethod hserved (length_structData hdecoded hret)
      · simp only [hret, ne_eq, not_false_eq_true, if_true, true_or, iff_true]
        exact sound_nil
  · have hnil : recvMethod gDevsCb gLogLvl contents parsedMsg = [] := by
      rw [recvMethod]
      split
      · next pk dn item hpk hdn hitem => exact absurd ⟨pk, dn, item, hpk, hdn, hitem⟩ hfound
      · rfl
    rw [hnil]
    apply iff_of_true sound_nil
    intro pk dn item hpk hdn hitem
    exact absurd ⟨pk, dn, item, hpk, hdn, hitem⟩ hfound

/-- A success carries a complete payload exactly if the callback's success is backed. -/
theorem success_complete_iff (gDevsCb : LedaDeviceCallback P) (gLogLvl : Int32)
    (contents : Nat → LedaDeviceData) (pending : ReplyList) (request : CJson) (method : CStr)
    (hreq : (ledaParseReceiveMsg request).msgType = .method)
    (hmethod : getObjectItem (some request) (.lit "method") = some (.string method))
    (hserved : method = methodGetProperty ∨ method = methodCallService) :
    SuccessComplete gDevsCb gLogLvl contents request (threadpoolRecvProc gDevsCb gLogLvl contents
        (.ofReceived (ledaParseReceiveMsg request)) pending).1 ↔
      SuccessBacked gDevsCb gLogLvl contents (ledaParseReceiveMsg request).payload method := by
  obtain ⟨hrun, hbuf⟩ := threadpoolRecvProc_method gDevsCb gLogLvl contents pending hreq hmethod
  rw [SuccessComplete, hrun]
  refine Iff.trans (sound_congr ?_) (recvMethod_sound_iff hbuf hserved)
  intro response
  simp [hmethod, ParsedMsg.ofReceived]

end Requests

section Examples

/-- The success for a request of one property is backed exactly if `cJSON_Parse` accepts the
text. -/
theorem successBacked_modeReporter (value : CStr) :
    SuccessBacked (modeReporter value) 0 (fun _ ↦ zeroDeviceData)
        (ledaParseReceiveMsg modeRequest).payload methodGetProperty ↔
      parse (modeEntry value).value.str ≠ none := by
  have hentry : EncodableEntry 0 (modeEntry value) ↔ parse (modeEntry value).value.str ≠ none := by
    simp [EncodableEntry, RefusedEntry, modeEntry, ofInt32?_toInt32]
  have hnot : ¬ Refuses (.array [.string (.lit "mode")]) 0 := by
    intro h
    obtain ⟨decoded, hdecoded, hret⟩ : ∃ decoded, jsonDataToStructData 0 (fun _ ↦ zeroDeviceData)
        (.array [.string (.lit "mode")]) = some decoded ∧ decoded.ret ≠ leSuccess :=
      jsonDataToStructData_error_iff.mpr h
    cases hdecoded
    exact hret rfl
  rw [← hentry]
  constructor
  · intro h
    rcases h (.string (.lit "pk")) (.string (.lit "dn")) _ rfl rfl rfl with h | ⟨-, h⟩
    · exact absurd h hnot
    · exact ((backed_getProperty_iff.mp (h _ rfl)) rfl).2 _ (List.mem_singleton_self _)
  · intro h pk dn item _ _ hitem
    cases hitem
    refine .inr ⟨decodable_mode, ?_⟩
    intro decoded hdecoded
    cases hdecoded
    apply backed_getProperty_iff.mpr
    intro _
    refine ⟨by decide, ?_⟩
    intro d hd
    obtain rfl := List.mem_singleton.mp hd
    exact h

/-- A callback whose structure is a JSON value. -/
theorem success_complete_iff_modeReporter :
    SuccessComplete (modeReporter (.lit "1")) 0 (fun _ ↦ zeroDeviceData) modeRequest
      (threadpoolRecvProc (modeReporter (.lit "1")) 0 (fun _ ↦ zeroDeviceData)
        (.ofReceived (ledaParseReceiveMsg modeRequest)) []).1 :=
  (success_complete_iff (modeReporter (.lit "1")) 0 (fun _ ↦ zeroDeviceData) [] modeRequest
    methodGetProperty rfl rfl (.inl rfl)).mpr
    ((successBacked_modeReporter (.lit "1")).mpr (by decide))

/-- A structure whose text is not JSON leaves a success without its properties. -/
theorem success_without_properties :
    parse modeRequest.renderStr = some modeRequest ∧
      (threadpoolRecvProc (modeReporter (.lit "on")) 0 (fun _ ↦ zeroDeviceData)
          (.ofReceived (ledaParseReceiveMsg modeRequest)) []).1.filterMap Event.sent? =
        [rspRoot leSuccess (saturate (.ofInt 1)) (some (.object []))] ∧
      ¬ SuccessComplete (modeReporter (.lit "on")) 0 (fun _ ↦ zeroDeviceData) modeRequest
        (threadpoolRecvProc (modeReporter (.lit "on")) 0 (fun _ ↦ zeroDeviceData)
          (.ofReceived (ledaParseReceiveMsg modeRequest)) []).1 := by
  have hfinite : modeRequest.Finite :=
    ⟨finite_ofInt_one, trivial, ⟨trivial, trivial, ⟨trivial, trivial⟩, trivial⟩, trivial⟩
  have hrun : (threadpoolRecvProc (modeReporter (.lit "on")) 0 (fun _ ↦ zeroDeviceData)
      (.ofReceived (ledaParseReceiveMsg modeRequest)) []).1.filterMap Event.sent? =
        [rspRoot leSuccess (saturate (.ofInt 1)) (some (.object []))] := by
    have hrefused : RefusedEntry (modeEntry (.lit "on")) := ⟨.inl rfl, by decide⟩
    have hnull : structDataToJsonData 0 [modeEntry (.lit "on")] = some none :=
      structDataToJsonData_eq_null_iff.mpr
        (structItemsToJson_eq_null_iff.mpr ⟨[], _, [], rfl, hrefused, by simp⟩)
    let decoded : DecodedData :=
      ⟨leSuccess, [{ zeroDeviceData with key := .snprintf 64 (.lit "mode") }], 1⟩
    have hsent : (ledaRspGetProperties (modeReporter (.lit "on")) 0 (some (.lit "pk"))
        (some (.lit "dn")) (saturate (.ofInt 1)) decoded.structData decoded.dataCnt).filterMap
          Event.sent? = [rspRoot leSuccess (saturate (.ofInt 1)) (some (.object []))] :=
      sent_ledaRspGetProperties_null decoded rfl hnull
    exact hsent
  refine ⟨by rw [parse_renderStr hfinite, if_pos (by decide)], hrun, ?_⟩
  intro h
  obtain ⟨method, -, pk, dn, item, decoded, name, entries, -, -, -, -, -, hencoded⟩ :=
    h.2 _ (by rw [hrun]; exact List.mem_singleton_self _) (reportsSuccess_rspRoot.mpr rfl)
  obtain ⟨items, hitems, -⟩ := hasEncoded_rspRoot.mp hencoded
  cases hitems

end Examples

end LedaSdk.Leda
