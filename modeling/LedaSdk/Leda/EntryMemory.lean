import LedaSdk.Leda.Decoding
import LedaSdk.Leda.RecvProc

/-!
# What the callbacks see of uninitialised memory

`json_data_to_struct_data` allocates its array without clearing it and writes, child by
child, different members of the entries (`sdk/leda.c:265–336`). When the entries that reach
`set_properties_cb` and `call_service_cb` (`leda.c:703–734`) depend on the message alone.
-/

namespace LedaSdk.Leda
open LedaSdk.Base LedaSdk.Json

/-- The entries and the count that an event passes to `set_properties_cb` or
`call_service_cb`. -/
def Event.passed? {P : Type} : Event P → Option (List LedaDeviceData × Int32)
  | .setProperties _ _ data dataCnt _ _ => some (data, dataCnt)
  | .callService _ _ _ data dataCnt _ _ => some (data, dataCnt)
  | _ => none

/-- Whatever the array held, serving does not begin with undefined behaviour, and the
callbacks are passed the same entries. -/
def PassesOnlyMessage {P : Type} (serve : (Nat → LedaDeviceData) → List (Event P)) : Prop :=
  ∀ contents contents', (serve contents).head? ≠ some .undefined ∧
    (serve contents).filterMap Event.passed? = (serve contents').filterMap Event.passed?

/-- A child for which the decoder writes the key, the type and the value. -/
def FullyWritten (item : CJson) : Prop :=
  ∃ identifier type value t, ItemFields item identifier type value ∧ namedType type = some t

section Items
variable {gLogLvl : Int32} {e e' d d' : LedaDeviceData} {item : CJson}

/-- The entry made of a fully written child does not depend on what was there. -/
theorem DecodesTo.eq_of_fullyWritten (hw : FullyWritten item) (h : DecodesTo gLogLvl e item d)
    (h' : DecodesTo gLogLvl e' item d') : d = d' := by
  obtain ⟨identifier, type, value, t, hf, ht⟩ := hw
  cases h with
  | bare s => exact absurd rfl hf.ne_string
  | untyped hf1 ht1 =>
    obtain ⟨-, rfl, -⟩ := hf.unique hf1
    cases ht.symm.trans ht1
  | typed hf1 ht1 =>
    cases h' with
    | bare s => exact absurd rfl hf.ne_string
    | untyped hf2 ht2 =>
      obtain ⟨-, rfl, -⟩ := hf.unique hf2
      cases ht.symm.trans ht2
    | typed hf2 ht2 =>
      -- Both entries have the three members that the child gives.
      obtain ⟨rfl, rfl, rfl⟩ := hf1.unique hf2
      obtain rfl := Option.some.inj (ht1.symm.trans ht2)
      rfl

/-- A child of which the same entry is made over memory that differs in type and value is
fully written. -/
theorem DecodesTo.fullyWritten (h : DecodesTo gLogLvl e item d) (h' : DecodesTo gLogLvl e' item d)
    (htype : e.type ≠ e'.type) (hvalue : e.value ≠ e'.value) : FullyWritten item := by
  cases h with
  | typed hf ht _ => exact ⟨_, _, _, _, hf, ht⟩
  | bare s =>
    -- Neither the type nor the value of the entry is written.
    generalize hd : ({ e with key := .snprintf 64 s } : LedaDeviceData) = d at h'
    cases h' with
    | bare s => exact absurd (congrArg LedaDeviceData.type hd) htype
    | typed hf => exact absurd rfl hf.ne_string
    | untyped hf => exact absurd rfl hf.ne_string
  | @untyped _ identifier type value hf ht hlog =>
    -- The value of the entry is not written.
    generalize hd : e.setKeyType identifier type = d at h'
    cases h' with
    | bare s => exact absurd rfl hf.ne_string
    | typed hf ht _ => exact ⟨_, _, _, _, hf, ht⟩
    | untyped hf => exact absurd (congrArg LedaDeviceData.value hd) hvalue

end Items

section Dispatch
variable {P : Type} (gDevsCb : LedaDeviceCallback P) (gLogLvl : Int32)

/-- The value that the decoder is given for a request, if the payload names a device. -/
def decoderInput (parsedMsg : ParsedMsg) : Option CJson :=
  match parsedMsg.msgType, getObjectItem parsedMsg.payload (.lit "productKey"),
    getObjectItem parsedMsg.payload (.lit "deviceName") with
  | .method, some _, some _ => paramsItem parsedMsg.payload
  | _, _, _ => none

/-- The dispatch passes decoded entries to `set_properties_cb` or `call_service_cb`: the one
for the method is registered, and a service has a name and an output array. -/
def CallbackInvoked (parsedMsg : ParsedMsg) : Prop :=
  (parsedMsg.method.str = methodSetProperty ∧ gDevsCb.setPropertiesCb.isSome) ∨
  (parsedMsg.method.str = methodCallService ∧ gDevsCb.callServiceCb.isSome ∧
    (getObjectItem parsedMsg.payload (.lit "identifier")).isSome ∧
    0 ≤ gDevsCb.serviceOutputMaxCount.toInt)

instance (parsedMsg : ParsedMsg) : Decidable (CallbackInvoked gDevsCb parsedMsg) :=
  inferInstanceAs (Decidable (_ ∨ _))

/-- The events do not begin with undefined behaviour and pass these entries. -/
structure Passes (events : List (Event P)) (passed : List (List LedaDeviceData × Int32)) :
    Prop where
  defined : events.head? ≠ some .undefined
  passed_eq : events.filterMap Event.passed? = passed

section Steps
variable {gDevsCb} {invoked rest : List (Event P)} {gLogLvl code msgId ret dataCnt : Int32}
  {payload : Option CJson} {passed : List (List LedaDeviceData × Int32)}
  {pk dn serviceName : Option CStr} {data output : List LedaDeviceData}

private theorem Passes.append (h : Passes invoked passed)
    (hrest : rest.filterMap Event.passed? = [])
    (hdef : invoked = [] → rest.head? ≠ some .undefined) : Passes (invoked ++ rest) passed := by
  refine ⟨?_, by rw [List.filterMap_append, hrest, List.append_nil, h.passed_eq]⟩
  cases invoked with
  | nil => exact hdef rfl
  | cons e es => exact h.defined

private theorem passes_addRspMsg (root : CJson) : Passes (addRspMsg root : List (Event P)) [] := by
  rw [addRspMsg]
  cases printUnformatted (some root) with
  | none => exact ⟨by simp, rfl⟩
  | some msg => exact ⟨by simp, rfl⟩

/-- A response passes no entries. -/
private theorem Passes.send (h : Passes invoked passed) :
    Passes (invoked ++ ledaSendRsp code msgId payload) passed := by
  have hsend : Passes (addRspMsg (rspRoot code msgId payload) : List (Event P)) [] :=
    passes_addRspMsg _
  exact h.append hsend.passed_eq fun _ ↦ hsend.defined

/-- Nor does undefined behaviour after a callback. -/
private theorem Passes.undefined (h : Passes invoked passed) (hne : invoked ≠ []) :
    Passes (invoked ++ [.undefined]) passed := h.append rfl fun he ↦ absurd he hne

private theorem passes_invokeGetProperties (gDevsCb : LedaDeviceCallback P) (pk dn : Option CStr)
    (data : List LedaDeviceData) (dataCnt : Int32) :
    Passes (invokeGetProperties gDevsCb pk dn data dataCnt).2.2 [] ∧
      ((invokeGetProperties gDevsCb pk dn data dataCnt).1 = leSuccess →
        (invokeGetProperties gDevsCb pk dn data dataCnt).2.2 ≠ []) := by
  rw [invokeGetProperties]
  cases gDevsCb.getPropertiesCb with
  | none => exact ⟨⟨by simp, rfl⟩, fun h ↦ absurd h leErrorUnknown_ne⟩
  | some cb => exact ⟨⟨by simp, rfl⟩, fun _ ↦ by simp⟩

private theorem passes_ledaRspGetProperties :
    Passes (ledaRspGetProperties gDevsCb gLogLvl pk dn msgId data dataCnt) [] := by
  have hinv := passes_invokeGetProperties gDevsCb pk dn data dataCnt
  rw [ledaRspGetProperties]
  generalize invokeGetProperties gDevsCb pk dn data dataCnt = r at hinv ⊢
  obtain ⟨ret, output, invoked⟩ := r
  simp only at hinv ⊢
  by_cases hret : ret = leSuccess
  · rw [if_pos hret]
    cases structDataToJsonData gLogLvl output with
    | none => exact hinv.1.undefined (hinv.2 hret)
    | some items => exact hinv.1.send
  · rw [if_neg hret]
    exact hinv.1.send

private theorem passes_invokeSetProperties :
    Passes (invokeSetProperties gDevsCb pk dn data dataCnt).2
      (if gDevsCb.setPropertiesCb.isSome then [(data, dataCnt)] else []) := by
  rw [invokeSetProperties]
  cases gDevsCb.setPropertiesCb with
  | none => exact ⟨by simp, rfl⟩
  | some cb => exact ⟨by simp, rfl⟩

private theorem passes_ledaRspSetProperties :
    Passes (ledaRspSetProperties gDevsCb pk dn msgId data dataCnt)
      (if gDevsCb.setPropertiesCb.isSome then [(data, dataCnt)] else []) :=
  passes_invokeSetProperties.send

private theorem passes_invokeCallService (gDevsCb : LedaDeviceCallback P)
    (pk dn serviceName : Option CStr) (data output : List LedaDeviceData) (dataCnt : Int32) :
    Passes (invokeCallService gDevsCb pk dn serviceName data dataCnt output).2.2
        (if gDevsCb.callServiceCb.isSome then [(data, dataCnt)] else []) ∧
      (gDevsCb.callServiceCb.isSome = true →
        (invokeCallService gDevsCb pk dn serviceName data dataCnt output).2.2 ≠ []) ∧
      (gDevsCb.callServiceCb.isSome = false →
        (invokeCallService gDevsCb pk dn serviceName data dataCnt output).2.1 = output) := by
  rw [invokeCallService]
  cases gDevsCb.callServiceCb with
  | none => exact ⟨⟨by simp, rfl⟩, fun h ↦ (nomatch h), fun _ ↦ rfl⟩
  | some cb => exact ⟨⟨by simp, rfl⟩, fun _ ↦ by simp, fun h ↦ (nomatch h)⟩

private theorem passes_ledaRspCallService :
    Passes (ledaRspCallService gDevsCb gLogLvl pk dn msgId serviceName data dataCnt)
      (if gDevsCb.callServiceCb.isSome ∧ 0 ≤ gDevsCb.serviceOutputMaxCount.toInt then
        [(data, dataCnt)] else []) := by
  by_cases hcount : gDevsCb.serviceOutputMaxCount.toInt < 0
  · rw [ledaRspCallService, if_pos ((ptrdiffMax_lt_iff _).mpr hcount),
      if_neg (fun h ↦ Int.not_lt.mpr h.2 hcount)]
    exact ⟨by simp, rfl⟩
  · rw [ledaRspCallService, if_neg (mt (ptrdiffMax_lt_iff _).mp hcount)]
    have hinv := passes_invokeCallService gDevsCb pk dn serviceName data
      (List.replicate gDevsCb.serviceOutputMaxCount.toNatClampNeg zeroDeviceData) dataCnt
    dsimp only
    generalize invokeCallService gDevsCb pk dn serviceName data dataCnt (List.replicate
      gDevsCb.serviceOutputMaxCount.toNatClampNeg zeroDeviceData) = r at hinv ⊢
    obtain ⟨ret, output, invoked⟩ := r
    simp only [Int.not_lt.mp hcount, and_true] at hinv ⊢
    obtain ⟨hpass, hne, hzero⟩ := hinv
    split
    · exact hpass.send
    · cases hcb : gDevsCb.callServiceCb.isSome with
      | false =>
        -- The output array is still zero, and its encoding is an empty list.
        rw [hcb] at hpass
        rw [hzero hcb, outputPrefix_zero]
        exact hpass.send
      | true =>
        rw [hcb] at hpass
        cases structDataToJsonData gLogLvl (outputPrefix output) with
        | none => exact hpass.undefined (hne hcb)
        | some items => exact hpass.send

end Steps

/-- The dispatch passes the decoded entries exactly if it invokes one of the two callbacks. -/
theorem passes_dispatchMethod (parsedMsg : ParsedMsg) (pk dn : Option CStr)
    (decoded : DecodedData) :
    Passes (dispatchMethod gDevsCb gLogLvl parsedMsg pk dn decoded)
      (if CallbackInvoked gDevsCb parsedMsg then [(decoded.structData, decoded.dataCnt)]
        else []) := by
  have hgs : methodGetProperty ≠ methodSetProperty := by decide
  have hgc : methodGetProperty ≠ methodCallService := by decide
  have hsc : methodSetProperty ≠ methodCallService := by decide
  unfold dispatchMethod
  by_cases hget : parsedMsg.method.str = methodGetProperty
  · have hno : ¬ CallbackInvoked gDevsCb parsedMsg := by
      rw [CallbackInvoked, hget]
      rintro (⟨h, -⟩ | ⟨h, -⟩)
      · exact hgs h
      · exact hgc h
    rw [if_pos hget, if_neg hno]
    exact passes_ledaRspGetProperties
  rw [if_neg hget]
  by_cases hset : parsedMsg.method.str = methodSetProperty
  · have hiff : CallbackInvoked gDevsCb parsedMsg ↔ gDevsCb.setPropertiesCb.isSome = true := by
      rw [CallbackInvoked, hset]
      simp [hsc]
    rw [if_pos hset]
    simp only [hiff]
    exact passes_ledaRspSetProperties
  rw [if_neg hset]
  by_cases hcall : parsedMsg.method.str = methodCallService
  · rw [if_pos hcall]
    split
    · next hname =>
      have hno : ¬ CallbackInvoked gDevsCb parsedMsg := by
        rw [CallbackInvoked, hcall, hname]
        simp [hsc.symm]
      rw [if_neg hno]
      exact ⟨by simp, rfl⟩
    · next serviceName hname =>
      have hiff : CallbackInvoked gDevsCb parsedMsg ↔ gDevsCb.callServiceCb.isSome = true ∧
          0 ≤ gDevsCb.serviceOutputMaxCount.toInt := by
        rw [CallbackInvoked, hcall, hname]
        simp [hsc.symm]
      simp only [hiff]
      exact passes_ledaRspCallService
  · have hno : ¬ CallbackInvoked gDevsCb parsedMsg := by
      rintro (⟨h, -⟩ | ⟨h, -⟩)
      · exact hset h
      · exact hcall h
    rw [if_neg hcall, if_neg hno]
    exact ⟨by simp, rfl⟩

/-- The branch for responses passes no entries. -/
private theorem passes_recvRsp (parsedMsg : ParsedMsg) (pending : ReplyList) :
    Passes (recvRsp gDevsCb parsedMsg pending).1 [] := by
  rw [recvRsp]
  split
  · exact ⟨by simp, rfl⟩
  · dsimp only
    split
    · split
      · exact ⟨by simp, rfl⟩
      · exact ⟨by simp, rfl⟩
    · exact ⟨by simp, rfl⟩

/-- Without an input for the decoder no entries are passed. -/
private theorem passes_of_no_input {parsedMsg : ParsedMsg} (h : decoderInput parsedMsg = none)
    (contents : Nat → LedaDeviceData) (pending : ReplyList) :
    Passes (threadpoolRecvProc gDevsCb gLogLvl contents parsedMsg pending).1 [] := by
  rw [threadpoolRecvProc]
  split
  · exact passes_recvRsp gDevsCb parsedMsg pending
  · next hm =>
    have hnone : recvMethod gDevsCb gLogLvl contents parsedMsg = [] := by
      rw [recvMethod]
      split
      · next hpk hdn hitem =>
        rw [decoderInput, hm, hpk, hdn] at h
        exact absurd (h.symm.trans hitem) (by simp)
      · rfl
    rw [hnone]
    exact ⟨by simp, rfl⟩
  · exact ⟨by simp, rfl⟩

/-- With an input, the decoded entries are dispatched if there are any. -/
private theorem exists_dispatch_of_input {parsedMsg : ParsedMsg} {item : CJson}
    (h : decoderInput parsedMsg = some item) (pending : ReplyList) :
    ∃ pk dn, ∀ contents,
      (threadpoolRecvProc gDevsCb gLogLvl contents parsedMsg pending).1 =
        match jsonDataToStructData gLogLvl contents item with
        | none => [.undefined]
        | some decoded =>
          if decoded.ret ≠ leSuccess then []
          else dispatchMethod gDevsCb gLogLvl parsedMsg pk dn decoded := by
  unfold decoderInput at h
  split at h
  · next pk dn hm hpk hdn =>
    refine ⟨pk.valuestring, dn.valuestring, fun contents ↦ ?_⟩
    cases hd : jsonDataToStructData gLogLvl contents item with
    | none => simp only [threadpoolRecvProc, recvMethod, hm, hpk, hdn, h, hd]
    | some decoded => simp only [threadpoolRecvProc, recvMethod, hm, hpk, hdn, h, hd]
  · cases h

end Dispatch

section Decoded
variable {gLogLvl : Int32} {contents contents' : Nat → LedaDeviceData} {item : CJson}
  {decoded decoded' : DecodedData}

/-- Two decodings of fully written children agree. -/
theorem decoded_eq_of_fullyWritten
    (hw : getArraySize item ≤ 0 ∨ ∀ child ∈ childItems item, FullyWritten child)
    (h : jsonDataToStructData gLogLvl contents item = some decoded)
    (h' : jsonDataToStructData gLogLvl contents' item = some decoded')
    (hret : decoded.ret = leSuccess) (hret' : decoded'.ret = leSuccess) : decoded = decoded' := by
  by_cases hpos : getArraySize item ≤ 0
  · rw [jsonDataToStructData_nonpos hpos] at h h'
    exact Option.some.inj (h.symm.trans h')
  · have hw := hw.resolve_left hpos
    obtain ⟨-, hcnt, hlen, hget⟩ := jsonDataToStructData_success hpos h hret
    obtain ⟨-, hcnt', hlen', hget'⟩ := jsonDataToStructData_success hpos h' hret'
    have hdata : decoded.structData = decoded'.structData := by
      apply List.ext_getElem?
      intro k
      cases hk : (childItems item)[k]? with
      | none =>
        have hout := List.getElem?_eq_none_iff.mp hk
        rw [List.getElem?_eq_none (by omega), List.getElem?_eq_none (by omega)]
      | some child =>
        obtain ⟨d, hd, hdec⟩ := hget k child hk
        obtain ⟨d', hd', hdec'⟩ := hget' k child hk
        rw [hd, hd', hdec.eq_of_fullyWritten (hw child (List.mem_of_getElem? hk)) hdec']
    cases decoded
    cases decoded'
    simp only at hret hret' hcnt hcnt' hdata
    rw [hret, hret', hcnt, hcnt', hdata]

/-- Children whose entries agree over memory that differs everywhere are fully written. -/
theorem fullyWritten_of_decoded_eq (hpos : ¬ getArraySize item ≤ 0)
    (h : jsonDataToStructData gLogLvl contents item = some decoded)
    (h' : jsonDataToStructData gLogLvl contents' item = some decoded')
    (hret : decoded.ret = leSuccess) (hret' : decoded'.ret = leSuccess)
    (hdata : decoded.structData = decoded'.structData)
    (htype : ∀ k, (contents k).type ≠ (contents' k).type)
    (hvalue : ∀ k, (contents k).value ≠ (contents' k).value) :
    ∀ child ∈ childItems item, FullyWritten child := by
  intro child hm
  obtain ⟨k, hk⟩ := List.mem_iff_getElem?.mp hm
  obtain ⟨-, -, -, hget⟩ := jsonDataToStructData_success hpos h hret
  obtain ⟨-, -, -, hget'⟩ := jsonDataToStructData_success hpos h' hret'
  obtain ⟨d, hd, hdec⟩ := hget k child hk
  obtain ⟨d', hd', hdec'⟩ := hget' k child hk
  rw [hdata, hd'] at hd
  cases hd
  exact hdec.fullyWritten hdec' (htype k) (hvalue k)

end Decoded

/-- An entry that has neither the type nor the value of a cleared one. -/
private def dirtyDeviceData : LedaDeviceData := ⟨1, .snprintf 64 (.lit ""), .snprintf 2048 (.lit "1")⟩

section Main
variable {P : Type} (gDevsCb : LedaDeviceCallback P) (gLogLvl : Int32)

/-- The entries that the callbacks are passed depend on the message alone exactly if the
decoder refuses the value, or decodes it and then invokes no callback, makes no entry or
makes each from an object with a known type name. -/
theorem passesOnlyMessage_iff (parsedMsg : ParsedMsg) (pending : ReplyList) :
    PassesOnlyMessage (fun contents ↦
        (threadpoolRecvProc gDevsCb gLogLvl contents parsedMsg pending).1) ↔
      ∀ item, decoderInput parsedMsg = some item → Refuses item gLogLvl ∨
        (Decodable gLogLvl item ∧ (CallbackInvoked gDevsCb parsedMsg →
          getArraySize item ≤ 0 ∨ ∀ child ∈ childItems item, FullyWritten child)) := by
  constructor
  · intro hp item hinput
    obtain ⟨pk, dn, hserve⟩ := exists_dispatch_of_input gDevsCb gLogLvl hinput pending
    -- The decoder has a result, else serving would begin with undefined behaviour.
    obtain ⟨decoded, h⟩ : ∃ decoded,
        jsonDataToStructData gLogLvl (fun _ ↦ zeroDeviceData) item = some decoded := by
      apply Option.ne_none_iff_exists'.mp
      intro hnone
      have hdef := (hp (fun _ ↦ zeroDeviceData) (fun _ ↦ zeroDeviceData)).1
      simp [hserve, hnone] at hdef
    by_cases hret : decoded.ret = leSuccess
    · have hdec : Decodable gLogLvl item := jsonDataToStructData_success_iff.mp ⟨decoded, h, hret⟩
      refine .inr ⟨hdec, fun hinv ↦ ?_⟩
      by_cases hpos : getArraySize item ≤ 0
      · exact .inl hpos
      · right
        obtain ⟨decoded', h', hret'⟩ : ∃ decoded',
            jsonDataToStructData gLogLvl (fun _ ↦ dirtyDeviceData) item = some decoded' ∧
              decoded'.ret = leSuccess := jsonDataToStructData_success_iff.mpr hdec
        have hpassed := (hp (fun _ ↦ zeroDeviceData) (fun _ ↦ dirtyDeviceData)).2
        simp only [hserve, h, h', hret, hret', ne_eq, not_true_eq_false, if_false] at hpassed
        rw [(passes_dispatchMethod gDevsCb gLogLvl parsedMsg pk dn decoded).passed_eq,
          (passes_dispatchMethod gDevsCb gLogLvl parsedMsg pk dn decoded').passed_eq,
          if_pos hinv, if_pos hinv] at hpassed
        have hdata := (Prod.mk.inj (List.singleton_inj.mp hpassed)).1
        exact fullyWritten_of_decoded_eq hpos h h' hret hret' hdata (fun _ ↦ by decide)
          (fun _ ↦ by decide)
    · left
      rw [← jsonDataToStructData_error_iff]
      exact ⟨decoded, h, hret⟩
  · intro hcond contents contents'
    cases hinput : decoderInput parsedMsg with
    | none =>
      have hpass := passes_of_no_input gDevsCb gLogLvl hinput contents pending
      have hpass' := passes_of_no_input gDevsCb gLogLvl hinput contents' pending
      exact ⟨hpass.defined, hpass.passed_eq.trans hpass'.passed_eq.symm⟩
    | some item =>
      obtain ⟨pk, dn, hserve⟩ := exists_dispatch_of_input gDevsCb gLogLvl hinput pending
      rcases hcond item hinput with hrefuses | ⟨hdec, hwritten⟩
      · obtain ⟨decoded, h, hret⟩ : ∃ decoded,
            jsonDataToStructData gLogLvl contents item = some decoded ∧
              decoded.ret ≠ leSuccess := jsonDataToStructData_error_iff.mpr hrefuses
        obtain ⟨decoded', h', hret'⟩ : ∃ decoded',
            jsonDataToStructData gLogLvl contents' item = some decoded' ∧
              decoded'.ret ≠ leSuccess := jsonDataToStructData_error_iff.mpr hrefuses
        simp [hserve, h, h', hret, hret']
      · obtain ⟨decoded, h, hret⟩ : ∃ decoded,
            jsonDataToStructData gLogLvl contents item = some decoded ∧
              decoded.ret = leSuccess := jsonDataToStructData_success_iff.mpr hdec
        obtain ⟨decoded', h', hret'⟩ : ∃ decoded',
            jsonDataToStructData gLogLvl contents' item = some decoded' ∧
              decoded'.ret = leSuccess := jsonDataToStructData_success_iff.mpr hdec
        have hpass := passes_dispatchMethod gDevsCb gLogLvl parsedMsg pk dn decoded
        have hpass' := passes_dispatchMethod gDevsCb gLogLvl parsedMsg pk dn decoded'
        simp only [hserve, h, h', hret, hret', ne_eq, not_true_eq_false, if_false]
        refine ⟨hpass.defined, ?_⟩
        rw [hpass.passed_eq, hpass'.passed_eq]
        by_cases hinv : CallbackInvoked gDevsCb parsedMsg
        · rw [decoded_eq_of_fullyWritten (hwritten hinv) h h' hret hret']
        · rw [if_neg hinv, if_neg hinv]

end Main

/-- A request that gives `setProperty` a name only. -/
private def bareSetRequest : CJson :=
  .object [(.lit "messageId", .number (.ofInt 1)), (.lit "method", .string methodSetProperty),
    (.lit "payload", .object [(.lit "productKey", .string (.lit "pk")),
      (.lit "deviceName", .string (.lit "dn")),
      (.lit "properties", .array [.string (.lit "speed")])])]

/-- A table with `set_properties_cb` alone. -/
private def setCallback : LedaDeviceCallback Unit :=
  ⟨none, (), some ⟨(), fun _ _ _ _ _ ↦ leSuccess⟩, (), none, 0, (), none, ()⟩

private theorem passed_bareSetRequest (e : LedaDeviceData) :
    (threadpoolRecvProc setCallback 2 (fun _ ↦ e)
        (.ofReceived (ledaParseReceiveMsg bareSetRequest)) []).1.filterMap Event.passed? =
      [([{ e with key := .snprintf 64 (.lit "speed") }], 1)] := by
  have hinput : decoderInput (.ofReceived (ledaParseReceiveMsg bareSetRequest)) =
      some (.array [.string (.lit "speed")]) := rfl
  have hdec : jsonDataToStructData 2 (fun _ ↦ e) (.array [.string (.lit "speed")]) =
      some ⟨leSuccess, [{ e with key := .snprintf 64 (.lit "speed") }], 1⟩ := rfl
  obtain ⟨pk, dn, hserve⟩ := exists_dispatch_of_input setCallback 2 hinput []
  rw [hserve, hdec]
  simp only [ne_eq, not_true_eq_false, if_false]
  rw [(passes_dispatchMethod setCallback 2 _ pk dn _).passed_eq, if_pos (.inl ⟨by decide, rfl⟩)]

/-- For a child that is only a name, `set_properties_cb` is passed the type and the value
that the memory held. -/
theorem bare_child_passes_memory :
    (threadpoolRecvProc setCallback 2 (fun _ ↦ zeroDeviceData)
        (.ofReceived (ledaParseReceiveMsg bareSetRequest)) []).1.filterMap Event.passed? =
      [([⟨0, .snprintf 64 (.lit "speed"), .snprintf 2048 (.lit "")⟩], 1)] ∧
    (threadpoolRecvProc setCallback 2 (fun _ ↦ dirtyDeviceData)
        (.ofReceived (ledaParseReceiveMsg bareSetRequest)) []).1.filterMap Event.passed? =
      [([⟨1, .snprintf 64 (.lit "speed"), .snprintf 2048 (.lit "1")⟩], 1)] ∧
    ¬ PassesOnlyMessage fun contents ↦ (threadpoolRecvProc setCallback 2 contents
      (.ofReceived (ledaParseReceiveMsg bareSetRequest)) []).1 := by
  refine ⟨passed_bareSetRequest zeroDeviceData, passed_bareSetRequest dirtyDeviceData, ?_⟩
  intro hp
  have heq := (hp (fun _ ↦ zeroDeviceData) (fun _ ↦ dirtyDeviceData)).2
  rw [passed_bareSetRequest, passed_bareSetRequest] at heq
  have hentry := List.singleton_inj.mp (Prod.mk.inj (List.singleton_inj.mp heq)).1
  exact absurd (congrArg LedaDeviceData.type hentry) (by decide)

end LedaSdk.Leda
