import Mathlib.Data.List.Forall2
import LedaSdk.Json.RoundTrip
import LedaSdk.Leda.Decoding

/-!
# When decoded entries say what the message says

`json_data_to_struct_data` (`sdk/leda.c:248–341`) truncates names and values to its buffers,
saturates numbers and passes over members of the wrong type. The values for which it is
faithful nevertheless are described child by child.
-/

namespace LedaSdk.Leda
open LedaSdk.Base LedaSdk.Json

/-- A JSON value that is exactly an integer, with `true` and `false` as 1 and 0. -/
def IsInteger (value : CJson) (n : Int) : Prop :=
  match value with
  | .number d => d.geInt n = true ∧ d.leInt n = true
  | .bool b => n = if b then 1 else 0
  | _ => False

/-- The text of an entry of the type says the JSON value; the values of floats and doubles
are left open. -/
def ValueSays (t : LedaDataType) (value : CJson) (text : CStr) : Prop :=
  match t with
  | .int | .bool | .enum => ∃ n, IsInteger value n ∧ text.bytes = intText n
  | .text | .date => value = .string text
  | .struct | .array => parse text = some value ∧ value.render.length < 2048
  | .float | .double => True

/-- An entry says what a child says: its key is the whole identifier or bare string, and its
type and value are those of the child. -/
inductive Says : CJson → LedaDeviceData → Prop where
  | bare {s : CStr} {d : LedaDeviceData} (hkey : d.key.str = s) : Says (.string s) d
  | typed {item value : CJson} {identifier type : CStr} {t : LedaDataType} {d : LedaDeviceData}
      (hf : ItemFields item (.string identifier) type value) (ht : namedType type = some t)
      (hkey : d.key.str = identifier) (htype : d.type = t.toInt32)
      (hvalue : ValueSays t value d.value.str) : Says item d

/-- What the decoder returns is an error, or one entry for each child that says what the
child says. -/
def DecodesFaithfully (gLogLvl : Int32) (contents : Nat → LedaDeviceData) (json : CJson) : Prop :=
  ∃ decoded, jsonDataToStructData gLogLvl contents json = some decoded ∧
    (decoded.ret = leSuccess →
      decoded.dataCnt.toInt = (childItems json).length ∧
      List.Forall₂ Says (childItems json) decoded.structData)

/-- Values that an entry can say: integers of type `int`, strings that fit the buffer, and
finite trees within the nesting limit whose text fits. -/
def ValueFits (t : LedaDataType) (value : CJson) : Prop :=
  match t with
  | .int | .bool | .enum => ∃ n : Int32, IsInteger value n.toInt
  | .text | .date => ∃ s : CStr, value = .string s ∧ s.length < 2048
  | .struct | .array =>
    value.Finite ∧ value.nesting ≤ nestingLimit ∧ value.render.length < 2048
  | .float | .double => True

/-- Children that an entry can say: short strings, and objects with a short identifier, the
name of a type and a value that fits. -/
inductive Sayable : CJson → Prop where
  | bare {s : CStr} (hlen : s.length < 64) : Sayable (.string s)
  | typed {item value : CJson} {identifier type : CStr} {t : LedaDataType}
      (hf : ItemFields item (.string identifier) type value) (ht : namedType type = some t)
      (hlen : identifier.length < 64) (hvalue : ValueFits t value) : Sayable item

section Values
variable {t : LedaDataType} {value item : CJson} {gLogLvl : Int32} {e d : LedaDeviceData}
  {type : CStr}

/-- The enumerator that a type name denotes has the number stored for it. -/
theorem typeStringToNumber_of_namedType (h : namedType type = some t) :
    typeStringToNumber type = t.toInt32 := by
  have hfound := List.find?_some h
  exact (of_decide_eq_true hfound).symm

/-- The `valueint` of a value that is an integer of type `int`. -/
theorem valueint_of_isInteger {n : Int32} (h : IsInteger value n.toInt) : value.valueint = n := by
  cases value with
  | number d => exact saturate_of_eq (Binary64.eq_ofInt_of_bounds (natAbs_toInt_le n) h.1 h.2)
  | bool b =>
    apply Int32.toInt_inj.mp
    cases b with
    | true => exact h.symm
    | false => exact h.symm
  | null | string _ | array _ | object _ => exact h.elim

/-- The text written for an integer type says the value exactly if it is an `int`. -/
private theorem says_integer_iff :
    (∃ n, IsInteger value n ∧
      (CharBuf.snprintf 2048 ⟨intText value.valueint.toInt, noNul_intText _⟩).str.bytes = intText n) ↔
      ∃ n : Int32, IsInteger value n.toInt := by
  have hlen := length_intText_le value.valueint
  rw [CharBuf.snprintf_str (by change (intText _).length < 2048; omega)]
  constructor
  · rintro ⟨n, hn, htext⟩
    obtain rfl := intText_injective htext
    exact ⟨_, hn⟩
  · rintro ⟨n, hn⟩
    rw [valueint_of_isInteger hn]
    exact ⟨_, hn, rfl⟩

/-- The text written for a string type says the value exactly if it is a string that fits. -/
private theorem says_string_iff :
    value = .string (CharBuf.snprintf 2048 (printedString value.valuestring)).str ↔
      ∃ s : CStr, value = .string s ∧ s.length < 2048 := by
  constructor
  · intro h
    exact ⟨_, h, (CharBuf.snprintf 2048 _).fits⟩
  · rintro ⟨s, rfl, hlen⟩
    congr 1
    exact (CharBuf.snprintf_str hlen).symm

/-- The text written for a structure or an array says the value exactly if it fits, is
finite and is nested within the limit. -/
private theorem says_tree_iff :
    (parse (CharBuf.snprintf 2048 value.renderStr).str = some value ∧
      value.render.length < 2048) ↔
      value.Finite ∧ value.nesting ≤ nestingLimit ∧ value.render.length < 2048 := by
  rw [← and_assoc, ← parse_renderStr_eq_iff]
  apply and_congr_left
  intro hlen
  rw [CharBuf.snprintf_str hlen]

/-- The text that the decoder writes says the value exactly if the value fits. -/
theorem valueSays_iff (t : LedaDataType) (value : CJson) :
    ValueSays t value (CharBuf.snprintf 2048 (valueText t value)).str ↔ ValueFits t value := by
  cases t with
  | int | bool | enum => exact says_integer_iff
  | text | date => exact says_string_iff
  | struct | array => exact says_tree_iff
  | float | double => exact Iff.rfl

/-- The name written for an identifier is whole exactly if it is a short string. -/
private theorem printedString_whole_iff {identifier : CJson} (s : CStr)
    (h : identifier = .string s) :
    (CharBuf.snprintf 64 (printedString identifier.valuestring)).str = s ↔ s.length < 64 := by
  rw [h]
  exact CharBuf.snprintf_str_eq_self_iff

/-- An entry that the decoder makes of a child says it exactly if the child is sayable. -/
theorem DecodesTo.says_iff (h : DecodesTo gLogLvl e item d) : Says item d ↔ Sayable item := by
  cases h with
  | bare s =>
    constructor
    · intro hs
      cases hs with
      | bare hkey => exact .bare (CharBuf.snprintf_str_eq_self_iff.mp hkey)
      | typed hf => exact absurd rfl (hf.ne_string (s := s))
    · intro hs
      cases hs with
      | bare hlen => exact .bare (CharBuf.snprintf_str hlen)
      | typed hf => exact absurd rfl (hf.ne_string (s := s))
  | @typed _ identifier type value t hf ht hp =>
    constructor
    · intro hs
      cases hs with
      | bare => exact absurd rfl (hf.ne_string)
      | @typed _ value' name type' t' _ hf' ht' hkey htype hvalue =>
        obtain ⟨hname, rfl, rfl⟩ := hf.unique hf'
        obtain rfl := Option.some.inj (ht.symm.trans ht')
        exact .typed hf' ht' ((printedString_whole_iff name hname).mp hkey)
          ((valueSays_iff t value).mp hvalue)
    · intro hs
      cases hs with
      | bare => exact absurd rfl (hf.ne_string)
      | @typed _ value' name type' t' hf' ht' hlen hvalue =>
        obtain ⟨hname, rfl, rfl⟩ := hf.unique hf'
        obtain rfl := Option.some.inj (ht.symm.trans ht')
        exact .typed hf' ht' ((printedString_whole_iff name hname).mpr hlen)
          (typeStringToNumber_of_namedType ht) ((valueSays_iff t value).mpr hvalue)
  | @untyped _ identifier type value hf ht hlog =>
    -- No entry says a child whose type has no name.
    constructor
    · intro hs
      cases hs with
      | bare => exact absurd rfl (hf.ne_string)
      | typed hf' ht' =>
        obtain ⟨-, rfl, -⟩ := hf.unique hf'
        cases ht.symm.trans ht'
    · intro hs
      cases hs with
      | bare => exact absurd rfl (hf.ne_string)
      | typed hf' ht' =>
        obtain ⟨-, rfl, -⟩ := hf.unique hf'
        cases ht.symm.trans ht'

end Values

section Arrays
variable {gLogLvl : Int32} {contents : Nat → LedaDeviceData} {json : CJson}

/-- A sayable child decodes. -/
theorem Sayable.decodable {item : CJson} (h : Sayable item) : DecodableItem gLogLvl item := by
  intro e
  cases h with
  | @bare s hlen => exact ⟨_, .bare s⟩
  | @typed _ value identifier type t hf ht hlen hvalue =>
    refine ⟨_, .typed hf ht ?_⟩
    -- A text that fits the buffer is far below the printer's limit.
    rintro (rfl | rfl)
    · have hfit := hvalue.2.2
      rw [intMax]
      omega
    · have hfit := hvalue.2.2
      rw [intMax]
      omega

/-- The entries of a successful decoding say the children exactly if these are sayable. -/
theorem forall₂_says_iff {decoded : DecodedData} (hpos : ¬ getArraySize json ≤ 0)
    (h : jsonDataToStructData gLogLvl contents json = some decoded)
    (hret : decoded.ret = leSuccess) :
    List.Forall₂ Says (childItems json) decoded.structData ↔
      ∀ item ∈ childItems json, Sayable item := by
  obtain ⟨-, -, hlen, hget⟩ := jsonDataToStructData_success hpos h hret
  constructor
  · intro hall item hm
    obtain ⟨k, hk⟩ := List.mem_iff_getElem?.mp hm
    obtain ⟨d, hd, hdec⟩ := hget k item hk
    obtain ⟨hk', rfl⟩ := List.getElem?_eq_some_iff.mp hk
    obtain ⟨hk'', rfl⟩ := List.getElem?_eq_some_iff.mp hd
    exact hdec.says_iff.mp (hall.get hk' hk'')
  · intro hall
    apply List.forall₂_iff_get.mpr
    refine ⟨hlen.symm, ?_⟩
    intro k hk hk'
    obtain ⟨d, hd, hdec⟩ := hget k _ (List.getElem?_eq_getElem hk)
    obtain ⟨_, rfl⟩ := List.getElem?_eq_some_iff.mp hd
    exact hdec.says_iff.mpr (hall _ (List.getElem_mem hk))

/-- Whatever its array held before, the decoder returns an error or entries that say what
their children say, exactly if it refuses a child or there are at most `INT_MAX` children
which are all sayable. -/
theorem decodesFaithfully_iff (gLogLvl : Int32) (contents : Nat → LedaDeviceData) (json : CJson) :
    DecodesFaithfully gLogLvl contents json ↔
      Refuses json gLogLvl ∨ ((childItems json).length ≤ intMax.toNat ∧
        ∀ item ∈ childItems json, Sayable item) := by
  constructor
  · rintro ⟨decoded, h, hfaithful⟩
    by_cases hret : decoded.ret = leSuccess
    · right
      obtain ⟨hcnt, hall⟩ := hfaithful hret
      by_cases hpos : getArraySize json ≤ 0
      · rw [jsonDataToStructData_nonpos hpos] at h
        cases h
        have hcnt : (0 : Int) = (childItems json).length := hcnt
        have hnil : childItems json = [] := List.eq_nil_of_length_eq_zero (by omega)
        rw [hnil]
        exact ⟨Nat.zero_le _, by simp⟩
      · exact ⟨(jsonDataToStructData_success hpos h hret).1,
          (forall₂_says_iff hpos h hret).mp hall⟩
    · left
      rw [← jsonDataToStructData_error_iff]
      exact ⟨decoded, h, hret⟩
  · rintro (hrefuses | ⟨hlen, hall⟩)
    · obtain ⟨decoded, h, hret⟩ := jsonDataToStructData_error_iff.mpr hrefuses
      exact ⟨decoded, h, fun hsuccess ↦ absurd hsuccess hret⟩
    · have hdec : Decodable gLogLvl json := .inr ⟨hlen, fun item hm ↦ (hall item hm).decodable⟩
      obtain ⟨decoded, h, hret⟩ : ∃ decoded,
          jsonDataToStructData gLogLvl contents json = some decoded ∧ decoded.ret = leSuccess :=
        jsonDataToStructData_success_iff.mpr hdec
      refine ⟨decoded, h, fun _ ↦ ?_⟩
      by_cases hpos : getArraySize json ≤ 0
      · have hsize := getArraySize_eq hlen
        rw [Int32.le_iff_toInt_le, hsize] at hpos
        have hnil : childItems json = [] := List.eq_nil_of_length_eq_zero (by
          have h0 : (0 : Int32).toInt = 0 := rfl
          omega)
        rw [jsonDataToStructData_nonpos (by rw [Int32.le_iff_toInt_le, hsize]; exact hpos)] at h
        cases h
        rw [hnil]
        exact ⟨rfl, .nil⟩
      · refine ⟨?_, (forall₂_says_iff hpos h hret).mpr hall⟩
        rw [(jsonDataToStructData_success hpos h hret).2.1, getArraySize_eq hlen]

end Arrays

/-- The item that sets `speed` to an integer. -/
private def speedItem (value : Int) : CJson :=
  .object [(.lit "identifier", .string (.lit "speed")), (.lit "type", .string (.lit "int")),
    (.lit "value", .number (.ofInt value))]

private theorem itemFields_speedItem (value : Int) :
    ItemFields (speedItem value) (.string (.lit "speed")) (.lit "int") (.number (.ofInt value)) :=
  ⟨rfl, rfl, rfl⟩

/-- An integer above `INT_MAX` is decoded as `INT_MAX`, and `LE_SUCCESS` returned. -/
theorem large_integer_misdecoded :
    (∃ decoded, jsonDataToStructData 2 (fun _ ↦ ⟨0, .snprintf 64 (.lit ""), .snprintf 2048 (.lit "")⟩)
        (.array [speedItem 3000000000]) = some decoded ∧ decoded.ret = leSuccess ∧
      decoded.structData.map (·.value.str) = [.lit "2147483647"]) ∧
    ¬ DecodesFaithfully 2 (fun _ ↦ ⟨0, .snprintf 64 (.lit ""), .snprintf 2048 (.lit "")⟩)
      (.array [speedItem 3000000000]) := by
  constructor
  · exact ⟨_, rfl, rfl, by decide +kernel⟩
  · rintro ⟨decoded, h, hfaithful⟩
    have hret : decoded.ret = leSuccess := by
      cases h
      rfl
    have hsay := (forall₂_says_iff (by decide) h hret).mp (hfaithful hret).2 (speedItem 3000000000)
      List.mem_cons_self
    cases hsay with
    | typed hf ht hlen hvalue =>
      obtain ⟨-, rfl, rfl⟩ := (itemFields_speedItem 3000000000).unique hf
      cases ht
      obtain ⟨n, hge, hle⟩ := hvalue
      have hbound := n.toInt_lt
      rw [Binary64.leInt_ofInt (by decide)] at hle
      have hle := of_decide_eq_true hle
      omega

end LedaSdk.Leda
