import LedaSdk.Leda.CodecRoundTrip

/-!
# When encoding succeeds, and with what

What `struct_data_to_json_data` (`sdk/leda.c:183–246`) makes of an entry, and for a whole
array the exact conditions under which it returns an array or a null pointer.
-/

namespace LedaSdk.Leda
open LedaSdk.Base LedaSdk.Json

/-- The value that is written for the string of an entry. -/
def encodedValue (t : LedaDataType) (value : CStr) : Option CJson :=
  match t with
  | .int | .bool | .enum => some (.number (.ofInt (atoi value).toInt))
  | .float | .double => some (.number (atof value))
  | .text | .date => some (.string value)
  | .struct | .array => parse value

/-- The item of an entry whose type has no name. -/
def invalidItem (identifier : CStr) : CJson :=
  .object [(.lit "identifier", .string identifier), (.lit "type", .string (.lit "invalid")),
    (.lit "value", .string (.lit "invalid"))]

/-- A structure or an array whose string does not begin with a JSON value. -/
def RefusedEntry (d : LedaDeviceData) : Prop :=
  (d.type = LedaDataType.struct.toInt32 ∨ d.type = LedaDataType.array.toInt32) ∧
    parse d.value.str = none

/-- An entry that is not refused, and whose type is one of the nine or may be wrong because
warnings are not logged. -/
def EncodableEntry (gLogLvl : Int32) (d : LedaDeviceData) : Prop :=
  (LedaDataType.ofInt32? d.type = none → logLevelWarn < gLogLvl) ∧ ¬ RefusedEntry d

/-- An entry with the item that the encoder makes of it. -/
def EncodesTo (gLogLvl : Int32) (d : LedaDeviceData) (item : CJson) : Prop :=
  structItemToJson gLogLvl d = some (some item)

/-- The values of a type are its enumerators. -/
theorem ofInt32?_eq_some_iff {type : Int32} {t : LedaDataType} :
    LedaDataType.ofInt32? type = some t ↔ type = t.toInt32 := by
  constructor
  · intro h
    have hfound := List.find?_some h
    exact (of_decide_eq_true hfound).symm
  · rintro rfl
    exact ofInt32?_toInt32 t

section Entries
variable {gLogLvl : Int32} {d : LedaDeviceData} {t : LedaDataType} {item : CJson}

/-- An entry of one of the nine types. -/
theorem structItemToJson_named (ht : LedaDataType.ofInt32? d.type = some t) :
    structItemToJson gLogLvl d =
      some ((encodedValue t d.value.str).map (propertyItem d.key.str t)) := by
  rw [structItemToJson, typeNumberToString, ht]
  cases t with
  | struct | array =>
    simp only [encodedValue]
    cases parse d.value.str <;> rfl
  | _ => rfl

/-- An entry of another type. -/
theorem structItemToJson_unnamed (ht : LedaDataType.ofInt32? d.type = none) :
    structItemToJson gLogLvl d =
      if logLevelWarn < gLogLvl then some (some (invalidItem d.key.str)) else none := by
  rw [structItemToJson, typeNumberToString, ht]
  simp only [warnInvalidType]
  split
  · rfl
  · rfl

/-- Only structures and arrays are refused. -/
theorem refusedEntry_iff (ht : LedaDataType.ofInt32? d.type = some t) :
    RefusedEntry d ↔ encodedValue t d.value.str = none := by
  obtain ht := ofInt32?_eq_some_iff.mp ht
  rw [RefusedEntry, ht]
  cases t <;> simp [encodedValue, LedaDataType.toInt32]

theorem structItemToJson_eq_null_iff : structItemToJson gLogLvl d = some none ↔ RefusedEntry d := by
  cases ht : LedaDataType.ofInt32? d.type with
  | none =>
    rw [structItemToJson_unnamed ht]
    apply iff_of_false
    · split <;> simp
    · rintro ⟨h | h, -⟩
      · rw [h] at ht
        cases ht
      · rw [h] at ht
        cases ht
  | some t =>
    rw [structItemToJson_named ht, refusedEntry_iff ht, Option.some.injEq, Option.map_eq_none_iff]

theorem exists_encodesTo_iff : (∃ item, EncodesTo gLogLvl d item) ↔ EncodableEntry gLogLvl d := by
  cases ht : LedaDataType.ofInt32? d.type with
  | none =>
    have hnot : ¬ RefusedEntry d := by
      intro hr
      have hnull : structItemToJson gLogLvl d = some none := structItemToJson_eq_null_iff.mpr hr
      rw [structItemToJson_unnamed ht] at hnull
      split at hnull <;> cases hnull
    simp [EncodesTo, EncodableEntry, structItemToJson_unnamed ht, ht, hnot]
  | some t =>
    simp only [EncodesTo, EncodableEntry, structItemToJson_named ht, refusedEntry_iff ht, ht,
      Option.some.injEq, reduceCtorEq, false_implies, true_and, ← ne_eq, Option.ne_none_iff_exists']
    cases encodedValue t d.value.str <;> simp

end Entries

section Arrays
variable {gLogLvl : Int32} {data : List LedaDeviceData} {items : List CJson}

/-- The loop returns an item for each entry. -/
theorem structItemsToJson_eq_some_iff :
    structItemsToJson gLogLvl data = some (some items) ↔
      List.Forall₂ (EncodesTo gLogLvl) data items := by
  induction data generalizing items with
  | nil => simp [structItemsToJson, eq_comm]
  | cons d data ih =>
    constructor
    · intro h
      obtain ⟨first, hfirst, h⟩ := Option.bind_eq_some_iff.mp h
      cases first with
      | none => cases h
      | some item =>
        obtain ⟨rest, hrest, h⟩ := Option.bind_eq_some_iff.mp h
        obtain ⟨tail, rfl, rfl⟩ := Option.map_eq_some_iff.mp (Option.some.inj h)
        exact .cons hfirst (ih.mp hrest)
    · intro h
      cases h with
      | cons hd htail =>
        rw [structItemsToJson, show structItemToJson gLogLvl d = _ from hd, ih.mpr htail]
        rfl

/-- The loop returns a null pointer at the first entry that is refused. -/
theorem structItemsToJson_eq_null_iff :
    structItemsToJson gLogLvl data = some none ↔
      ∃ before d after, data = before ++ d :: after ∧ RefusedEntry d ∧
        ∀ e ∈ before, EncodableEntry gLogLvl e := by
  induction data with
  | nil => simp [structItemsToJson]
  | cons d data ih =>
    constructor
    · intro h
      obtain ⟨first, hfirst, h⟩ := Option.bind_eq_some_iff.mp h
      cases first with
      | none => exact ⟨[], d, data, rfl, structItemToJson_eq_null_iff.mp hfirst, by simp⟩
      | some item =>
        obtain ⟨rest, hrest, h⟩ := Option.bind_eq_some_iff.mp h
        obtain rfl := Option.map_eq_none_iff.mp (Option.some.inj h)
        obtain ⟨before, r, after, rfl, hr, hbefore⟩ := ih.mp hrest
        refine ⟨d :: before, r, after, rfl, hr, fun e he ↦ ?_⟩
        rcases List.mem_cons.mp he with rfl | he
        · exact exists_encodesTo_iff.mp ⟨item, hfirst⟩
        · exact hbefore e he
    · rintro ⟨before, r, after, hdata, hr, hbefore⟩
      cases before with
      | nil =>
        obtain ⟨rfl, rfl⟩ := List.cons.inj hdata
        rw [structItemsToJson, structItemToJson_eq_null_iff.mpr hr]
        rfl
      | cons e before =>
        obtain ⟨rfl, rfl⟩ := List.cons.inj hdata
        obtain ⟨item, hitem⟩ := exists_encodesTo_iff.mpr (hbefore d List.mem_cons_self)
        have hrest := ih.mpr ⟨before, r, after, rfl, hr, fun e he ↦ hbefore e (by simp [he])⟩
        rw [structItemsToJson, show structItemToJson gLogLvl d = _ from hitem, hrest]
        rfl

theorem structDataToJsonData_eq_some_iff {json : CJson} :
    structDataToJsonData gLogLvl data = some (some json) ↔
      ∃ items, json = .array items ∧ List.Forall₂ (EncodesTo gLogLvl) data items := by
  rw [structDataToJsonData]
  constructor
  · intro h
    obtain ⟨result, hresult, h⟩ := Option.map_eq_some_iff.mp h
    obtain ⟨items, rfl, rfl⟩ := Option.map_eq_some_iff.mp h
    exact ⟨items, rfl, structItemsToJson_eq_some_iff.mp hresult⟩
  · rintro ⟨items, rfl, h⟩
    rw [structItemsToJson_eq_some_iff.mpr h]
    rfl

theorem structDataToJsonData_eq_null_iff :
    structDataToJsonData gLogLvl data = some none ↔ structItemsToJson gLogLvl data = some none := by
  rw [structDataToJsonData]
  cases structItemsToJson gLogLvl data with
  | none => simp
  | some result => simp

/-- An array is returned exactly if every entry can be encoded. -/
theorem exists_structDataToJsonData_iff :
    (∃ json, structDataToJsonData gLogLvl data = some (some json)) ↔
      ∀ d ∈ data, EncodableEntry gLogLvl d := by
  constructor
  · rintro ⟨json, h⟩ d hd
    obtain ⟨items, -, hall⟩ := structDataToJsonData_eq_some_iff.mp h
    exact exists_encodesTo_iff.mp (forall_exists_of_forall₂ hall d hd)
  · intro h
    obtain ⟨items, hall⟩ := forall₂_of_forall_exists fun d hd ↦ exists_encodesTo_iff.mpr (h d hd)
    exact ⟨_, structDataToJsonData_eq_some_iff.mpr ⟨items, rfl, hall⟩⟩

end Arrays

end LedaSdk.Leda
