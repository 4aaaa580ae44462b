import LedaSdk.Json.Denotation
import LedaSdk.Leda.Encoding

/-!
# When encoded items say what the entries say

`struct_data_to_json_data` (`sdk/leda.c:183–246`) reads integers with `atoi`, parses the
beginning of the strings of structures and arrays, and writes entries of other types as
`"invalid"`. The arrays for which it is faithful nevertheless are described entry by entry.
-/

namespace LedaSdk.Leda
open LedaSdk.Base LedaSdk.Json

/-- The tree represents what the string of an entry of the type denotes as a whole: an integer,
itself, or the value of a JSON text; the values of floats and doubles are left open. -/
def WhollyDenotes (t : LedaDataType) (value : CStr) (json : CJson) : Prop :=
  match t with
  | .int | .bool | .enum =>
    ∃ n : Int32, denotedInt value = some n.toInt ∧ json = .number (.ofInt n.toInt)
  | .text | .date => json = .string value
  | .struct | .array => ∃ v, IsJsonText v value.bytes ∧ Represents json v
  | .float | .double => True

/-- An item with the name, the type and the value of an entry. -/
def SaysEntry (d : LedaDeviceData) (item : CJson) : Prop :=
  ∃ t value, d.type = t.toInt32 ∧ WhollyDenotes t d.value.str value ∧
    item = propertyItem d.key.str t value

/-- What the encoder returns is a null pointer, or an array with one item for each entry, in
order, that says what the entry says. -/
def EncodesFaithfully (gLogLvl : Int32) (data : List LedaDeviceData) : Prop :=
  ∃ result, structDataToJsonData gLogLvl data = some result ∧
    ∀ json, result = some json →
      ∃ items, json = .array items ∧ List.Forall₂ SaysEntry data items

/-- Strings that denote a value of the type which is kept: integers of type `int`, any text, and
JSON texts that keep their value. -/
def ValueDenoted (t : LedaDataType) (value : CStr) : Prop :=
  match t with
  | .int | .bool | .enum => ∃ n : Int32, denotedInt value = some n.toInt
  | .struct | .array => KeepsValue value
  | .text | .date | .float | .double => True

/-- Entries of one of the nine types whose string denotes a value of it. -/
def SayableEntry (d : LedaDeviceData) : Prop :=
  ∃ t : LedaDataType, d.type = t.toInt32 ∧ ValueDenoted t d.value.str

section Entries
variable {gLogLvl : Int32} {d : LedaDeviceData} {t : LedaDataType} {item json : CJson}

/-- What is written for a string says what the string denotes exactly if it denotes a value. -/
theorem whollyDenotes_encodedValue_iff {value : CStr} (h : encodedValue t value = some json) :
    WhollyDenotes t value json ↔ ValueDenoted t value := by
  cases t with
  | int | bool | enum =>
    cases h
    constructor
    · rintro ⟨n, hn, -⟩
      exact ⟨n, hn⟩
    · rintro ⟨n, hn⟩
      refine ⟨n, hn, ?_⟩
      rw [atoi_of_denotedInt hn]
  | struct | array => exact exists_represents_iff h
  | text | date =>
    cases h
    exact iff_of_true rfl trivial
  | float | double => exact Iff.rfl

/-- An item that the encoder makes says what its entry says exactly if the entry is sayable. -/
theorem EncodesTo.saysEntry_iff (h : EncodesTo gLogLvl d item) :
    SaysEntry d item ↔ SayableEntry d := by
  have hitem {t : LedaDataType} (ht : d.type = t.toInt32) :
      ∃ json, encodedValue t d.value.str = some json ∧ item = propertyItem d.key.str t json := by
    rw [EncodesTo, structItemToJson_named (ofInt32?_eq_some_iff.mpr ht)] at h
    obtain ⟨json, hjson, hsame⟩ := Option.map_eq_some_iff.mp (Option.some.inj h)
    exact ⟨json, hjson, hsame.symm⟩
  constructor
  · rintro ⟨t, json, ht, hdenotes, rfl⟩
    obtain ⟨json', hjson, hsame⟩ := hitem ht
    have hvalue := congrArg (fun item ↦ getObjectItem (some item) (.lit "value")) hsame
    simp only [getObjectItem_propertyItem, Option.some.injEq] at hvalue
    subst hvalue
    exact ⟨t, ht, (whollyDenotes_encodedValue_iff hjson).mp hdenotes⟩
  · rintro ⟨t, ht, hvalue⟩
    obtain ⟨json, hjson, rfl⟩ := hitem ht
    exact ⟨t, json, ht, (whollyDenotes_encodedValue_iff hjson).mpr hvalue, rfl⟩

/-- A sayable entry can be encoded unless it is refused. -/
theorem SayableEntry.encodableEntry (h : SayableEntry d) (hnot : ¬ RefusedEntry d) :
    EncodableEntry gLogLvl d := by
  obtain ⟨t, ht, -⟩ := h
  refine ⟨fun hnone ↦ ?_, hnot⟩
  rw [ofInt32?_eq_some_iff.mpr ht] at hnone
  cases hnone

end Entries

section Arrays
variable {gLogLvl : Int32} {data : List LedaDeviceData} {items : List CJson}

/-- The items of an array say what its entries say exactly if every entry is sayable. -/
theorem saysEntries_iff (h : List.Forall₂ (EncodesTo gLogLvl) data items) :
    List.Forall₂ SaysEntry data items ↔ ∀ d ∈ data, SayableEntry d := by
  induction h with
  | nil => simp
  | cons hd _ ih => rw [List.forall₂_cons, List.forall_mem_cons, hd.saysEntry_iff, ih]

/-- The first of the refused entries. -/
theorem exists_first_refused (h : ∃ d ∈ data, RefusedEntry d) :
    ∃ before d after, data = before ++ d :: after ∧ RefusedEntry d ∧
      ∀ e ∈ before, ¬ RefusedEntry e := by
  induction data with
  | nil =>
    obtain ⟨d, hd, -⟩ := h
    cases hd
  | cons e data ih =>
    by_cases he : RefusedEntry e
    · exact ⟨[], e, data, rfl, he, by simp⟩
    · obtain ⟨d, hd, hrefused⟩ := h
      have htail : d ∈ data := (List.mem_cons.mp hd).resolve_left fun hsame ↦ he (hsame ▸ hrefused)
      obtain ⟨before, d', after, rfl, hd', hbefore⟩ := ih ⟨d, htail, hrefused⟩
      exact ⟨e :: before, d', after, rfl, hd', List.forall_mem_cons.mpr ⟨he, hbefore⟩⟩

/-- The encoder returns a null pointer, or items that say what their entries say, exactly if
`cJSON_Parse` refuses a structure or array and the entries before it can be encoded, or every
entry has one of the nine types and a string that denotes a value which is kept. -/
theorem encodesFaithfully_iff (gLogLvl : Int32) (data : List LedaDeviceData) :
    EncodesFaithfully gLogLvl data ↔
      (∃ before d after, data = before ++ d :: after ∧ RefusedEntry d ∧
        ∀ e ∈ before, EncodableEntry gLogLvl e) ∨
      ∀ d ∈ data, SayableEntry d := by
  rw [← structItemsToJson_eq_null_iff, ← structDataToJsonData_eq_null_iff]
  constructor
  · rintro ⟨result, h, hfaithful⟩
    cases result with
    | none => exact .inl h
    | some json =>
      right
      obtain ⟨items, rfl, hencodes⟩ := structDataToJsonData_eq_some_iff.mp h
      obtain ⟨items', hsame, hsays⟩ := hfaithful _ rfl
      cases hsame
      exact (saysEntries_iff hencodes).mp hsays
  · rintro (h | h)
    · exact ⟨none, h, fun json hjson ↦ by cases hjson⟩
    · by_cases hrefused : ∃ d ∈ data, RefusedEntry d
      · -- A sayable string can still be refused, if it is nested too deeply.
        obtain ⟨before, d, after, rfl, hd, hbefore⟩ := exists_first_refused hrefused
        refine ⟨none, structDataToJsonData_eq_null_iff.mpr (structItemsToJson_eq_null_iff.mpr
          ⟨before, d, after, rfl, hd, fun e he ↦ ?_⟩), fun json hjson ↦ by cases hjson⟩
        exact (h e (List.mem_append_left _ he)).encodableEntry (hbefore e he)
      · have hencodable : ∀ d ∈ data, EncodableEntry gLogLvl d := fun d hd ↦
          (h d hd).encodableEntry fun hr ↦ hrefused ⟨d, hd, hr⟩
        obtain ⟨json, hjson⟩ := exists_structDataToJsonData_iff.mpr hencodable
        obtain ⟨items, rfl, hencodes⟩ := structDataToJsonData_eq_some_iff.mp hjson
        refine ⟨_, hjson, fun json hsame ↦ ?_⟩
        cases hsame
        exact ⟨items, rfl, (saysEntries_iff hencodes).mpr h⟩

end Arrays

/-- A switch that is reported as `true`. -/
def switchEntry : LedaDeviceData where
  type := LedaDataType.bool.toInt32
  key := ⟨.lit "on", by decide⟩
  value := ⟨.lit "true", by decide⟩

/-- The value `true` of a switch is written as 0. -/
theorem true_encoded_as_zero :
    structDataToJsonData 1 [switchEntry] =
      some (some (.array [propertyItem (.lit "on") .bool (.number (.ofInt 0))])) ∧
    ¬ EncodesFaithfully 1 [switchEntry] := by
  have hatoi : atoi (.lit "true") = 0 := by decide
  have hnone : denotedInt (.lit "true") = none := by decide
  have hzero : structDataToJsonData 1 [switchEntry] =
      some (some (.array [propertyItem (.lit "on") .bool (.number (.ofInt 0))])) := by
    apply structDataToJsonData_eq_some_iff.mpr
    refine ⟨_, rfl, .cons ?_ .nil⟩
    rw [EncodesTo, structItemToJson_named (t := .bool) rfl, encodedValue]
    dsimp only [switchEntry]
    rw [hatoi]
    rfl
  refine ⟨hzero, ?_⟩
  rintro ⟨result, h, hfaithful⟩
  obtain rfl := Option.some.inj (hzero.symm.trans h)
  obtain ⟨items, -, hall⟩ := hfaithful _ rfl
  obtain ⟨item, t, value, ht, hvalue, -⟩ := forall_exists_of_forall₂ hall switchEntry
    List.mem_cons_self
  have hbool : LedaDataType.ofInt32? LedaDataType.bool.toInt32 = some t :=
    ofInt32?_eq_some_iff.mpr ht
  rw [ofInt32?_toInt32] at hbool
  cases hbool
  obtain ⟨n, hn, -⟩ := hvalue
  cases hnone.symm.trans hn

end LedaSdk.Leda
