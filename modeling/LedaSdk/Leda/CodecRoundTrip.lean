import Mathlib.Data.List.Forall2
import LedaSdk.Json.RoundTrip
import LedaSdk.Leda.DeviceData

/-!
# Round trips of the thing-model codec

Device data and JSON items that denote the same value under the same name and type are
carried into each other by the two functions of the codec, entry by entry.
-/

namespace LedaSdk.Leda
open LedaSdk.Base LedaSdk.Json

/-- An object with the members that the codec writes, in its order. -/
def propertyItem (identifier : CStr) (t : LedaDataType) (value : CJson) : CJson :=
  .object [(.lit "identifier", .string identifier), (.lit "type", .string (gTypeMap t)),
    (.lit "value", value)]

/-- A value as device data writes it and the same value in JSON. Floating-point values are
left out: six decimals do not determine them. -/
inductive Denotes : LedaDataType → CStr → CJson → Prop where
  | integer {t : LedaDataType} (ht : t = .int ∨ t = .bool ∨ t = .enum) (n : Int32) :
      Denotes t ⟨intText n.toInt, noNul_intText _⟩ (.number (.ofInt n.toInt))
  | string {t : LedaDataType} (ht : t = .text ∨ t = .date) (s : CStr) : Denotes t s (.string s)
  | tree {t : LedaDataType} (ht : t = .struct ∨ t = .array) {v : CJson} (hv : v.Finite)
      (hn : v.nesting ≤ nestingLimit) : Denotes t v.renderStr v

/-- An entry of device data and a JSON item with the same name, type and value. -/
def SameProperty (d : LedaDeviceData) (item : CJson) : Prop :=
  ∃ t value, d.type = t.toInt32 ∧ Denotes t d.value.str value ∧ item = propertyItem d.key.str t value

theorem ofInt32?_toInt32 (t : LedaDataType) : LedaDataType.ofInt32? t.toInt32 = some t := by
  cases t <;> rfl

theorem typeNumberToString_toInt32 (t : LedaDataType) :
    typeNumberToString t.toInt32 = gTypeMap t := by
  rw [typeNumberToString, ofInt32?_toInt32]

/-- The two type tables agree. -/
theorem typeStringToNumber_gTypeMap (t : LedaDataType) :
    typeStringToNumber (gTypeMap t) = t.toInt32 := by
  cases t <;> decide

section Items
variable (gLogLvl : Int32) {d : LedaDeviceData} {item : CJson}

/-- The encoder writes the item of an entry. -/
theorem structItemToJson_of_same (h : SameProperty d item) :
    structItemToJson gLogLvl d = some (some item) := by
  obtain ⟨t, value, ht, hvalue, rfl⟩ := h
  rw [structItemToJson, ht, typeNumberToString_toInt32, ofInt32?_toInt32]
  generalize d.value.str = s at hvalue
  cases hvalue with
  | integer ht n =>
    have hatoi := atoi_intText n (noNul_intText _)
    rcases ht with rfl | rfl | rfl
    all_goals
      simp only [hatoi]
      rfl
  | string ht s => rcases ht with rfl | rfl <;> rfl
  | tree ht hv hn =>
    have hparse := parse_renderStr hv
    rw [if_pos hn] at hparse
    rcases ht with rfl | rfl
    all_goals
      simp only [hparse]
      rfl

/-- A structure or array that the parser refuses makes the encoder return a null pointer. -/
theorem structDataToJsonData_refused (ht : d.type = LedaDataType.struct.toInt32)
    (hparse : parse d.value.str = none) (data : List LedaDeviceData) :
    structDataToJsonData gLogLvl (d :: data) = some none := by
  have hitem : structItemToJson gLogLvl d = some none := by
    rw [structItemToJson, ht, ofInt32?_toInt32]
    simp only [hparse]
  rw [structDataToJsonData, structItemsToJson, hitem]
  rfl

/-- The members of an item are found under their names. -/
theorem getObjectItem_propertyItem (identifier : CStr) (t : LedaDataType) (value : CJson) :
    getObjectItem (some (propertyItem identifier t value)) (.lit "identifier") =
        some (.string identifier) ∧
      getObjectItem (some (propertyItem identifier t value)) (.lit "type") =
        some (.string (gTypeMap t)) ∧
      getObjectItem (some (propertyItem identifier t value)) (.lit "value") = some value :=
  ⟨rfl, rfl, rfl⟩

/-- The decoder writes the value of an entry. -/
private theorem writeValue_of_denotes {t : LedaDataType} {value : CJson}
    (hvalue : Denotes t d.value.str value) (e : LedaDeviceData)
    (he : e.type = t.toInt32) :
    writeValue gLogLvl e value = some (.ok { e with value := d.value }) := by
  rw [writeValue, he, ofInt32?_toInt32]
  have hfits := d.value.fits
  have hcopy := CharBuf.snprintf_self d.value
  generalize d.value.str = s at hvalue hfits hcopy
  cases hvalue with
  | integer hty n =>
    have hint : (CJson.number (.ofInt n.toInt)).valueint = n := saturate_ofInt n
    rcases hty with rfl | rfl | rfl
    all_goals simp only [hint, intStr, hcopy]
  | string hty s =>
    have hstr : printedString (CJson.string s).valuestring = s := rfl
    rcases hty with rfl | rfl <;> simp only [hstr, hcopy]
  | tree hty hv hn =>
    have hprint := printUnformatted_eq value
    rw [if_pos (by
      have : value.render.length < 2048 := hfits
      simp only [intMax]
      omega)] at hprint
    rcases hty with rfl | rfl <;> simp only [hprint, hcopy]

/-- The decoder writes the whole entry of an item, whatever was there before. -/
theorem jsonItemToStruct_of_same (h : SameProperty d item) (e : LedaDeviceData) :
    jsonItemToStruct gLogLvl (some e) item = some (.ok d) := by
  obtain ⟨t, value, ht, hvalue, rfl⟩ := h
  obtain ⟨hid, htype, hval⟩ := getObjectItem_propertyItem d.key.str t value
  have hkey : CharBuf.snprintf 64 (printedString (CJson.string d.key.str).valuestring) = d.key :=
    CharBuf.snprintf_self d.key
  have hwrite := writeValue_of_denotes gLogLvl hvalue ⟨t.toInt32, d.key, e.value⟩ rfl
  rw [jsonItemToStruct]
  · simp only [hid, htype, hval, Option.bind_eq_bind, Option.bind_some, hkey,
      typeStringToNumber_gTypeMap, hwrite]
    rw [← ht]
  · intro s hs
    cases hs

end Items

section Lists
variable (gLogLvl : Int32) (contents : Nat → LedaDeviceData) {data : List LedaDeviceData}
  {items : List CJson}

/-- The encoder writes one item for each entry, in order. -/
theorem structDataToJsonData_of_same (h : List.Forall₂ SameProperty data items) :
    structDataToJsonData gLogLvl data = some (some (.array items)) := by
  have hitems : structItemsToJson gLogLvl data = some (some items) := by
    induction h with
    | nil => rfl
    | cons hd _ ih =>
      rw [structItemsToJson, structItemToJson_of_same gLogLvl hd, ih]
      rfl
  rw [structDataToJsonData, hitems]
  rfl

private theorem jsonItemsToStruct_of_same (h : List.Forall₂ SameProperty data items) {size i : Nat}
    (hsize : i + items.length ≤ size) :
    jsonItemsToStruct gLogLvl contents size i items = some (.ok data) := by
  induction h generalizing i with
  | nil => rfl
  | cons hd _ ih =>
    rw [List.length_cons] at hsize
    rw [jsonItemsToStruct, if_pos (by omega), jsonItemToStruct_of_same gLogLvl hd,
      Option.bind_eq_bind, Option.bind_some, ih (by omega)]
    rfl

/-- The decoder writes one entry for each item, in order, whatever the array held before. -/
theorem jsonDataToStructData_of_same (h : List.Forall₂ SameProperty data items)
    (hlen : items.length ≤ intMax.toNat) :
    jsonDataToStructData gLogLvl contents (.array items) =
      some ⟨leSuccess, data, Int32.ofNat items.length⟩ := by
  have hchildren : (CJson.array items).children.map (·.2) = items := by
    rw [CJson.children, List.map_map]
    exact List.map_id items
  have hsize : getArraySize (.array items) = Int32.ofNat items.length := by
    rw [getArraySize, ← List.length_map (·.2), hchildren]
  have htoInt : (Int32.ofNat items.length).toInt = items.length :=
    Int32.toInt_ofNat_of_lt (by simp only [intMax] at hlen; omega)
  rw [jsonDataToStructData, hchildren, hsize]
  rcases Nat.eq_zero_or_pos items.length with hzero | hpos
  · obtain rfl := List.length_eq_zero_iff.mp hzero
    cases h
    rfl
  · have hgt : ¬ Int32.ofNat items.length ≤ 0 := by
      rw [Int32.le_iff_toInt_le, htoInt, Int32.toInt_zero]
      omega
    have hnat : (Int32.ofNat items.length).toNatClampNeg = items.length := by
      rw [Int32.toNatClampNeg, htoInt, Int.toNat_natCast]
    simp only [hgt, if_false, hnat]
    rw [jsonItemsToStruct_of_same gLogLvl contents h (by omega)]
    rfl

end Lists

/-- The values of device data that the codec keeps: integers in canonical decimal, any text,
and printed JSON of finite numbers within the parser's nesting limit. -/
def CanonicalValue (t : LedaDataType) (value : CStr) : Prop :=
  match t with
  | .int | .bool | .enum => ∃ n : Int32, value.bytes = intText n.toInt
  | .text | .date => True
  | .struct | .array => ∃ v : CJson, v.Finite ∧ v.nesting ≤ nestingLimit ∧ value = v.renderStr
  | .float | .double => False

/-- The JSON values that the codec keeps. -/
def CanonicalJson (t : LedaDataType) (value : CJson) : Prop :=
  match t with
  | .int | .bool | .enum => ∃ n : Int32, value = .number (.ofInt n.toInt)
  | .text | .date => ∃ s : CStr, s.length < 2048 ∧ value = .string s
  | .struct | .array => value.Finite ∧ value.nesting ≤ nestingLimit ∧ value.render.length < 2048
  | .float | .double => False

/-- Entries of device data that the codec keeps. -/
def CanonicalData (d : LedaDeviceData) : Prop :=
  ∃ t : LedaDataType, d.type = t.toInt32 ∧ CanonicalValue t d.value.str

/-- JSON items that the codec keeps. -/
def CanonicalItem (item : CJson) : Prop :=
  ∃ (identifier : CStr) (t : LedaDataType) (value : CJson),
    item = propertyItem identifier t value ∧ identifier.length < 64 ∧ CanonicalJson t value

/-- Every canonical entry has its item. -/
theorem exists_item_of_canonical {d : LedaDeviceData} (h : CanonicalData d) :
    ∃ item, SameProperty d item := by
  obtain ⟨t, ht, hvalue⟩ := h
  have hinteger : ∀ n : Int32, d.value.str.bytes = intText n.toInt →
      d.value.str = ⟨intText n.toInt, noNul_intText _⟩ := fun n hn ↦ CStr.ext hn
  have hdenotes : ∃ value, Denotes t d.value.str value := by
    cases t with
    | int | bool | enum =>
      obtain ⟨n, hn⟩ := hvalue
      rw [hinteger n hn]
      exact ⟨_, .integer (by simp) n⟩
    | text | date => exact ⟨_, .string (by simp) _⟩
    | struct | array =>
      obtain ⟨v, hfin, hnest, hstr⟩ := hvalue
      rw [hstr]
      exact ⟨_, .tree (by simp) hfin hnest⟩
    | float | double => exact hvalue.elim
  obtain ⟨value, hvalue⟩ := hdenotes
  exact ⟨_, t, value, ht, hvalue, rfl⟩

/-- Every canonical item has its entry. -/
theorem exists_data_of_canonical {item : CJson} (h : CanonicalItem item) :
    ∃ d, SameProperty d item := by
  obtain ⟨identifier, t, value, rfl, hid, hvalue⟩ := h
  have hdenotes : ∃ buf : CharBuf 2048, Denotes t buf.str value := by
    cases t with
    | int | bool | enum =>
      obtain ⟨n, rfl⟩ := hvalue
      exact ⟨⟨⟨_, noNul_intText _⟩, (length_intText_le n).trans_lt (by decide)⟩, .integer (by simp) n⟩
    | text | date =>
      obtain ⟨s, hs, rfl⟩ := hvalue
      exact ⟨⟨s, hs⟩, .string (by simp) s⟩
    | struct | array =>
      obtain ⟨hfin, hnest, hlen⟩ := hvalue
      exact ⟨⟨value.renderStr, hlen⟩, .tree (by simp) hfin hnest⟩
    | float | double => exact hvalue.elim
  obtain ⟨buf, hvalue⟩ := hdenotes
  exact ⟨⟨t.toInt32, ⟨identifier, hid⟩, buf⟩, t, value, rfl, hvalue, rfl⟩

theorem forall_exists_of_forall₂ {α β : Type} {R : α → β → Prop} {l : List α} {l' : List β}
    (h : List.Forall₂ R l l') : ∀ a ∈ l, ∃ b, R a b := by
  induction h with
  | nil => simp
  | @cons a b l l' hab _ ih =>
    rintro a' ha
    rcases List.mem_cons.mp ha with rfl | ha
    · exact ⟨b, hab⟩
    · exact ih a' ha

theorem forall₂_of_forall_exists {α β : Type} {R : α → β → Prop} {l : List α}
    (h : ∀ a ∈ l, ∃ b, R a b) : ∃ l', List.Forall₂ R l l' := by
  induction l with
  | nil => exact ⟨[], .nil⟩
  | cons a l ih =>
    obtain ⟨b, hb⟩ := h a (by simp)
    obtain ⟨l', hl⟩ := ih fun a ha ↦ h a (by simp [ha])
    exact ⟨b :: l', .cons hb hl⟩

/-- Decoding undoes encoding on canonical data, and encoding undoes decoding on canonical
items. -/
theorem codec_round_trip (gLogLvl : Int32) (contents : Nat → LedaDeviceData) :
    (∀ data : List LedaDeviceData, data.length ≤ intMax.toNat → (∀ d ∈ data, CanonicalData d) →
      ∃ json, structDataToJsonData gLogLvl data = some (some json) ∧
        jsonDataToStructData gLogLvl contents json =
          some ⟨leSuccess, data, Int32.ofNat data.length⟩) ∧
    (∀ items : List CJson, items.length ≤ intMax.toNat → (∀ item ∈ items, CanonicalItem item) →
      ∃ data, jsonDataToStructData gLogLvl contents (.array items) =
          some ⟨leSuccess, data, Int32.ofNat items.length⟩ ∧
        structDataToJsonData gLogLvl data = some (some (.array items))) := by
  constructor
  · intro data hlen hcanonical
    obtain ⟨items, hsame⟩ := forall₂_of_forall_exists fun d hd ↦
      exists_item_of_canonical (hcanonical d hd)
    have heq : data.length = items.length := hsame.length_eq
    refine ⟨_, structDataToJsonData_of_same gLogLvl hsame, ?_⟩
    rw [heq]
    exact jsonDataToStructData_of_same gLogLvl contents hsame (by omega)
  · intro items hlen hcanonical
    obtain ⟨data, hsame⟩ := forall₂_of_forall_exists (R := fun item d ↦ SameProperty d item)
      fun item hitem ↦ exists_data_of_canonical (hcanonical item hitem)
    exact ⟨data, jsonDataToStructData_of_same gLogLvl contents hsame.flip hlen,
      structDataToJsonData_of_same gLogLvl hsame.flip⟩

/-- A structure with a list of numbers in it. -/
def sampleTree : CJson :=
  .object [(.lit "on", .bool true), (.lit "xs", .array [.number (.ofRatio true 3 2), .null])]

/-- An entry of each kind. -/
def sampleData : List LedaDeviceData :=
  [⟨LedaDataType.int.toInt32, ⟨.lit "n", by decide⟩, ⟨.lit "-2147483648", by decide⟩⟩,
    ⟨LedaDataType.text.toInt32, ⟨.lit "t", by decide⟩, ⟨.lit "a\"b", by decide⟩⟩,
    ⟨LedaDataType.struct.toInt32, ⟨.lit "s", by decide⟩, ⟨sampleTree.renderStr, by decide +kernel⟩⟩]

theorem codec_round_trip_sample :
    ∃ json data, structDataToJsonData 1 sampleData = some (some json) ∧
      jsonDataToStructData 1 (fun _ ↦ ⟨77, ⟨.lit "x", by decide⟩, ⟨.lit "x", by decide⟩⟩) json =
        some ⟨leSuccess, sampleData, 3⟩ ∧
      jsonDataToStructData 1 (fun _ ↦ ⟨77, ⟨.lit "x", by decide⟩, ⟨.lit "x", by decide⟩⟩)
          (.array [propertyItem (.lit "n") .enum (.number (.ofInt (-7)))]) =
        some ⟨leSuccess, data, 1⟩ ∧
      structDataToJsonData 1 data =
        some (some (.array [propertyItem (.lit "n") .enum (.number (.ofInt (-7)))])) := by
  have hround := codec_round_trip 1 (fun _ ↦ ⟨77, ⟨.lit "x", by decide⟩, ⟨.lit "x", by decide⟩⟩)
  have hfinite : sampleTree.Finite := by
    have hnum : (Binary64.ofRatio true 3 2).IsFinite := by
      rw [show Binary64.ofRatio true 3 2 = .finite true ⟨3 * 2 ^ 1073, by decide +kernel,
        by decide +kernel⟩ by decide +kernel]
      trivial
    exact ⟨trivial, ⟨hnum, trivial, trivial⟩, trivial⟩
  obtain ⟨json, hencode, hdecode⟩ := hround.1 sampleData (by decide) (by
    intro d hd
    simp only [sampleData, List.mem_cons, List.not_mem_nil, or_false] at hd
    rcases hd with rfl | rfl | rfl
    · exact ⟨.int, rfl, -2147483648, by decide⟩
    · exact ⟨.text, rfl, trivial⟩
    · exact ⟨.struct, rfl, _, hfinite, by decide, rfl⟩)
  obtain ⟨data, hdecode', hencode'⟩ := hround.2
    [propertyItem (.lit "n") .enum (.number (.ofInt (-7)))] (by decide) (by
      intro item hitem
      rw [List.mem_singleton.mp hitem]
      exact ⟨_, _, _, rfl, by decide, -7, rfl⟩)
  exact ⟨json, data, hencode, hdecode, hdecode', hencode'⟩

/-- An array inside an array, and so on. -/
def tower : Nat → CJson
  | 0 => .array []
  | n + 1 => .array [tower n]

private theorem finite_tower (n : Nat) : (tower n).Finite := by
  induction n with
  | zero => trivial
  | succ n ih => exact ⟨ih, trivial⟩

private theorem nesting_tower (n : Nat) : (tower n).nesting = n + 1 := by
  induction n with
  | zero => rfl
  | succ n ih =>
    rw [tower, CJson.nesting, nestingElements, nestingElements, ih, Nat.max_zero]

private theorem length_render_tower (n : Nat) : (tower n).render.length = 2 * (n + 1) := by
  induction n with
  | zero => rfl
  | succ n ih =>
    rw [tower, CJson.render, renderElements, if_pos rfl, List.append_nil, List.cons_append,
      List.length_cons, List.length_append, ih, List.length_singleton]
    omega

/-- A structure of 1001 levels, whose text has 2002 bytes. -/
def deepEntry : LedaDeviceData where
  type := LedaDataType.struct.toInt32
  key := ⟨.lit "s", by decide⟩
  value := ⟨(tower 1000).renderStr, by
    rw [CStr.length, CJson.renderStr, length_render_tower]
    decide⟩

/-- The number `-0`. -/
def negativeZero : Binary64 := .finite true ⟨0, Nat.two_pow_pos _, Precise.zero⟩

/-- A structure that is printed in 2002 bytes is refused by the encoder, and an integer `-0`
comes back as `0`. -/
theorem deep_value_and_negative_zero_not_kept :
    (deepEntry.value.str = (tower 1000).renderStr ∧ (tower 1000).Finite ∧
      structDataToJsonData 1 [deepEntry] = some none) ∧
    (negativeZero.eq (.ofInt 0) = true ∧ negativeZero ≠ .ofInt 0 ∧
      ∃ data, jsonDataToStructData 1 (fun _ ↦ ⟨0, ⟨.lit "", by decide⟩, ⟨.lit "", by decide⟩⟩)
          (.array [propertyItem (.lit "n") .int (.number negativeZero)]) =
            some ⟨leSuccess, data, 1⟩ ∧
        structDataToJsonData 1 data =
          some (some (.array [propertyItem (.lit "n") .int (.number (.ofInt 0))]))) := by
  have hparse : parse (tower 1000).renderStr = none := by
    rw [parse_renderStr (finite_tower 1000), nesting_tower, if_neg (by decide)]
  constructor
  · have hvalue : deepEntry.value.str = (tower 1000).renderStr := rfl
    refine ⟨hvalue, finite_tower 1000, ?_⟩
    apply structDataToJsonData_refused 1 (d := deepEntry) rfl
    rw [hvalue, hparse]
  · refine ⟨by decide +kernel, by decide +kernel,
      [⟨0, ⟨.lit "n", by decide⟩, ⟨.lit "0", by decide⟩⟩], ?_, ?_⟩
    · decide +kernel
    · apply structDataToJsonData_of_same
      have hdenotes : Denotes .int (.lit "0") (.number (.ofInt 0)) := .integer (.inl rfl) 0
      exact .cons ⟨.int, _, rfl, hdenotes, rfl⟩ .nil

end LedaSdk.Leda
