import LedaSdk.Leda.DeviceData

/-!
# When decoding succeeds, and with what

What `json_data_to_struct_data` asks of the children of an array: for each child that it
accepts the entry it writes, and for a whole array the exact conditions under which it
returns `LE_SUCCESS`, returns an error, or neither.
-/

namespace LedaSdk.Leda
open LedaSdk.Base LedaSdk.Json

/-- The members of a child that the decoder reads. -/
structure ItemFields (item identifier : CJson) (type : CStr) (value : CJson) : Prop where
  identifier : getObjectItem (some item) (.lit "identifier") = some identifier
  type : getObjectItem (some item) (.lit "type") = some (.string type)
  value : getObjectItem (some item) (.lit "value") = some value

/-- The enumerator that a type name denotes. -/
def namedType (type : CStr) : Option LedaDataType := LedaDataType.ofInt32? (typeStringToNumber type)

/-- Values of structures and arrays are printed, which fails for texts near `INT_MAX`. -/
def Printable (t : LedaDataType) (value : CJson) : Prop :=
  t = .struct ∨ t = .array → value.render.length + 2 ≤ intMax.toNat

/-- The text that the decoder writes for a value. -/
def valueText (t : LedaDataType) (value : CJson) : CStr :=
  match t with
  | .int | .bool | .enum => intStr value.valueint.toInt
  | .float | .double => .ofBuffer (lfText value.valuedouble)
  | .text | .date => printedString value.valuestring
  | .struct | .array => value.renderStr

/-- An entry after its key and its type are written. -/
def LedaDeviceData.setKeyType (data : LedaDeviceData) (identifier : CJson) (type : CStr) :
    LedaDeviceData :=
  { data with key := .snprintf 64 (printedString identifier.valuestring),
              type := typeStringToNumber type }

/-- A child with an entry that the decoder makes of it. -/
inductive DecodesTo (gLogLvl : Int32) (e : LedaDeviceData) : CJson → LedaDeviceData → Prop where
  | bare (s : CStr) : DecodesTo gLogLvl e (.string s) { e with key := .snprintf 64 s }
  | typed {item identifier : CJson} {type : CStr} {value : CJson} {t : LedaDataType}
      (hf : ItemFields item identifier type value) (ht : namedType type = some t)
      (hp : Printable t value) :
      DecodesTo gLogLvl e item
        { e.setKeyType identifier type with value := .snprintf 2048 (valueText t value) }
  | untyped {item identifier : CJson} {type : CStr} {value : CJson}
      (hf : ItemFields item identifier type value) (ht : namedType type = none)
      (hlog : logLevelWarn < gLogLvl) :
      DecodesTo gLogLvl e item (e.setKeyType identifier type)

/-- A child that the decoder refuses; without an identifier it is refused before the entry
is touched. -/
inductive Refused (room : Bool) : CJson → Prop where
  | identifier {item : CJson} (hs : ∀ s, item ≠ .string s)
      (h : getObjectItem (some item) (.lit "identifier") = none) : Refused room item
  | type {item identifier : CJson} (hroom : room = true)
      (hi : getObjectItem (some item) (.lit "identifier") = some identifier)
      (h : ∀ type, getObjectItem (some item) (.lit "type") ≠ some (.string type)) :
      Refused room item
  | value {item identifier : CJson} {type : CStr} (hroom : room = true)
      (hi : getObjectItem (some item) (.lit "identifier") = some identifier)
      (ht : getObjectItem (some item) (.lit "type") = some (.string type))
      (h : getObjectItem (some item) (.lit "value") = none) : Refused room item
  | print {item identifier : CJson} {type : CStr} {value : CJson} {t : LedaDataType}
      (hroom : room = true) (hf : ItemFields item identifier type value)
      (ht : namedType type = some t) (hp : ¬ Printable t value) : Refused room item

section Items
variable {gLogLvl : Int32} {e d : LedaDeviceData} {item : CJson}

/-- A string has no members. -/
theorem ItemFields.ne_string {identifier value : CJson} {type s : CStr}
    (h : ItemFields item identifier type value) : item ≠ .string s := by
  rintro rfl
  exact absurd h.identifier (by simp [getObjectItem, CJson.children])

/-- The members that the decoder reads are determined by the child. -/
theorem ItemFields.unique {i i' v v' : CJson} {type type' : CStr} (h : ItemFields item i type v)
    (h' : ItemFields item i' type' v') : i = i' ∧ type = type' ∧ v = v' := by
  have htype := Option.some.inj (h.type.symm.trans h'.type)
  cases htype
  exact ⟨Option.some.inj (h.identifier.symm.trans h'.identifier), rfl,
    Option.some.inj (h.value.symm.trans h'.value)⟩

/-- A value of a known type is written as its text. -/
theorem writeValue_named {t : LedaDataType} {value : CJson}
    (ht : LedaDataType.ofInt32? d.type = some t) :
    (Printable t value → writeValue gLogLvl d value =
      some (.ok { d with value := .snprintf 2048 (valueText t value) })) ∧
    (¬ Printable t value → writeValue gLogLvl d value = some (.error leErrorAllocatingMem)) := by
  unfold writeValue
  rw [ht]
  cases t with
  | struct | array =>
    simp only [Printable, true_or, or_true, forall_const, printUnformatted_eq]
    constructor
    · intro h
      rw [if_pos h]
      rfl
    · intro h
      rw [if_neg h]
  | _ => exact ⟨fun _ ↦ rfl, fun h ↦ absurd (fun ht ↦ by simp at ht) h⟩

theorem writeValue_unnamed {value : CJson} (ht : LedaDataType.ofInt32? d.type = none) :
    writeValue gLogLvl d value = if logLevelWarn < gLogLvl then some (.ok d) else none := by
  simp only [writeValue, ht, warnInvalidType]
  split
  · rfl
  · rfl

/-- What is done for a child that is not a string. -/
theorem jsonItemToStruct_object {entry : Option LedaDeviceData} (hs : ∀ s, item ≠ .string s) :
    jsonItemToStruct gLogLvl entry item =
      match getObjectItem (some item) (.lit "identifier") with
      | none => some (.error leErrorInvaildParam)
      | some identifier =>
        entry.bind fun e ↦
          match getObjectItem (some item) (.lit "type") with
          | some (.string type) =>
            match getObjectItem (some item) (.lit "value") with
            | none => some (.error leErrorInvaildParam)
            | some value => writeValue gLogLvl (e.setKeyType identifier type) value
          | _ => some (.error leErrorInvaildParam) := by
  cases item with
  | string s => exact absurd rfl (hs s)
  | _ => rfl

/-- An object with the three members is decoded by writing its value. -/
theorem jsonItemToStruct_fields {identifier value : CJson} {type : CStr}
    (hf : ItemFields item identifier type value) :
    jsonItemToStruct gLogLvl (some e) item =
      writeValue gLogLvl (e.setKeyType identifier type) value := by
  rw [jsonItemToStruct_object fun s ↦ hf.ne_string, hf.identifier, hf.type, hf.value]
  rfl

/-- A child that decodes is decoded. -/
theorem DecodesTo.jsonItemToStruct (h : DecodesTo gLogLvl e item d) :
    jsonItemToStruct gLogLvl (some e) item = some (.ok d) := by
  cases h with
  | bare s => rfl
  | @typed _ identifier type value t hf ht hp =>
    rw [jsonItemToStruct_fields hf]
    exact (writeValue_named (d := e.setKeyType identifier type) ht).1 hp
  | @untyped _ identifier type value hf ht hlog =>
    rw [jsonItemToStruct_fields hf, writeValue_unnamed (d := e.setKeyType identifier type) ht,
      if_pos hlog]

/-- A refused child is an error. -/
theorem Refused.jsonItemToStruct (gLogLvl : Int32) {entry : Option LedaDeviceData}
    (h : Refused entry.isSome item) :
    ∃ code, code ≠ leSuccess ∧ jsonItemToStruct gLogLvl entry item = some (.error code) := by
  cases h with
  | identifier hs h =>
    rw [jsonItemToStruct_object hs, h]
    exact ⟨_, by decide, rfl⟩
  | type hroom hi h =>
    obtain ⟨e, rfl⟩ := Option.isSome_iff_exists.mp hroom
    have hs : ∀ s, item ≠ .string s := by
      rintro s rfl
      exact absurd hi (by simp [getObjectItem, CJson.children])
    refine ⟨leErrorInvaildParam, by decide, ?_⟩
    rw [jsonItemToStruct_object hs, hi]
    simp only [Option.bind_some]
  | value hroom hi ht h =>
    obtain ⟨e, rfl⟩ := Option.isSome_iff_exists.mp hroom
    have hs : ∀ s, item ≠ .string s := by
      rintro s rfl
      exact absurd hi (by simp [getObjectItem, CJson.children])
    rw [jsonItemToStruct_object hs, hi, ht, h]
    exact ⟨_, by decide, rfl⟩
  | @print identifier type value t hroom hf ht hp =>
    obtain ⟨e, rfl⟩ := Option.isSome_iff_exists.mp hroom
    rw [jsonItemToStruct_fields hf]
    exact ⟨_, by decide, (writeValue_named (d := e.setKeyType identifier type) ht).2 hp⟩

/-- A child is a string, has the three members and a value that can be written, or is
refused. -/
theorem item_cases (item : CJson) :
    (∃ s, item = .string s) ∨
      (∃ identifier type value, ItemFields item identifier type value ∧
        ∀ t, namedType type = some t → Printable t value) ∨
      Refused true item := by
  by_cases hs : ∃ s, item = .string s
  · exact .inl hs
  simp only [not_exists] at hs
  cases hidentifier : getObjectItem (some item) (.lit "identifier") with
  | none => exact .inr (.inr (.identifier hs hidentifier))
  | some identifier =>
    by_cases htype : ∃ type, getObjectItem (some item) (.lit "type") = some (.string type)
    · obtain ⟨type, htype⟩ := htype
      cases hvalue : getObjectItem (some item) (.lit "value") with
      | none => exact .inr (.inr (.value rfl hidentifier htype hvalue))
      | some value =>
        by_cases hp : ∀ t, namedType type = some t → Printable t value
        · exact .inr (.inl ⟨identifier, type, value, ⟨hidentifier, htype, hvalue⟩, hp⟩)
        · simp only [not_forall] at hp
          obtain ⟨t, ht, hp⟩ := hp
          exact .inr (.inr (.print rfl ⟨hidentifier, htype, hvalue⟩ ht hp))
    · simp only [not_exists] at htype
      exact .inr (.inr (.type rfl hidentifier htype))

/-- Without an identifier there is no room needed to refuse. -/
theorem jsonItemToStruct_none (gLogLvl : Int32) (item : CJson) :
    Refused false item ∨ jsonItemToStruct gLogLvl none item = none := by
  by_cases hs : ∃ s, item = .string s
  · obtain ⟨s, rfl⟩ := hs
    exact .inr rfl
  · simp only [not_exists] at hs
    cases hidentifier : getObjectItem (some item) (.lit "identifier") with
    | none => exact .inl (.identifier hs hidentifier)
    | some identifier =>
      rw [jsonItemToStruct_object hs, hidentifier]
      exact .inr rfl

/-- A child decodes, is refused, or its decoding is undefined. -/
theorem jsonItemToStruct_cases (gLogLvl : Int32) (entry : Option LedaDeviceData) (item : CJson) :
    (∃ e d, entry = some e ∧ DecodesTo gLogLvl e item d) ∨ Refused entry.isSome item ∨
      jsonItemToStruct gLogLvl entry item = none := by
  cases entry with
  | none => exact .inr (jsonItemToStruct_none gLogLvl item)
  | some e =>
    rcases item_cases item with ⟨s, rfl⟩ | ⟨identifier, type, value, hf, hp⟩ | hr
    · exact .inl ⟨e, _, rfl, .bare s⟩
    · cases ht : namedType type with
      | some t => exact .inl ⟨e, _, rfl, .typed hf ht (hp t ht)⟩
      | none =>
        by_cases hlog : logLevelWarn < gLogLvl
        · exact .inl ⟨e, _, rfl, .untyped hf ht hlog⟩
        · right
          right
          rw [jsonItemToStruct_fields hf,
            writeValue_unnamed (d := e.setKeyType identifier type) ht, if_neg hlog]
    · exact .inr (.inl hr)

/-- The decoder makes exactly these entries of a child. -/
theorem jsonItemToStruct_ok_iff {entry : Option LedaDeviceData} :
    jsonItemToStruct gLogLvl entry item = some (.ok d) ↔
      ∃ e, entry = some e ∧ DecodesTo gLogLvl e item d := by
  constructor
  · intro h
    rcases jsonItemToStruct_cases gLogLvl entry item with ⟨e, d', rfl, hd⟩ | hr | hu
    · rw [hd.jsonItemToStruct] at h
      cases h
      exact ⟨e, rfl, hd⟩
    · obtain ⟨code, -, herror⟩ := hr.jsonItemToStruct gLogLvl
      rw [herror] at h
      cases h
    · rw [hu] at h
      cases h
  · rintro ⟨e, rfl, h⟩
    exact h.jsonItemToStruct

/-- The decoder refuses exactly these children, and never with `LE_SUCCESS`. -/
theorem jsonItemToStruct_error {entry : Option LedaDeviceData} {code : Int32}
    (h : jsonItemToStruct gLogLvl entry item = some (.error code)) :
    Refused entry.isSome item ∧ code ≠ leSuccess := by
  rcases jsonItemToStruct_cases gLogLvl entry item with ⟨e, d', rfl, hd⟩ | hr | hu
  · rw [hd.jsonItemToStruct] at h
    cases h
  · obtain ⟨code', hcode, herror⟩ := hr.jsonItemToStruct gLogLvl
    rw [herror] at h
    cases h
    exact ⟨hr, hcode⟩
  · rw [hu] at h
    cases h

end Items

section Arrays
variable {gLogLvl : Int32} {contents : Nat → LedaDeviceData} {size i : Nat}
  {items : List CJson} {data : List LedaDeviceData}

/-- A child of which an entry can be made. -/
def DecodableItem (gLogLvl : Int32) (item : CJson) : Prop :=
  ∀ e, ∃ d, DecodesTo gLogLvl e item d

theorem DecodesTo.decodable {e d : LedaDeviceData} {item : CJson}
    (h : DecodesTo gLogLvl e item d) : DecodableItem gLogLvl item := by
  intro e'
  cases h with
  | bare s => exact ⟨_, .bare s⟩
  | typed hf ht hp => exact ⟨_, .typed hf ht hp⟩
  | untyped hf ht hlog => exact ⟨_, .untyped hf ht hlog⟩

/-- What the loop makes of the children from an index on. -/
theorem jsonItemsToStruct_ok
    (h : jsonItemsToStruct gLogLvl contents size i items = some (.ok data)) :
    (items = [] ∨ i + items.length ≤ size) ∧ data.length = items.length ∧
      ∀ k item, items[k]? = some item →
        ∃ d, data[k]? = some d ∧ DecodesTo gLogLvl (contents (i + k)) item d := by
  induction items generalizing i data with
  | nil =>
    cases h
    exact ⟨.inl rfl, rfl, fun k item hk ↦ by simp at hk⟩
  | cons item items ih =>
    rw [jsonItemsToStruct] at h
    cases hitem : jsonItemToStruct gLogLvl (if i < size then some (contents i) else none) item with
    | none =>
      rw [hitem] at h
      cases h
    | some result =>
      rw [hitem] at h
      cases result with
      | error code => cases h
      | ok d =>
        cases hrest : jsonItemsToStruct gLogLvl contents size (i + 1) items with
        | none => simp [hrest] at h
        | some result =>
          cases result with
          | error code => simp [hrest] at h
          | ok rest =>
            simp only [hrest, Option.bind_eq_bind, Option.bind_some, Option.some.injEq,
              Except.ok.injEq] at h
            subst h
            obtain ⟨e, hentry, hd⟩ := jsonItemToStruct_ok_iff.mp hitem
            obtain ⟨hroom, hlen, hget⟩ := ih hrest
            have hi : i < size := by
              by_contra hi
              rw [if_neg hi] at hentry
              cases hentry
            rw [if_pos hi] at hentry
            cases hentry
            refine ⟨.inr ?_, by simp [hlen], ?_⟩
            · rcases hroom with rfl | hroom
              · exact hi
              · simp only [List.length_cons]
                omega
            · rintro (_ | k) item' hk
              · cases hk
                exact ⟨d, rfl, hd⟩
              · obtain ⟨d', hd', hdec⟩ := hget k item' hk
                refine ⟨d', hd', ?_⟩
                rw [← Nat.add_assoc, Nat.add_right_comm]
                exact hdec

/-- The loop succeeds on children that decode, as long as there is room. -/
theorem jsonItemsToStruct_of_decodable (contents : Nat → LedaDeviceData) (size : Nat)
    (hitems : ∀ item ∈ items, DecodableItem gLogLvl item)
    (hroom : i + items.length ≤ size) :
    ∃ data, jsonItemsToStruct gLogLvl contents size i items = some (.ok data) := by
  induction items generalizing i with
  | nil => exact ⟨[], rfl⟩
  | cons item items ih =>
    rw [List.length_cons] at hroom
    obtain ⟨d, hd⟩ := hitems item List.mem_cons_self (contents i)
    obtain ⟨rest, hrest⟩ := ih (i := i + 1)
      (fun item' hm ↦ hitems item' (List.mem_cons_of_mem _ hm)) (by omega)
    refine ⟨d :: rest, ?_⟩
    rw [jsonItemsToStruct, if_pos (by omega), hd.jsonItemToStruct]
    simp only [hrest, Option.bind_eq_bind, Option.bind_some]

/-- The loop ends with an error exactly at a refused child after children that decode. -/
theorem jsonItemsToStruct_error_iff (gLogLvl : Int32) (contents : Nat → LedaDeviceData)
    (size i : Nat) (items : List CJson) :
    (∃ code, jsonItemsToStruct gLogLvl contents size i items = some (.error code)) ↔
      ∃ pre item post, items = pre ++ item :: post ∧ (∀ x ∈ pre, DecodableItem gLogLvl x) ∧
        (pre = [] ∨ i + pre.length ≤ size) ∧ Refused (i + pre.length < size) item := by
  constructor
  · rintro ⟨code, h⟩
    induction items generalizing i with
    | nil => cases h
    | cons item items ih =>
      rw [jsonItemsToStruct] at h
      cases hitem : jsonItemToStruct gLogLvl (if i < size then some (contents i) else none) item with
      | none =>
        rw [hitem] at h
        cases h
      | some result =>
        rw [hitem] at h
        cases result with
        | error code' =>
          refine ⟨[], item, items, rfl, by simp, .inl rfl, ?_⟩
          have hr := (jsonItemToStruct_error hitem).1
          by_cases hi : i < size
          · simpa [hi] using hr
          · simpa [hi] using hr
        | ok d =>
          obtain ⟨e, hentry, hd⟩ := jsonItemToStruct_ok_iff.mp hitem
          have hi : i < size := by
            by_contra hi
            rw [if_neg hi] at hentry
            cases hentry
          cases hrest : jsonItemsToStruct gLogLvl contents size (i + 1) items with
          | none => simp [hrest] at h
          | some result =>
            cases result with
            | ok rest => simp [hrest] at h
            | error code' =>
              simp only [hrest, Option.bind_eq_bind, Option.bind_some, Option.some.injEq,
                Except.error.injEq] at h
              subst h
              obtain ⟨pre, bad, post, rfl, hpre, hroom, hr⟩ := ih (i + 1) hrest
              refine ⟨item :: pre, bad, post, rfl, ?_, .inr ?_, ?_⟩
              · simpa using ⟨hd.decodable, hpre⟩
              · rcases hroom with rfl | hroom
                · exact hi
                · simp only [List.length_cons]
                  omega
              · rw [List.length_cons]
                rwa [Nat.add_assoc, Nat.add_comm 1] at hr
  · rintro ⟨pre, item, post, rfl, hpre, hroom, hr⟩
    induction pre generalizing i with
    | nil =>
      have hr : Refused (if i < size then some (contents i) else none).isSome item := by
        by_cases hi : i < size
        · simpa [hi] using hr
        · simpa [hi] using hr
      obtain ⟨code, -, herror⟩ := hr.jsonItemToStruct gLogLvl
      refine ⟨code, ?_⟩
      rw [List.nil_append, jsonItemsToStruct, herror]
      rfl
    | cons x pre ih =>
      simp only [List.length_cons, reduceCtorEq, false_or] at hroom hr
      obtain ⟨d, hd⟩ := hpre x List.mem_cons_self (contents i)
      obtain ⟨code, hrest⟩ := ih (i + 1)
        (fun x' hm ↦ hpre x' (List.mem_cons_of_mem _ hm)) (.inr (by omega))
        (by rwa [Nat.add_assoc, Nat.add_comm 1])
      refine ⟨code, ?_⟩
      rw [List.cons_append, jsonItemsToStruct, if_pos (by omega), hd.jsonItemToStruct]
      simp only [hrest, Option.bind_eq_bind, Option.bind_some]

/-- No error of the loop is `LE_SUCCESS`. -/
theorem jsonItemsToStruct_error_ne {code : Int32}
    (h : jsonItemsToStruct gLogLvl contents size i items = some (.error code)) :
    code ≠ leSuccess := by
  induction items generalizing i with
  | nil => cases h
  | cons item items ih =>
    rw [jsonItemsToStruct] at h
    cases hitem : jsonItemToStruct gLogLvl (if i < size then some (contents i) else none) item with
    | none =>
      rw [hitem] at h
      cases h
    | some result =>
      rw [hitem] at h
      cases result with
      | error code' =>
        cases h
        exact (jsonItemToStruct_error hitem).2
      | ok d =>
        cases hrest : jsonItemsToStruct gLogLvl contents size (i + 1) items with
        | none => simp [hrest] at h
        | some result =>
          cases result with
          | ok rest => simp [hrest] at h
          | error code' =>
            simp only [hrest, Option.bind_eq_bind, Option.bind_some, Option.some.injEq,
              Except.error.injEq] at h
            rw [h] at hrest
            exact ih hrest

end Arrays

section Values
variable {gLogLvl : Int32} {contents : Nat → LedaDeviceData} {json : CJson} {decoded : DecodedData}

/-- The children of a value without their names. -/
def childItems (json : CJson) : List CJson := json.children.map (·.2)

/-- Values that are decoded with `LE_SUCCESS`: those whose number of children is not
positive as an `int`, and those of at most `INT_MAX` children that all decode. -/
def Decodable (gLogLvl : Int32) (json : CJson) : Prop :=
  getArraySize json ≤ 0 ∨ ((childItems json).length ≤ intMax.toNat ∧
    ∀ item ∈ childItems json, DecodableItem gLogLvl item)

/-- Values that are decoded with an error: a child is refused after children that decode and
have room in the array. -/
def Refuses (json : CJson) (gLogLvl : Int32) : Prop :=
  0 < getArraySize json ∧ ∃ pre item post, childItems json = pre ++ item :: post ∧
    (∀ x ∈ pre, DecodableItem gLogLvl x) ∧
    (pre = [] ∨ pre.length ≤ (getArraySize json).toNatClampNeg) ∧
    Refused (pre.length < (getArraySize json).toNatClampNeg) item

theorem getArraySize_eq (h : (childItems json).length ≤ intMax.toNat) :
    (getArraySize json).toInt = (childItems json).length := by
  rw [childItems, List.length_map] at h ⊢
  rw [intMax] at h
  rw [getArraySize, Int32.toInt_ofNat_of_lt (by omega)]

/-- A positive count is that of the children, or smaller. -/
theorem toNatClampNeg_getArraySize_le (json : CJson) :
    (getArraySize json).toNatClampNeg ≤ intMax.toNat := by
  have := (getArraySize json).toInt_lt
  rw [Int32.toNatClampNeg, intMax]
  omega

theorem jsonDataToStructData_nonpos (h : getArraySize json ≤ 0) :
    jsonDataToStructData gLogLvl contents json = some ⟨leSuccess, [], 0⟩ := by
  rw [jsonDataToStructData, if_pos h]

/-- What a positive count leads to. -/
theorem jsonDataToStructData_pos (h : ¬ getArraySize json ≤ 0) :
    jsonDataToStructData gLogLvl contents json =
      (jsonItemsToStruct gLogLvl contents (getArraySize json).toNatClampNeg 0
        (childItems json)).map fun
        | .error code => ⟨code, [], getArraySize json⟩
        | .ok data => ⟨leSuccess, data, getArraySize json⟩ := by
  rw [jsonDataToStructData, if_neg h, childItems]
  cases jsonItemsToStruct gLogLvl contents (getArraySize json).toNatClampNeg 0
      (json.children.map (·.2)) with
  | none => rfl
  | some result => cases result <;> rfl

/-- What the decoder hands over when it succeeds on a positive count. -/
theorem jsonDataToStructData_success (hpos : ¬ getArraySize json ≤ 0)
    (h : jsonDataToStructData gLogLvl contents json = some decoded)
    (hret : decoded.ret = leSuccess) :
    (childItems json).length ≤ intMax.toNat ∧ decoded.dataCnt = getArraySize json ∧
      decoded.structData.length = (childItems json).length ∧
      ∀ k item, (childItems json)[k]? = some item →
        ∃ d, decoded.structData[k]? = some d ∧ DecodesTo gLogLvl (contents k) item d := by
  rw [jsonDataToStructData_pos hpos] at h
  cases hitems : jsonItemsToStruct gLogLvl contents (getArraySize json).toNatClampNeg 0
      (childItems json) with
  | none =>
    rw [hitems] at h
    cases h
  | some result =>
    rw [hitems] at h
    cases result with
    | error code =>
      cases h
      exact absurd hret (jsonItemsToStruct_error_ne hitems)
    | ok data =>
      cases h
      obtain ⟨hroom, hlen, hget⟩ := jsonItemsToStruct_ok hitems
      have hle := toNatClampNeg_getArraySize_le json
      refine ⟨?_, rfl, hlen, ?_⟩
      · rcases hroom with hnil | hroom
        · rw [hnil]
          exact Nat.zero_le _
        · omega
      · intro k item hk
        simpa using hget k item hk

/-- The decoder succeeds exactly on these values, whatever the array held. -/
theorem jsonDataToStructData_success_iff :
    (∃ decoded, jsonDataToStructData gLogLvl contents json = some decoded ∧
      decoded.ret = leSuccess) ↔ Decodable gLogLvl json := by
  by_cases hpos : getArraySize json ≤ 0
  · rw [jsonDataToStructData_nonpos hpos]
    exact ⟨fun _ ↦ .inl hpos, fun _ ↦ ⟨_, rfl, rfl⟩⟩
  · constructor
    · rintro ⟨decoded, h, hret⟩
      obtain ⟨hlen, -, -, hget⟩ := jsonDataToStructData_success hpos h hret
      refine .inr ⟨hlen, ?_⟩
      intro item hm
      obtain ⟨k, hk⟩ := List.mem_iff_getElem?.mp hm
      obtain ⟨d, -, hd⟩ := hget k item hk
      exact hd.decodable
    · rintro (h | ⟨hlen, hitems⟩)
      · exact absurd h hpos
      · have hsize := getArraySize_eq hlen
        obtain ⟨data, hdata⟩ := jsonItemsToStruct_of_decodable (i := 0) contents
          (getArraySize json).toNatClampNeg hitems (by rw [Int32.toNatClampNeg]; omega)
        rw [jsonDataToStructData_pos hpos, hdata]
        exact ⟨_, rfl, rfl⟩

/-- The decoder returns an error exactly on these values. -/
theorem jsonDataToStructData_error_iff :
    (∃ decoded, jsonDataToStructData gLogLvl contents json = some decoded ∧
      decoded.ret ≠ leSuccess) ↔ Refuses json gLogLvl := by
  by_cases hpos : getArraySize json ≤ 0
  · rw [jsonDataToStructData_nonpos hpos]
    constructor
    · rintro ⟨decoded, h, hret⟩
      cases h
      exact absurd rfl hret
    · rintro ⟨h, -⟩
      exact absurd h (Int32.not_lt.mpr hpos)
  · rw [jsonDataToStructData_pos hpos, Refuses]
    have hiff := jsonItemsToStruct_error_iff gLogLvl contents (getArraySize json).toNatClampNeg 0
      (childItems json)
    simp only [Nat.zero_add] at hiff
    rw [← hiff]
    constructor
    · rintro ⟨decoded, h, hret⟩
      refine ⟨Int32.not_le.mp hpos, ?_⟩
      cases hitems : jsonItemsToStruct gLogLvl contents (getArraySize json).toNatClampNeg 0
          (childItems json) with
      | none =>
        rw [hitems] at h
        cases h
      | some result =>
        rw [hitems] at h
        cases result with
        | error code => exact ⟨code, rfl⟩
        | ok data =>
          cases h
          exact absurd rfl hret
    · rintro ⟨-, code, hcode⟩
      rw [hcode]
      exact ⟨_, rfl, jsonItemsToStruct_error_ne hcode⟩

end Values

end LedaSdk.Leda
