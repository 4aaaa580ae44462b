import LedaSdk.Base.FixedPoint
import LedaSdk.Leda.Decoding
import LedaSdk.Leda.Encoding

/-!
# Device data with real numbers

`struct_data_to_json_data` and `json_data_to_struct_data` (`sdk/leda.c:183–246,248–342`) write
real numbers as doubles on one side and with six digits after the point on the other. What
the decoder writes once is kept from then on, although the double may change.
-/

namespace LedaSdk.Leda
open LedaSdk.Base LedaSdk.Json

/-- The types of real numbers. -/
def LedaDataType.IsReal (t : LedaDataType) : Prop := t = .float ∨ t = .double

/-- An entry with a real number as the decoder writes it. -/
def RealData (d : LedaDeviceData) : Prop :=
  ∃ (t : LedaDataType) (neg : Bool) (m : Magnitude), t.IsReal ∧ d.type = t.toInt32 ∧
    d.value.str.bytes = lfText (.finite neg m)

/-- An item with a finite real number. -/
def RealItem (item : CJson) : Prop :=
  ∃ (identifier : CStr) (t : LedaDataType) (neg : Bool) (m : Magnitude), t.IsReal ∧
    item = propertyItem identifier t (.number (.finite neg m))

/-- The text of a finite number fits in a value. -/
theorem lfText_fits (neg : Bool) (m : Magnitude) :
    (CStr.ofBuffer (lfText (.finite neg m))).length < 2048 := by
  rw [CStr.length, CStr.ofBuffer_of_noNul (lfText_noNul neg m)]
  exact (length_lfText_le neg m).trans_lt (by decide)

/-- The decoder makes the entry of the item, whatever the array held before. -/
def DecodesAs (gLogLvl : Int32) (d : LedaDeviceData) (item : CJson) : Prop :=
  ∀ e, jsonItemToStruct gLogLvl (some e) item = some (.ok d)

/-- The encoder makes the item of the entry, and the decoder the entry of the item. -/
def Kept (gLogLvl : Int32) (d : LedaDeviceData) (item : CJson) : Prop :=
  EncodesTo gLogLvl d item ∧ DecodesAs gLogLvl d item

section Items
variable (gLogLvl : Int32)

/-- The decoder writes the number of an item with six digits after the point. -/
theorem jsonItemToStruct_real {identifier : CStr} {t : LedaDataType} (ht : t.IsReal)
    (number : Binary64) (e : LedaDeviceData) :
    jsonItemToStruct gLogLvl (some e) (propertyItem identifier t (.number number)) =
      some (.ok ⟨t.toInt32, .snprintf 64 identifier,
        .snprintf 2048 (.ofBuffer (lfText number))⟩) := by
  obtain ⟨hid, htype, hval⟩ := getObjectItem_propertyItem identifier t (.number number)
  rw [jsonItemToStruct]
  · simp only [hid, htype, hval, Option.bind_eq_bind, Option.bind_some,
      typeStringToNumber_gTypeMap]
    rw [writeValue, ofInt32?_toInt32]
    rcases ht with rfl | rfl <;> rfl
  · intro s hs
    cases hs

/-- An entry with a real number is kept. -/
theorem exists_kept_of_real {d : LedaDeviceData} (h : RealData d) :
    ∃ item, Kept gLogLvl d item := by
  obtain ⟨t, neg, m, ht, htype, hvalue⟩ := h
  obtain ⟨m', hatof, htext⟩ := atof_lfText hvalue
  refine ⟨propertyItem d.key.str t (.number (.finite neg m')), ?_, fun e ↦ ?_⟩
  · rw [EncodesTo, structItemToJson_named (ofInt32?_eq_some_iff.mpr htype), ← hatof]
    rcases ht with rfl | rfl <;> rfl
  · have hsame : CStr.ofBuffer (lfText (.finite neg m')) = d.value.str := by
      apply CStr.ext
      rw [CStr.ofBuffer_of_noNul (lfText_noNul neg m'), htext, hvalue]
    rw [jsonItemToStruct_real gLogLvl ht, hsame, CharBuf.snprintf_self, CharBuf.snprintf_self,
      ← htype]

theorem exists_kept_of_canonical {d : LedaDeviceData} (h : CanonicalData d) :
    ∃ item, Kept gLogLvl d item := by
  obtain ⟨item, hsame⟩ := exists_item_of_canonical h
  exact ⟨item, structItemToJson_of_same gLogLvl hsame, jsonItemToStruct_of_same gLogLvl hsame⟩

/-- An item with a real number is decoded to an entry that is kept. -/
theorem exists_real_of_item {item : CJson} (h : RealItem item) :
    ∃ d, RealData d ∧ DecodesAs gLogLvl d item := by
  obtain ⟨identifier, t, neg, m, ht, rfl⟩ := h
  refine ⟨_, ⟨t, neg, m, ht, rfl, ?_⟩, jsonItemToStruct_real gLogLvl ht _⟩
  rw [CharBuf.snprintf_str (lfText_fits neg m), CStr.ofBuffer_of_noNul (lfText_noNul neg m)]

end Items

section Lists
variable {gLogLvl : Int32} {data : List LedaDeviceData} {items : List CJson}

theorem jsonItemsToStruct_of_decodesAs (contents : Nat → LedaDeviceData)
    (h : List.Forall₂ (DecodesAs gLogLvl) data items) {size i : Nat}
    (hsize : i + items.length ≤ size) :
    jsonItemsToStruct gLogLvl contents size i items = some (.ok data) := by
  induction h generalizing i with
  | nil => rfl
  | cons hd _ ih =>
    rw [List.length_cons] at hsize
    rw [jsonItemsToStruct, if_pos (by omega), hd, Option.bind_eq_bind, Option.bind_some,
      ih (by omega)]
    rfl

theorem jsonDataToStructData_of_decodesAs (contents : Nat → LedaDeviceData)
    (h : List.Forall₂ (DecodesAs gLogLvl) data items) (hlen : items.length ≤ intMax.toNat) :
    jsonDataToStructData gLogLvl contents (.array items) =
      some ⟨leSuccess, data, Int32.ofNat items.length⟩ := by
  have hitems : childItems (.array items) = items := by
    rw [childItems, CJson.children, List.map_map]
    exact List.map_id items
  have hcount : getArraySize (.array items) = Int32.ofNat items.length := by
    rw [getArraySize, ← List.length_map (·.2)]
    exact congrArg (fun l ↦ Int32.ofNat l.length) hitems
  have htoInt : (Int32.ofNat items.length).toInt = items.length :=
    Int32.toInt_ofNat_of_lt (by simp only [intMax] at hlen; omega)
  rcases Nat.eq_zero_or_pos items.length with hzero | hpos
  · obtain rfl := List.length_eq_zero_iff.mp hzero
    cases h
    rfl
  · have hgt : ¬ getArraySize (.array items) ≤ 0 := by
      rw [hcount, Int32.le_iff_toInt_le, htoInt, Int32.toInt_zero]
      omega
    have hnat : (Int32.ofNat items.length).toNatClampNeg = items.length := by
      rw [Int32.toNatClampNeg, htoInt, Int.toNat_natCast]
    rw [jsonDataToStructData_pos hgt, hitems, hcount, hnat,
      jsonItemsToStruct_of_decodesAs contents h (by omega)]
    rfl

end Lists

/-- An entry that the codec keeps: a canonical one, or a real number as the decoder writes it. -/
def SettledData (d : LedaDeviceData) : Prop := CanonicalData d ∨ RealData d

theorem canonicalData_of_same {d : LedaDeviceData} {item : CJson} (h : SameProperty d item) :
    CanonicalData d := by
  obtain ⟨t, value, ht, hvalue, -⟩ := h
  refine ⟨t, ht, ?_⟩
  generalize d.value.str = s at hvalue
  cases hvalue with
  | integer hty n => rcases hty with rfl | rfl | rfl <;> exact ⟨n, rfl⟩
  | string hty s => rcases hty with rfl | rfl <;> trivial
  | tree hty hv hn => rcases hty with rfl | rfl <;> exact ⟨value, hv, hn, rfl⟩

/-- Decoding undoes encoding on every list of settled entries, and the decoder makes nothing
else of canonical items and real numbers: what a device received with six digits it can report
and receive again unchanged, any number of times. -/
theorem codec_settles (gLogLvl : Int32) (contents : Nat → LedaDeviceData) :
    (∀ data : List LedaDeviceData, data.length ≤ intMax.toNat → (∀ d ∈ data, SettledData d) →
      ∃ json, structDataToJsonData gLogLvl data = some (some json) ∧
        jsonDataToStructData gLogLvl contents json =
          some ⟨leSuccess, data, Int32.ofNat data.length⟩) ∧
    (∀ items : List CJson, items.length ≤ intMax.toNat →
      (∀ item ∈ items, CanonicalItem item ∨ RealItem item) →
      ∃ data, jsonDataToStructData gLogLvl contents (.array items) =
          some ⟨leSuccess, data, Int32.ofNat items.length⟩ ∧ ∀ d ∈ data, SettledData d) := by
  constructor
  · intro data hlen hsettled
    obtain ⟨items, hkept⟩ := forall₂_of_forall_exists (R := Kept gLogLvl) fun d hd ↦
      (hsettled d hd).elim (exists_kept_of_canonical gLogLvl) (exists_kept_of_real gLogLvl)
    have heq : data.length = items.length := hkept.length_eq
    refine ⟨.array items, structDataToJsonData_eq_some_iff.mpr
      ⟨items, rfl, hkept.imp fun _ _ h ↦ h.1⟩, ?_⟩
    rw [heq]
    exact jsonDataToStructData_of_decodesAs contents (hkept.imp fun _ _ h ↦ h.2) (by omega)
  · intro items hlen hitems
    have hdecodes : ∀ item ∈ items, ∃ d, DecodesAs gLogLvl d item ∧ SettledData d := by
      intro item hitem
      rcases hitems item hitem with h | h
      · obtain ⟨d, hsame⟩ := exists_data_of_canonical h
        exact ⟨d, jsonItemToStruct_of_same gLogLvl hsame, .inl (canonicalData_of_same hsame)⟩
      · obtain ⟨d, hreal, hd⟩ := exists_real_of_item gLogLvl h
        exact ⟨d, hd, .inr hreal⟩
    obtain ⟨data, hdata⟩ := forall₂_of_forall_exists
      (R := fun item d ↦ DecodesAs gLogLvl d item ∧ SettledData d) hdecodes
    refine ⟨data, jsonDataToStructData_of_decodesAs contents
      (hdata.flip.imp fun _ _ h ↦ h.1) hlen, ?_⟩
    intro d hd
    obtain ⟨item, h⟩ := forall_exists_of_forall₂ hdata.flip d hd
    exact h.2

/-- The number `2 ^ -7`, whose text ends before its last digit. -/
def oneOver128 : Magnitude where
  units := 1 * 2 ^ (fractionBits - 7)
  finite := by
    rw [Nat.one_mul]
    exact Nat.pow_lt_pow_right (by decide) (by unfold fractionBits magnitudeBits; omega)
  precise := Precise.mul_two_pow (by decide)

/-- An entry with the text of that number. -/
def realSample : LedaDeviceData :=
  ⟨LedaDataType.double.toInt32, .snprintf 64 (.lit "t"),
    ⟨.ofBuffer (lfText (.finite true oneOver128)), lfText_fits true oneOver128⟩⟩

theorem codec_settles_sample :
    ∃ json data, structDataToJsonData 1 [realSample] = some (some json) ∧
      jsonDataToStructData 1 (fun _ ↦ ⟨77, ⟨.lit "x", by decide⟩, ⟨.lit "x", by decide⟩⟩) json =
        some ⟨leSuccess, [realSample], 1⟩ ∧
      jsonDataToStructData 1 (fun _ ↦ ⟨77, ⟨.lit "x", by decide⟩, ⟨.lit "x", by decide⟩⟩)
          (.array [propertyItem (.lit "t") .float (.number (.finite false oneOver128))]) =
        some ⟨leSuccess, data, 1⟩ ∧ ∀ d ∈ data, SettledData d := by
  obtain ⟨hdata, hitems⟩ :=
    codec_settles 1 (fun _ ↦ ⟨77, ⟨.lit "x", by decide⟩, ⟨.lit "x", by decide⟩⟩)
  have hsample : ∀ d ∈ [realSample], SettledData d := by
    intro d hd
    obtain rfl := List.mem_singleton.mp hd
    exact .inr ⟨.double, true, oneOver128, .inr rfl, rfl,
      CStr.ofBuffer_of_noNul (lfText_noNul true oneOver128)⟩
  obtain ⟨json, hencode, hdecode⟩ := hdata [realSample] (by decide) hsample
  obtain ⟨data, hread, hsettled⟩ := hitems
    [propertyItem (.lit "t") .float (.number (.finite false oneOver128))] (by
      rw [List.length_singleton]
      decide) (by
      intro item hitem
      obtain rfl := List.mem_singleton.mp hitem
      exact .inr ⟨_, _, _, _, .inl rfl, rfl⟩)
  exact ⟨json, data, hencode, hdecode, hread, hsettled⟩

end LedaSdk.Leda
