import LedaSdk.Base.FloatText

/-!
# JSON trees

`sdk/utility/json/cJSON.c` and `cJSON.h`, version 1.7.7: the node type, the accessors and
the constructors that the SDK uses. Allocation succeeds. References, raw nodes and
constant names do not occur in the SDK's trees.
-/

namespace LedaSdk.Json
open LedaSdk.Base

/-- `cJSON`: the type of a node with the fields of that type. The name of a node is kept by
its parent; children of an array have none. -/
inductive CJson where
  | null
  | bool (b : Bool)
  | number (valuedouble : Binary64)
  | string (valuestring : CStr)
  | array (children : List CJson)
  | object (children : List (CStr × CJson))

/-- The children of an object under construction. -/
abbrev Members := List (CStr × CJson)

/-- `valueint` of a number, `cJSON.c:322–334` and `cJSON.c:2298–2310`; the conversion of a
NaN is undefined and its result is not read. -/
def saturate (number : Binary64) : Int32 :=
  if number.geInt intMax then Int32.ofInt intMax
  else if number.leInt intMin then Int32.ofInt intMin
  else Int32.ofInt number.trunc

namespace CJson

/-- The field `valueint`; `parse_value` sets it for `true`, `cJSON.c:1234–1241`. -/
def valueint : CJson → Int32
  | .number d => saturate d
  | .bool true => 1
  | _ => 0

/-- The field `valuedouble`. -/
def valuedouble : CJson → Binary64
  | .number d => d
  | _ => .ofInt 0

/-- The field `valuestring`, `none` for a null pointer. -/
def valuestring : CJson → Option CStr
  | .string s => some s
  | _ => none

/-- The list of children with the field `string` of each. -/
def children : CJson → List (Option CStr × CJson)
  | .array xs => xs.map fun x ↦ (none, x)
  | .object ms => ms.map fun (k, v) ↦ (some k, v)
  | _ => []

end CJson

/-- `case_insensitive_strcmp(a, b) == 0`, `cJSON.c:96–118`. -/
def caseInsensitiveEq (name : CStr) : Option CStr → Bool
  | none => false
  | some s => name.bytes.map toLower == s.bytes.map toLower

/-- `cJSON_GetObjectItem`, `cJSON.c:1772–1803`. -/
def getObjectItem (object : Option CJson) (name : CStr) : Option CJson :=
  object.bind fun item ↦ (item.children.find? fun c ↦ caseInsensitiveEq name c.1).map (·.2)

/-- `cJSON_GetArraySize`, `cJSON.c:1720–1742`: the number of children converted to `int`. -/
def getArraySize (array : CJson) : Int32 := Int32.ofNat array.children.length

/-- `cJSON_AddItemToObject`, `cJSON.c:1895–1935`; a null item is not added. -/
def addItemToObject (object : Members) (name : CStr) : Option CJson → Members
  | none => object
  | some item => object ++ [(name, item)]

/-- `cJSON_AddNumberToObject`, `cJSON.c:2011–2021`. -/
def addNumberToObject (object : Members) (name : CStr) (number : Binary64) : Members :=
  addItemToObject object name (some (.number number))

/-- `cJSON_AddStringToObject`, `cJSON.c:2023–2033`. -/
def addStringToObject (object : Members) (name string : CStr) : Members :=
  addItemToObject object name (some (.string string))

/-- Looking a name up in an object. -/
theorem getObjectItem_cons (k name : CStr) (v : CJson) (ms : Members) :
    getObjectItem (some (.object ((k, v) :: ms))) name =
      if caseInsensitiveEq name (some k) then some v
      else getObjectItem (some (.object ms)) name := by
  simp only [getObjectItem, CJson.children, List.map_cons, List.find?_cons, Option.bind_some]
  split <;> simp_all

section Saturation
variable {n : Int32}

theorem natAbs_toInt_le (n : Int32) : n.toInt.natAbs ≤ 2 ^ 53 := by
  have := n.le_toInt
  have := n.toInt_lt
  omega

/-- A value of type `int` keeps its value as a number. -/
theorem saturate_ofInt (n : Int32) : saturate (.ofInt n.toInt) = n := by
  have hbits := natAbs_toInt_le n
  have hlo := n.le_toInt
  have hhi := n.toInt_lt
  rw [saturate, Binary64.geInt_ofInt hbits, Binary64.leInt_ofInt hbits, Binary64.trunc_ofInt hbits]
  simp only [decide_eq_true_eq]
  split
  · next h =>
    rw [show intMax = n.toInt by simp only [intMax] at h ⊢; omega, Int32.ofInt_toInt]
  · split
    · next h =>
      rw [show intMin = n.toInt by simp only [intMin] at h ⊢; omega, Int32.ofInt_toInt]
    · exact Int32.ofInt_toInt n

/-- A number that equals a value of type `int` has it as its `valueint`. -/
theorem saturate_of_eq {d : Binary64} (h : d.eq (.ofInt n.toInt) = true) : saturate d = n := by
  have hcmp := Binary64.compare_of_eq h
  have htrunc : d.trunc = n.toInt := by
    rw [Binary64.ofInt_eq (natAbs_toInt_le n)] at h
    cases d with
    | nan | inf neg => cases h
    | finite neg m =>
      apply Binary64.trunc_of_signedUnits
      rw [← Binary64.signedUnits_ofNat (natAbs_toInt_le n)]
      exact beq_iff_eq.mp h
  rw [← saturate_ofInt n, saturate, saturate, (hcmp _).1, (hcmp _).2, htrunc,
    Binary64.trunc_ofInt (natAbs_toInt_le n)]

/-- Numbers that C compares equal have one `valueint`. -/
theorem saturate_congr {a b : Binary64} (h : a.eq b = true) : saturate a = saturate b := by
  have hcmp := Binary64.compare_of_eq h
  rw [saturate, saturate, (hcmp _).1, (hcmp _).2, Binary64.trunc_of_eq h]

/-- An integer above `INT_MAX` becomes `INT_MAX`. -/
theorem saturate_of_intMax_le {i : Int} (hi : intMax ≤ i) (hbits : i.natAbs ≤ 2 ^ 53) :
    saturate (.ofInt i) = 2147483647 := by
  rw [saturate, Binary64.geInt_ofInt hbits, decide_eq_true hi, if_pos rfl]
  rfl

end Saturation

end LedaSdk.Json
