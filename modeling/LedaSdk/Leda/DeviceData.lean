import LedaSdk.ErrorCode
import LedaSdk.Json.Parse
import LedaSdk.Json.Print

/-!
# The thing-model codec

`sdk/leda.c:114–341` and `sdk/export/include/leda.h:28–72`: device data, the table of type
names and the two functions that convert between device data and JSON. A result of `none`
is undefined behaviour of C, after which nothing is known.
-/

namespace LedaSdk.Leda
open LedaSdk.Base LedaSdk.Json

/-- `leda_data_type_e`, `leda.h:52–65`, without `LEDA_TYPE_BUTT`. -/
inductive LedaDataType where
  | int
  | bool
  | float
  | text
  | date
  | enum
  | struct
  | array
  | double
  deriving DecidableEq, Repr

/-- The value of an enumerator. -/
def LedaDataType.toInt32 : LedaDataType → Int32
  | .int => 0
  | .bool => 1
  | .float => 2
  | .text => 3
  | .date => 4
  | .enum => 5
  | .struct => 6
  | .array => 7
  | .double => 8

/-- The enumerators that the switches over a type name. -/
def LedaDataType.all : List LedaDataType :=
  [.int, .bool, .float, .text, .date, .enum, .struct, .array, .double]

/-- The enumerator with a value; other values go to the default branches. -/
def LedaDataType.ofInt32? (type : Int32) : Option LedaDataType :=
  LedaDataType.all.find? fun t ↦ t.toInt32 = type

/-- `LEDA_TYPE_BUTT`. -/
def ledaTypeButt : Int32 := 9

instance neZeroKey : NeZero (64 : Nat) := ⟨by decide⟩

instance neZeroValue : NeZero (2048 : Nat) := ⟨by decide⟩

/-- `leda_device_data_t`, `leda.h:67–72`; the field `type` may hold any `int`. -/
structure LedaDeviceData where
  type : Int32
  key : CharBuf 64
  value : CharBuf 2048
  deriving DecidableEq

/-- `g_type_map`, `leda.c:114–126`. -/
def gTypeMap : LedaDataType → CStr
  | .int => .lit "int"
  | .bool => .lit "bool"
  | .float => .lit "float"
  | .text => .lit "text"
  | .date => .lit "date"
  | .enum => .lit "enum"
  | .struct => .lit "struct"
  | .array => .lit "array"
  | .double => .lit "double"

/-- `type_number_to_string`, `leda.c:128–137`. -/
def typeNumberToString (type : Int32) : CStr :=
  match LedaDataType.ofInt32? type with
  | none => .lit "invalid"
  | some t => gTypeMap t

/-- `type_string_to_number`, `leda.c:139–181`. -/
def typeStringToNumber (type : CStr) : Int32 :=
  if type = .lit "int" then LedaDataType.int.toInt32
  else if type = .lit "bool" then LedaDataType.bool.toInt32
  else if type = .lit "float" then LedaDataType.float.toInt32
  else if type = .lit "text" then LedaDataType.text.toInt32
  else if type = .lit "date" then LedaDataType.date.toInt32
  else if type = .lit "enum" then LedaDataType.enum.toInt32
  else if type = .lit "struct" then LedaDataType.struct.toInt32
  else if type = .lit "array" then LedaDataType.array.toInt32
  else if type = .lit "double" then LedaDataType.double.toInt32
  else ledaTypeButt

/-- `LOG_LEVEL_WARN`, `log.h:16`. -/
def logLevelWarn : Int32 := 2

/-- The warnings at `leda.c:237` and `leda.c:332`, which print the number of a type with
`%s`: unless `log_print` (`log.c:43–70`) leaves them out, it reads a string from the address
with that number. -/
def warnInvalidType (gLogLvl : Int32) : Option Unit :=
  if logLevelWarn < gLogLvl then some () else none

/-- One round of the loop of `struct_data_to_json_data`, `leda.c:198–242`; `some none` is its
return of a null pointer. -/
def structItemToJson (gLogLvl : Int32) (data : LedaDeviceData) : Option (Option CJson) :=
  let item := addStringToObject [] (.lit "identifier") data.key.str
  let item := addStringToObject item (.lit "type") (typeNumberToString data.type)
  match LedaDataType.ofInt32? data.type with
  | some .int | some .bool | some .enum =>
    some (some (.object (addNumberToObject item (.lit "value") (.ofInt (atoi data.value.str).toInt))))
  | some .double | some .float =>
    some (some (.object (addNumberToObject item (.lit "value") (atof data.value.str))))
  | some .date | some .text =>
    some (some (.object (addStringToObject item (.lit "value") data.value.str)))
  | some .array | some .struct =>
    match parse data.value.str with
    | none => some none
    | some subItem => some (some (.object (addItemToObject item (.lit "value") (some subItem))))
  | none => do
    warnInvalidType gLogLvl
    some (some (.object (addStringToObject item (.lit "value") (.lit "invalid"))))

/-- The loop of `struct_data_to_json_data`, `leda.c:198–243`. -/
def structItemsToJson (gLogLvl : Int32) : List LedaDeviceData → Option (Option (List CJson))
  | [] => some (some [])
  | data :: rest => do
    match ← structItemToJson gLogLvl data with
    | none => some none
    | some item => return (← structItemsToJson gLogLvl rest).map (item :: ·)

/-- `struct_data_to_json_data`, `leda.c:183–246`, on the first `data_cnt` entries of the
array; `some none` is a null pointer. -/
def structDataToJsonData (gLogLvl : Int32) (structData : List LedaDeviceData) :
    Option (Option CJson) :=
  (structItemsToJson gLogLvl structData).map (Option.map .array)

/-- What `%s` prints; a null pointer as `(null)`. -/
def printedString (s : Option CStr) : CStr := s.getD (.lit "(null)")

/-- The `switch` of `json_data_to_struct_data`, `leda.c:304–334`: the value of an entry whose
type is set, or an error code. -/
def writeValue (gLogLvl : Int32) (data : LedaDeviceData) (subItem : CJson) :
    Option (Except Int32 LedaDeviceData) :=
  match LedaDataType.ofInt32? data.type with
  | some .int | some .bool | some .enum =>
    some (.ok { data with value := .snprintf 2048 (intStr subItem.valueint.toInt) })
  | some .float | some .double =>
    some (.ok { data with value := .snprintf 2048 (.ofBuffer (lfText subItem.valuedouble)) })
  | some .text | some .date =>
    some (.ok { data with value := .snprintf 2048 (printedString subItem.valuestring) })
  | some .struct | some .array =>
    match printUnformatted (some subItem) with
    | none => some (.error leErrorAllocatingMem)
    | some buff => some (.ok { data with value := .snprintf 2048 buff })
  | none => do
    warnInvalidType gLogLvl
    some (.ok data)

/-- One round of the loop of `json_data_to_struct_data`, `leda.c:273–336`. The entry is what
the array holds at the index, `none` beyond its end. -/
def jsonItemToStruct (gLogLvl : Int32) (entry : Option LedaDeviceData) (item : CJson) :
    Option (Except Int32 LedaDeviceData) :=
  match item with
  | .string s => do
    let data ← entry
    some (.ok { data with key := .snprintf 64 s })
  | item =>
    match getObjectItem (some item) (.lit "identifier") with
    | none => some (.error leErrorInvaildParam)
    | some subItem => do
      let data ← entry
      let data := { data with key := .snprintf 64 (printedString subItem.valuestring) }
      match getObjectItem (some item) (.lit "type") with
      | some (.string type) =>
        let data := { data with type := typeStringToNumber type }
        match getObjectItem (some item) (.lit "value") with
        | none => some (.error leErrorInvaildParam)
        | some subItem => writeValue gLogLvl data subItem
      | _ => some (.error leErrorInvaildParam)

/-- The loop of `json_data_to_struct_data`, `leda.c:273–337`, from index `i` of an array of
`size` entries. -/
def jsonItemsToStruct (gLogLvl : Int32) (contents : Nat → LedaDeviceData) (size : Nat) :
    Nat → List CJson → Option (Except Int32 (List LedaDeviceData))
  | _, [] => some (.ok [])
  | i, item :: items => do
    match ← jsonItemToStruct gLogLvl (if i < size then some (contents i) else none) item with
    | .error code => some (.error code)
    | .ok data =>
      match ← jsonItemsToStruct gLogLvl contents size (i + 1) items with
      | .error code => some (.error code)
      | .ok rest => some (.ok (data :: rest))

/-- What `json_data_to_struct_data` returns and writes through its pointers. -/
structure DecodedData where
  ret : Int32
  structData : List LedaDeviceData
  dataCnt : Int32
  deriving DecidableEq

/-- `json_data_to_struct_data`, `leda.c:248–341`, with what the allocated array holds before
it is written. -/
def jsonDataToStructData (gLogLvl : Int32) (contents : Nat → LedaDeviceData) (jsonData : CJson) :
    Option DecodedData :=
  let size := getArraySize jsonData
  if size ≤ 0 then some ⟨leSuccess, [], 0⟩
  else do
    match ← jsonItemsToStruct gLogLvl contents size.toNatClampNeg 0
      (jsonData.children.map (·.2)) with
    | .error code => some ⟨code, [], size⟩
    | .ok data => some ⟨leSuccess, data, size⟩

end LedaSdk.Leda
