import LedaSdk.Base.Cursor
import LedaSdk.Base.Procedure
import LedaSdk.Json.Parse

/-!
# Parsing JSON in a buffer

`sdk/utility/json/cJSON.c:247–340,539–824,962–1085,1211–1265,1340–1432,1496–1603`: the
functions of the parser with the buffer that they read by offsets and the memory that
`parse_string` writes. The buffer is the string with its NUL. Allocation succeeds; `fresh` is
what the allocator leaves in a new block. A read outside the buffer or a write outside a
block has no result, and neither has a loop that runs out of `fuel`.
-/

namespace LedaSdk.Json
open LedaSdk.Base

/-- The members of `parse_buffer` that change, `cJSON.c:249–256`. -/
structure ParseBuffer where
  offset : Nat
  depth : Nat

/-- A function that parses. -/
abbrev Parser := Procedure ParseBuffer

namespace ParseBuffer

/-- `offset += n`. -/
def advance (n : Nat) (p : ParseBuffer) : ParseBuffer := { p with offset := p.offset + n }

/-- `offset--`. -/
def retreat (p : ParseBuffer) : ParseBuffer := { p with offset := p.offset - 1 }

section Content
variable (content : List UInt8)

/-- `buffer_skip_whitespace`, `cJSON.c:963–981`. -/
def skipWhitespace (p : ParseBuffer) : ParseBuffer :=
  let offset := p.offset + ((content.drop p.offset).takeWhile (· ≤ 32)).length
  { p with offset := if offset = content.length then offset - 1 else offset }

/-- `skip_utf8_bom`, `cJSON.c:984–997`, at the beginning of the buffer. -/
def skipUtf8Bom (p : ParseBuffer) : ParseBuffer :=
  if p.offset + 4 < content.length ∧ (content.drop p.offset).take 3 = [0xEF, 0xBB, 0xBF] then
    p.advance 3
  else p

/-- `can_read` and `strncmp` of a word. -/
def AtWord (word : List UInt8) (p : ParseBuffer) : Prop :=
  p.offset + word.length ≤ content.length ∧ (content.drop p.offset).take word.length = word

instance (word : List UInt8) (p : ParseBuffer) : Decidable (AtWord content word p) :=
  inferInstanceAs (Decidable (_ ∧ _))

/-- `can_access_at_index` of the character at the offset and a comparison with it. -/
def AtChar (c : UInt8) (p : ParseBuffer) : Prop := content[p.offset]? = some c

instance (c : UInt8) (p : ParseBuffer) : Decidable (AtChar content c p) :=
  inferInstanceAs (Decidable (_ = _))

/-- `parse_number`, `cJSON.c:266–340`, with its buffer of 64 bytes. -/
def parseNumber : Parser CJson := fun p ↦
  let numberCString := ((content.drop p.offset).take 63).takeWhile numeralChar
  match strtod numberCString with
  | none => some (none, p)
  | some (number, afterEnd) =>
    some (some (.number number), p.advance (numberCString.length - afterEnd.length))

/-- `parse_hex4`, `cJSON.c:540–573`, of the characters from `i` on. -/
def parseHex4At (i : Nat) : Option Nat := do
  let a ← content[i]?
  let b ← content[i + 1]?
  let c ← content[i + 2]?
  let d ← content[i + 3]?
  some (parseHex4 a b c d)

/-- `utf16_literal_to_utf8`, `cJSON.c:577–695`: the length of the sequence at `input` and what
is written for it, or a failure. -/
def utf16LiteralToUtf8 (input inputEnd : Nat) : Option (Option (Nat × List UInt8)) :=
  if inputEnd - input < 6 then some none
  else do
    let firstCode ← parseHex4At content (input + 2)
    if 0xDC00 ≤ firstCode ∧ firstCode ≤ 0xDFFF then some none
    else if 0xD800 ≤ firstCode ∧ firstCode ≤ 0xDBFF then
      if inputEnd - (input + 6) < 6 then some none
      else do
        let b ← content[input + 6]?
        let u ← content[input + 7]?
        if b ≠ ascii '\\' ∨ u ≠ ascii 'u' then some none
        else do
          let secondCode ← parseHex4At content (input + 8)
          if secondCode < 0xDC00 ∨ 0xDFFF < secondCode then some none
          else
            let codepoint := 0x10000 + firstCode % 0x400 * 0x400 + secondCode % 0x400
            some (some (12, utf8Bytes codepoint))
    else some (some (6, utf8Bytes firstCode))

/-- The search of `parse_string` for the closing quotation mark, `cJSON.c:711–729`: its position
and the number of characters that are skipped, or a failure. -/
def findEnd : (fuel inputEnd skipped : Nat) → Option (Option (Nat × Nat))
  | 0, _, _ => none
  | fuel + 1, inputEnd, skipped =>
    match content[inputEnd]? with
    | none => some none
    | some c =>
      if c = ascii '"' then some (some (inputEnd, skipped))
      else if c = ascii '\\' then
        if content.length ≤ inputEnd + 1 then some none
        else findEnd fuel (inputEnd + 2) (skipped + 1)
      else findEnd fuel (inputEnd + 1) skipped

/-- The loop of `parse_string`, `cJSON.c:742–798`, from `input` on, which writes to `output` from
`written` on: the output with its length, or where the loop failed. -/
def unescapeLoop (inputEnd : Nat) :
    (fuel input : Nat) → (output : List UInt8) → (written : Nat) →
      Option (Except Nat (List UInt8 × Nat))
  | 0, _, _, _ => none
  | fuel + 1, input, output, written =>
    if input < inputEnd then do
      let c ← content[input]?
      if c ≠ ascii '\\' then do
        let output ← Block.memcpy output written [c]
        unescapeLoop inputEnd fuel (input + 1) output (written + 1)
      else do
        -- The test for the end at line 756 cannot fail.
        let e ← content[input + 1]?
        if e ≠ ascii 'u' then
          match unescapeChar e with
          | none => some (.error input)
          | some b => do
            let output ← Block.memcpy output written [b]
            unescapeLoop inputEnd fuel (input + 2) output (written + 1)
        else do
          match ← utf16LiteralToUtf8 content input inputEnd with
          | none => some (.error input)
          | some (sequenceLength, bytes) => do
            let output ← Block.memcpy output written bytes
            unescapeLoop inputEnd fuel (input + sequenceLength) output (written + bytes.length)
    else some (.ok (output, written))

/-- `parse_string`, `cJSON.c:698–824`: the string that is read. -/
def parseString (fresh : Nat → UInt8) : Parser CStr := fun p ↦ do
  let start := p.offset + 1
  let first ← content[p.offset]?
  if first ≠ ascii '"' then some (none, { p with offset := start })
  else do
    match ← findEnd content content.length start 0 with
    | none => some (none, { p with offset := start })
    | some (inputEnd, skipped) => do
      let allocationLength := inputEnd - p.offset - skipped
      let output := Block.fresh (allocationLength + 1) fresh
      match ← unescapeLoop content inputEnd content.length start output 0 with
      | .error input => some (none, { p with offset := input })
      | .ok (output, written) => do
        let output ← Block.memcpy output written [0]
        some (some (.ofBuffer output), { p with offset := inputEnd + 1 })

section Lists
variable (fresh : Nat → UInt8) (value : Parser CJson)

/-- The loop of `parse_array`, `cJSON.c:1375–1409`, and the test of its last character. -/
def parseElements : (fuel : Nat) → Parser (List CJson)
  | 0 => fun _ ↦ none
  | fuel + 1 => do
    Procedure.update (advance 1)
    Procedure.update (skipWhitespace content)
    let item ← value
    Procedure.update (skipWhitespace content)
    fun p ↦
      if AtChar content (ascii ',') p then (do
        let items ← parseElements fuel
        pure (item :: items) : Parser (List CJson)) p
      else if AtChar content (ascii ']') p then some (some [item], p)
      else some (none, p)

/-- `parse_array`, `cJSON.c:1341–1432`. -/
def parseArray : Parser CJson := fun p ↦
  if nestingLimit ≤ p.depth then some (none, p)
  else do
    let p := { p with depth := p.depth + 1 }
    let first ← content[p.offset]?
    if first ≠ ascii '[' then some (none, p)
    else
      let p := skipWhitespace content (p.advance 1)
      if AtChar content (ascii ']') p then
        some (some (.array []), { p with offset := p.offset + 1, depth := p.depth - 1 })
      else if content.length ≤ p.offset then some (none, p.retreat)
      else (do
        let items ← parseElements content value content.length
        Procedure.update fun p ↦ { p with offset := p.offset + 1, depth := p.depth - 1 }
        pure (.array items) : Parser CJson) p.retreat

/-- The loop of `parse_object`, `cJSON.c:1531–1579`, and the test of its last character. -/
def parseMembers : (fuel : Nat) → Parser Members
  | 0 => fun _ ↦ none
  | fuel + 1 => do
    Procedure.update (advance 1)
    Procedure.update (skipWhitespace content)
    let name ← parseString content fresh
    Procedure.update (skipWhitespace content)
    (fun p ↦ if AtChar content (ascii ':') p then some (some (), p)
      else some (none, p) : Parser Unit)
    Procedure.update (advance 1)
    Procedure.update (skipWhitespace content)
    let item ← value
    Procedure.update (skipWhitespace content)
    fun p ↦
      if AtChar content (ascii ',') p then (do
        let members ← parseMembers fuel
        pure ((name, item) :: members) : Parser Members) p
      else if AtChar content (ascii '}') p then some (some [(name, item)], p)
      else some (none, p)

/-- `parse_object`, `cJSON.c:1497–1603`. -/
def parseObject : Parser CJson := fun p ↦
  if nestingLimit ≤ p.depth then some (none, p)
  else
    let p := { p with depth := p.depth + 1 }
    if ¬AtChar content (ascii '{') p then some (none, p)
    else
      let p := skipWhitespace content (p.advance 1)
      if AtChar content (ascii '}') p then
        some (some (.object []), { p with offset := p.offset + 1, depth := p.depth - 1 })
      else if content.length ≤ p.offset then some (none, p.retreat)
      else (do
        let members ← parseMembers content fresh value content.length
        Procedure.update fun p ↦ { p with offset := p.offset + 1, depth := p.depth - 1 }
        pure (.object members) : Parser CJson) p.retreat

end Lists

/-- `parse_value`, `cJSON.c:1212–1265`, in at most `levels` nested calls. -/
def parseValue (fresh : Nat → UInt8) : (levels : Nat) → Parser CJson
  | 0 => fun _ ↦ none
  | levels + 1 => fun p ↦
    if AtWord content (text "null") p then some (some .null, p.advance 4)
    else if AtWord content (text "false") p then some (some (.bool false), p.advance 5)
    else if AtWord content (text "true") p then some (some (.bool true), p.advance 4)
    else if AtChar content (ascii '"') p then
      (do let string ← parseString content fresh; pure (.string string) : Parser CJson) p
    else
      match content[p.offset]? with
      | none => some (none, p)
      | some c =>
        if c = ascii '-' ∨ (48 ≤ c ∧ c ≤ 57) then parseNumber content p
        else if c = ascii '[' then parseArray content (parseValue fresh levels) p
        else if c = ascii '{' then parseObject content fresh (parseValue fresh levels) p
        else some (none, p)

end Content

/-- `cJSON_ParseWithOpts`, `cJSON.c:1000–1077`, of a string that is not null: the tree, `none`
for a null pointer, and the position that `return_parse_end` is set to. -/
def parseWithOpts (fresh : Nat → UInt8) (value : CStr) (requireNullTerminated : Bool) :
    Option (Option CJson × Nat) :=
  let content := value.bytes ++ [0]
  let fail (p : ParseBuffer) : Option CJson × Nat :=
    (none, if p.offset < content.length then p.offset else content.length - 1)
  do
    let start := skipWhitespace content (skipUtf8Bom content ⟨0, 0⟩)
    let (item, p) ← parseValue content fresh (nestingLimit + 1) start
    match item with
    | none => some (fail p)
    | some item =>
      if requireNullTerminated then
        let p := skipWhitespace content p
        if AtChar content 0 p then some (some item, p.offset) else some (fail p)
      else some (some item, p.offset)

end ParseBuffer

end LedaSdk.Json
