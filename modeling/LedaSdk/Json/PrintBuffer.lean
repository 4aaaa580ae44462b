import LedaSdk.Base.Cursor
import LedaSdk.Base.Procedure
import LedaSdk.Json.Print

/-!
# Printing JSON into a buffer

`sdk/utility/json/cJSON.c:359–534,826–952,1087–1209,1266–1338,1434–1494,1605–1717`: the
functions that print a tree, with the buffer they write to. Sizes stay below `INT_MAX`
and do not wrap.
-/

namespace LedaSdk.Json
open LedaSdk.Base

/-- The members of `printbuffer` that change, `cJSON.c:359–368`; `none` is a null pointer. -/
structure PrintBuffer where
  buffer : Option (List UInt8)
  length : Nat
  offset : Nat
  depth : Nat

/-- `internal_hooks`, `cJSON.c:120–125`: whether there is a function `reallocate`, and what
the allocator gives first, when a buffer grows to a size, and last, with what it left in the
bytes. A buffer is only made larger, so that no size occurs twice. -/
structure PrintHooks where
  reallocate : Bool
  first : Option (Nat → UInt8)
  growth : Nat → Option (Nat → UInt8)
  last : Option (Nat → UInt8)

/-- The other members of `printbuffer`. -/
structure PrintSettings where
  noalloc : Bool
  format : Bool
  hooks : PrintHooks

/-- A function that prints. -/
abbrev Printer := Procedure PrintBuffer Unit

namespace PrintBuffer

/-- `offset += n`. -/
def advance (n : Nat) (p : PrintBuffer) : PrintBuffer := { p with offset := p.offset + n }

/-- `depth++`. -/
def deeper (p : PrintBuffer) : PrintBuffer := { p with depth := p.depth + 1 }

/-- `depth--`. -/
def shallower (p : PrintBuffer) : PrintBuffer := { p with depth := p.depth - 1 }

/-- Write bytes, the first of them at the offset `off`. -/
def store (off : Nat) (bytes : List UInt8) (p : PrintBuffer) : Option PrintBuffer :=
  p.buffer.bind fun b ↦ (Block.memcpy b off bytes).map fun b' ↦ { p with buffer := some b' }

/-- The size that a buffer is given when `needed` bytes are needed, `cJSON.c:403–419`. -/
def newSize (needed : Nat) : Option Nat :=
  if intMax.toNat / 2 < needed then
    if needed ≤ intMax.toNat then some intMax.toNat else none
  else some (needed * 2)

/-- The end of `ensure`, `cJSON.c:421–457`: a buffer of `newsize` bytes. -/
def reallocate (S : PrintSettings) (b : List UInt8) (newsize : Nat) : Printer := fun p ↦
  match S.hooks.growth newsize with
  | none => some (none, { p with buffer := none, length := 0 })
  | some content =>
    if S.hooks.reallocate then
      some (some (), { p with buffer := some (Block.realloc b newsize content), length := newsize })
    else do
      let bytes ← Block.read b 0 (p.offset + 1)
      let newbuffer ← Block.memcpy (Block.fresh newsize content) 0 bytes
      some (some (), { p with buffer := some newbuffer, length := newsize })

/-- `ensure`, `cJSON.c:373–458`; its pointer is the one at the offset. -/
def ensure (S : PrintSettings) (needed : Nat) : Printer := fun p ↦
  match p.buffer with
  | none => some (none, p)
  | some b =>
    if 0 < p.length ∧ p.length ≤ p.offset then some (none, p)
    else if intMax.toNat < needed then some (none, p)
    else if needed + p.offset + 1 ≤ p.length then some (some (), p)
    else if S.noalloc then some (none, p)
    else
      match newSize (needed + p.offset + 1) with
      | none => some (none, p)
      | some newsize => reallocate S b newsize p

/-- `update_offset`, `cJSON.c:460–471`. -/
def updateOffset : Printer := Procedure.access fun p ↦
  match p.buffer with
  | none => some p
  | some b => (Block.strlen b p.offset).map fun n ↦ p.advance n

/-- Write bytes at the offset, which `ensure` has returned a pointer to. -/
def put (bytes : List UInt8) : Printer := Procedure.access fun p ↦ p.store p.offset bytes

/-- Ask for `needed` bytes and write some there. -/
def emit (S : PrintSettings) (needed : Nat) (bytes : List UInt8) : Printer := do
  ensure S needed
  put bytes

section Scalars
variable (S : PrintSettings)

/-- `print_number`, `cJSON.c:474–537`. -/
def printNumber (d : Binary64) : Printer :=
  if 25 < (numberText d).length then Procedure.fail
  else do
    emit S ((numberText d).length + 1) (numberText d ++ [0])
    Procedure.update (advance (numberText d).length)

/-- The characters that the escape sequence of a character needs besides it,
`cJSON.c:853–873`. -/
def escapeCharacters (c : UInt8) : Nat :=
  if c = ascii '"' ∨ c = ascii '\\' ∨ c = 8 ∨ c = 12 ∨ c = 10 ∨ c = 13 ∨ c = 9 then 1
  else if c < 32 then 5
  else 0

/-- The same for all characters of a string. -/
def countEscapes : List UInt8 → Nat
  | [] => 0
  | c :: s => escapeCharacters c + countEscapes s

/-- The loop that copies a string with its escape sequences, `cJSON.c:896–941`, from the
position `position` of the buffer on. -/
def writeEscaped : List UInt8 → (position : Nat) → PrintBuffer → Option PrintBuffer
  | [], _, p => some p
  | c :: s, position, p =>
    if 31 < c ∧ c ≠ ascii '"' ∧ c ≠ ascii '\\' then
      (p.store position [c]).bind (writeEscaped s (position + 1))
    else do
      let p ← p.store position [ascii '\\']
      if escapeCharacters c = 1 then
        let p ← p.store (position + 1) (escapeByte c).tail
        writeEscaped s (position + 2) p
      else
        -- `sprintf` terminates what it writes.
        let p ← p.store (position + 1) ((escapeByte c).tail ++ [0])
        writeEscaped s (position + 6) p

/-- The writes of `print_string_ptr`, `cJSON.c:883–946`. -/
def storeString (s : List UInt8) (p : PrintBuffer) : Option PrintBuffer :=
  let outputLength := s.length + countEscapes s
  if countEscapes s = 0 then p.store p.offset (ascii '"' :: s ++ [ascii '"', 0])
  else do
    let p ← p.store p.offset [ascii '"']
    let p ← writeEscaped s (p.offset + 1) p
    p.store (p.offset + outputLength + 1) [ascii '"', 0]

/-- `print_string_ptr`, `cJSON.c:827–946`; the string is not null. -/
def printStringPtr (input : CStr) : Printer := do
  ensure S (input.bytes.length + countEscapes input.bytes + 3)
  Procedure.access (storeString input.bytes)

end Scalars

/-- Tabulators in formatted output. -/
def tabs (n : Nat) : List UInt8 := List.replicate n 9

section Punctuation
variable (format : Bool)

/-- The beginning of an object. -/
def openBrace : List UInt8 := if format then [ascii '{', 10] else [ascii '{']

/-- What separates a name from the value. -/
def colon : List UInt8 := if format then [ascii ':', 9] else [ascii ':']

/-- What separates two elements of an array. -/
def comma : List UInt8 := if format then [ascii ',', ascii ' '] else [ascii ',']

/-- What follows a member of an object. -/
def ending (last : Bool) : List UInt8 :=
  (if last then [] else [ascii ',']) ++ if format then [10] else []

/-- The end of an object, after which the depth is `depth`. -/
def closeBrace (depth : Nat) : List UInt8 := (if format then tabs depth else []) ++ [ascii '}']

end Punctuation

section Trees
variable (S : PrintSettings)

/-- Write a text that is not terminated and step behind it. -/
def append (needed : Nat) (bytes : List UInt8) : Printer := do
  emit S needed bytes
  Procedure.update (advance bytes.length)

/-- The same of a text with its terminator. -/
def appendString (bytes : List UInt8) : Printer := do
  emit S (bytes.length + 1) (bytes ++ [0])
  Procedure.update (advance bytes.length)

/-- The tabulators before a member, `cJSON.c:1637–1650`. -/
def indent : Printer := fun p ↦
  if S.format then append S p.depth (tabs p.depth) p else some (some (), p)

/-- The end of `print_object`, `cJSON.c:1694–1714`. -/
def endObject : Printer := fun p ↦
  emit S (if S.format then p.depth + 1 else 2) (closeBrace S.format (p.depth - 1) ++ [0]) p

mutual

/-- `print_value`, `cJSON.c:1267–1338`, for trees without raw nodes. -/
def printValue : CJson → Printer
  | .null => emit S 5 (text "null" ++ [0])
  | .bool false => emit S 6 (text "false" ++ [0])
  | .bool true => emit S 5 (text "true" ++ [0])
  | .number d => printNumber S d
  | .string s => printStringPtr S s
  -- `print_array`, `cJSON.c:1435–1494`.
  | .array xs => do
    append S 1 [ascii '[']
    Procedure.update deeper
    printElements xs
    emit S 2 [ascii ']', 0]
    Procedure.update shallower
  -- `print_object`, `cJSON.c:1606–1717`.
  | .object ms => do
    append S ((openBrace S.format).length + 1) (openBrace S.format)
    Procedure.update deeper
    printMembers ms
    endObject S
    Procedure.update shallower

/-- The loop of `print_array`, `cJSON.c:1459–1480`. -/
def printElements : List CJson → Printer
  | [] => pure ()
  | x :: xs => do
    printValue x
    updateOffset
    if xs = [] then pure ()
    else
      appendString S (comma S.format)
      printElements xs

/-- The loop of `print_object`, `cJSON.c:1635–1692`. -/
def printMembers : Members → Printer
  | [] => pure ()
  | (name, item) :: ms => do
    indent S
    printStringPtr S name
    updateOffset
    append S (colon S.format).length (colon S.format)
    printValue item
    updateOffset
    appendString S (ending S.format ms.isEmpty)
    printMembers ms

end

end Trees

/-- `print`, `cJSON.c:1087–1145`: the block that is returned, `none` for a null pointer. -/
def print (item : CJson) (format : Bool) (hooks : PrintHooks) : Option (Option (List UInt8)) :=
  match hooks.first with
  | none => some none
  | some content => do
    let printing := do printValue ⟨false, format, hooks⟩ item; updateOffset
    let (printed, p) ← printing ⟨some (Block.fresh 256 content), 256, 0, 0⟩
    match printed, hooks.last with
    | none, _ => some none
    | _, none => some none
    | some (), some content =>
      -- `realloc` of a null pointer allocates.
      let buffer := p.buffer.getD []
      if hooks.reallocate then some (some (Block.realloc buffer (p.offset + 1) content))
      else do
        let json ← Block.read buffer 0 (min p.length (p.offset + 1))
        let printed ← Block.memcpy (Block.fresh (p.offset + 1) content) 0 json
        let printed ← Block.memcpy printed p.offset [0]
        some (some printed)

/-- `cJSON_PrintBuffered`, `cJSON.c:1162–1190`: the block that is returned, `none` for a null
pointer. -/
def printBuffered (item : CJson) (prebuffer : Int32) (fmt : Bool) (hooks : PrintHooks) :
    Option (Option (List UInt8)) :=
  if prebuffer < 0 then some none
  else
    match hooks.first with
    | none => some none
    | some content => do
      let size := prebuffer.toNatClampNeg
      let (printed, p) ← printValue ⟨false, fmt, hooks⟩ item
        ⟨some (Block.fresh size content), size, 0, 0⟩
      match printed with
      | none => some none
      | some () => some p.buffer

/-- `cJSON_PrintPreallocated`, `cJSON.c:1192–1209`, with the `len` bytes at `buf`, `none` for a
null pointer: whether the tree was printed, and the bytes afterwards. -/
def printPreallocated (item : CJson) (buf : Option (List UInt8)) (len : Int32) (fmt : Bool)
    (hooks : PrintHooks) : Option (Bool × Option (List UInt8)) :=
  if len < 0 ∨ buf = none then some (false, buf)
  else do
    let (printed, p) ← printValue ⟨true, fmt, hooks⟩ item ⟨buf, len.toNatClampNeg, 0, 0⟩
    some (printed.isSome, p.buffer)

end PrintBuffer

end LedaSdk.Json
