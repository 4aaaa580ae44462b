import LedaSdk.Json.CJson

/-!
# Printing JSON

`sdk/utility/json/cJSON.c:349–534,826–952,1087–1145,1266–1338,1434–1494,1605–1717`:
`cJSON_PrintUnformatted`. The printer appends to a buffer that grows up to `INT_MAX`
bytes, and a value is printed exactly if its text leaves two bytes of that limit.
-/

namespace LedaSdk.Json
open LedaSdk.Base

/-- `ensure`, `cJSON.c:373–458`: whether `needed` bytes can be had at an offset of the
buffer. The buffer is never longer than `INT_MAX`, and growing it succeeds. -/
def ensure (offset needed : Nat) : Option Unit :=
  if needed ≤ intMax.toNat ∧ offset + needed + 1 ≤ intMax.toNat then some () else none

/-- The text of a number, `cJSON.c:489–505`: fifteen digits where they give the number
back, else seventeen. -/
def numberText (d : Binary64) : List UInt8 :=
  match d with
  | .finite neg m =>
    match strtod (gText 15 (.finite neg m)) with
    | some (test, _) =>
      if test.eq d then gText 15 (.finite neg m) else gText 17 (.finite neg m)
    | none => gText 17 (.finite neg m)
  | _ => text "null"

/-- `print_number`, `cJSON.c:474–537`, with its buffer of 26 bytes. -/
def printNumber (d : Binary64) (offset : Nat) : Option (List UInt8) :=
  if 25 < (numberText d).length then none
  else (ensure offset ((numberText d).length + 1)).map fun _ ↦ numberText d

/-- The character of a hexadecimal digit, as `%x` writes it. -/
def hexByte (d : Nat) : UInt8 := if d < 10 then 48 + d.toUInt8 else 87 + d.toUInt8

/-- A character of a string as it is printed, `cJSON.c:896–938`. -/
def escapeByte (c : UInt8) : List UInt8 :=
  if 31 < c ∧ c ≠ ascii '"' ∧ c ≠ ascii '\\' then [c]
  else ascii '\\' ::
    if c = ascii '\\' ∨ c = ascii '"' then [c]
    else if c = 8 then [ascii 'b']
    else if c = 12 then [ascii 'f']
    else if c = 10 then [ascii 'n']
    else if c = 13 then [ascii 'r']
    else if c = 9 then [ascii 't']
    else text "u00" ++ [hexByte (c.toNat / 16), hexByte (c.toNat % 16)]

/-- A string between quotation marks. -/
def quoted (s : CStr) : List UInt8 := ascii '"' :: (s.bytes.flatMap escapeByte ++ [ascii '"'])

/-- `print_string_ptr`, `cJSON.c:827–946`; the string is not null. -/
def printStringPtr (input : CStr) (offset : Nat) : Option (List UInt8) :=
  (ensure offset ((input.bytes.flatMap escapeByte).length + 3)).map fun _ ↦ quoted input

mutual

/-- `print_value`, `cJSON.c:1267–1338`: the text that is written at an offset. -/
def printValue : CJson → Nat → Option (List UInt8)
  | .null, offset => (ensure offset 5).map fun _ ↦ text "null"
  | .bool false, offset => (ensure offset 6).map fun _ ↦ text "false"
  | .bool true, offset => (ensure offset 5).map fun _ ↦ text "true"
  | .number d, offset => printNumber d offset
  | .string s, offset => printStringPtr s offset
  -- `print_array`, `cJSON.c:1435–1494`.
  | .array xs, offset => do
    ensure offset 1
    let body ← printElements xs (offset + 1)
    ensure (offset + 1 + body.length) 2
    some (ascii '[' :: body ++ [ascii ']'])
  -- `print_object`, `cJSON.c:1606–1717`.
  | .object ms, offset => do
    ensure offset 2
    let body ← printMembers ms (offset + 1)
    ensure (offset + 1 + body.length) 2
    some (ascii '{' :: body ++ [ascii '}'])

/-- The loop of `print_array`, `cJSON.c:1458–1480`. -/
def printElements : List CJson → Nat → Option (List UInt8)
  | [], _ => some []
  | x :: xs, offset => do
    let value ← printValue x offset
    if xs = [] then some value
    else do
      ensure (offset + value.length) 2
      let rest ← printElements xs (offset + value.length + 1)
      some (value ++ ascii ',' :: rest)

/-- The loop of `print_object`, `cJSON.c:1633–1692`. -/
def printMembers : Members → Nat → Option (List UInt8)
  | [], _ => some []
  | (name, item) :: ms, offset => do
    let key ← printStringPtr name offset
    ensure (offset + key.length) 1
    let value ← printValue item (offset + key.length + 1)
    if ms = [] then do
      ensure (offset + key.length + 1 + value.length) 1
      some (key ++ ascii ':' :: value)
    else do
      ensure (offset + key.length + 1 + value.length) 2
      let rest ← printMembers ms (offset + key.length + 1 + value.length + 1)
      some (key ++ ascii ':' :: value ++ ascii ',' :: rest)

end

/-- `cJSON_PrintUnformatted`, `cJSON.c:1087–1145,1153–1156`. -/
def printUnformatted (item : Option CJson) : Option CStr :=
  (item.bind fun v ↦ printValue v 0).map CStr.ofBuffer

mutual

/-- The text of a value. -/
def CJson.render : CJson → List UInt8
  | .null => text "null"
  | .bool b => if b then text "true" else text "false"
  | .number d => numberText d
  | .string s => quoted s
  | .array xs => ascii '[' :: renderElements xs ++ [ascii ']']
  | .object ms => ascii '{' :: renderMembers ms ++ [ascii '}']

/-- The text of the elements of an array. -/
def renderElements : List CJson → List UInt8
  | [] => []
  | x :: xs => x.render ++ if xs = [] then [] else ascii ',' :: renderElements xs

/-- The text of the members of an object. -/
def renderMembers : Members → List UInt8
  | [] => []
  | (name, item) :: ms => quoted name ++ ascii ':' :: item.render ++
      if ms = [] then [] else ascii ',' :: renderMembers ms

end

/-- Room for a text of this length at an offset, with the two bytes the printer asks for
besides. -/
abbrev Fits (offset length : Nat) : Prop := offset + length + 2 ≤ intMax.toNat

theorem ensure_eq (offset needed : Nat) :
    ensure offset needed = if offset + needed + 1 ≤ intMax.toNat then some () else none := by
  rw [ensure]
  split
  · next h => rw [if_pos h.2]
  · next h => rw [if_neg (by omega)]

/-- A text for whose terminator room is asked as well. -/
private theorem map_ensure (offset : Nat) (t : List UInt8) :
    ((ensure offset (t.length + 1)).map fun _ ↦ t) =
      if Fits offset t.length then some t else none := by
  rw [ensure_eq, ← Nat.add_assoc]
  split
  · rfl
  · rfl

/-- The buffer of `print_number` is long enough. -/
theorem length_numberText_le (d : Binary64) : (numberText d).length ≤ 25 := by
  cases d with
  | nan | inf neg => exact (show (text "null").length ≤ 25 by decide)
  | finite neg m =>
    have h15 := length_gText_le (show 0 < 15 by decide) neg m
    have h17 := length_gText_le (show 0 < 17 by decide) neg m
    rw [numberText]
    split
    · split <;> omega
    · omega

theorem printNumber_eq (d : Binary64) (offset : Nat) :
    printNumber d offset =
      if Fits offset (numberText d).length then some (numberText d) else none := by
  rw [printNumber, if_neg (by have := length_numberText_le d; omega), map_ensure]

theorem length_quoted (s : CStr) : (quoted s).length = (s.bytes.flatMap escapeByte).length + 2 := by
  rw [quoted, List.length_cons, List.length_append, List.length_singleton]

theorem printStringPtr_eq (s : CStr) (offset : Nat) :
    printStringPtr s offset = if Fits offset (quoted s).length then some (quoted s) else none := by
  rw [printStringPtr, ← map_ensure, length_quoted]

private theorem ensure_bind {α : Type} (offset needed : Nat) (f : Unit → Option α) :
    (ensure offset needed).bind f =
      if offset + needed + 1 ≤ intMax.toNat then f () else none := by
  rw [ensure_eq]
  split <;> rfl

private theorem ite_bind {α β : Type} {p : Prop} [Decidable p] (a : α) (f : α → Option β) :
    (if p then some a else none).bind f = if p then f a else none := by
  split <;> rfl

mutual

/-- A value is printed exactly if its text fits. -/
theorem printValue_eq : (v : CJson) → (offset : Nat) →
    printValue v offset = if Fits offset v.render.length then some v.render else none
  | .null, offset => map_ensure offset (text "null")
  | .bool false, offset => map_ensure offset (text "false")
  | .bool true, offset => map_ensure offset (text "true")
  | .number d, offset => printNumber_eq d offset
  | .string s, offset => printStringPtr_eq s offset
  | .array xs, offset => by
    have hlen : (CJson.array xs).render.length = (renderElements xs).length + 2 := by
      simp [CJson.render]
    simp only [printValue, printElements_eq xs (offset + 1), Option.bind_eq_bind, ensure_bind,
      ite_bind, hlen]
    by_cases h : Fits offset ((renderElements xs).length + 2)
    · rw [if_pos (by omega), if_pos (.inr (by omega)), if_pos (by omega), if_pos h]
      rfl
    · rw [if_neg h]
      split_ifs
      · omega
      all_goals rfl
  | .object ms, offset => by
    have hlen : (CJson.object ms).render.length = (renderMembers ms).length + 2 := by
      simp [CJson.render]
    simp only [printValue, printMembers_eq ms (offset + 1), Option.bind_eq_bind, ensure_bind,
      ite_bind, hlen]
    by_cases h : Fits offset ((renderMembers ms).length + 2)
    · rw [if_pos (by omega), if_pos (.inr (by omega)), if_pos (by omega), if_pos h]
      rfl
    · rw [if_neg h]
      split_ifs
      · omega
      all_goals rfl

/-- The elements of an array are printed exactly if their text fits. -/
theorem printElements_eq : (xs : List CJson) → (offset : Nat) →
    printElements xs offset =
      if xs = [] ∨ Fits offset (renderElements xs).length then some (renderElements xs) else none
  | [], _ => rfl
  | x :: xs, offset => by
    simp only [printElements, printValue_eq x offset, Option.bind_eq_bind, ite_bind,
      reduceCtorEq, false_or]
    by_cases hxs : xs = []
    · simp only [hxs, if_true, renderElements, List.append_nil]
    · simp only [hxs, if_false, ensure_bind, printElements_eq xs _, ite_bind, false_or,
        renderElements, List.length_append, List.length_cons]
      by_cases h : Fits offset (x.render.length + ((renderElements xs).length + 1))
      · rw [if_pos (by omega), if_pos (by omega), if_pos (by omega), if_pos h]
      · rw [if_neg h]
        split_ifs
        · omega
        all_goals rfl

/-- The members of an object are printed exactly if their text fits. -/
theorem printMembers_eq : (ms : Members) → (offset : Nat) →
    printMembers ms offset =
      if ms = [] ∨ Fits offset (renderMembers ms).length then some (renderMembers ms) else none
  | [], _ => rfl
  | (name, item) :: ms, offset => by
    simp only [printMembers, printStringPtr_eq, printValue_eq item _, Option.bind_eq_bind,
      ite_bind, ensure_bind, reduceCtorEq, false_or]
    by_cases hms : ms = []
    · simp only [hms, if_true, renderMembers, List.append_nil, List.length_append,
        List.length_cons]
      by_cases h : Fits offset ((quoted name).length + (item.render.length + 1))
      · rw [if_pos (by omega), if_pos (by omega), if_pos (by omega), if_pos (by omega), if_pos h]
      · rw [if_neg h]
        split_ifs
        · omega
        all_goals rfl
    · simp only [hms, if_false, printMembers_eq ms _, ite_bind, false_or, renderMembers,
        List.length_append, List.length_cons]
      by_cases h : Fits offset ((quoted name).length + (item.render.length + 1) +
          ((renderMembers ms).length + 1))
      · rw [if_pos (by omega), if_pos (by omega), if_pos (by omega), if_pos (by omega),
          if_pos (by omega), if_pos h]
      · rw [if_neg h]
        split_ifs
        · omega
        all_goals rfl

end

private theorem noNul_escapeByte {c : UInt8} (hc : c ≠ 0) : 0 ∉ escapeByte c := by
  have hhex : ∀ n : Fin 16, hexByte n ≠ 0 := by decide
  have hlt := c.toNat_lt
  have hhi := hhex ⟨c.toNat / 16, by omega⟩
  have hlo := hhex ⟨c.toNat % 16, by omega⟩
  rw [escapeByte]
  split_ifs <;> simp [Ne.symm hc, ascii, text, Ne.symm hhi, Ne.symm hlo]

theorem noNul_quoted (s : CStr) : 0 ∉ quoted s := by
  rw [quoted, List.mem_cons, List.mem_append, List.mem_singleton, List.mem_flatMap]
  rintro (h | ⟨c, hc, h⟩ | h)
  · exact absurd h (by decide)
  · exact noNul_escapeByte (fun h0 ↦ s.noNul (h0 ▸ hc)) h
  · exact absurd h (by decide)

theorem noNul_numberText (d : Binary64) : 0 ∉ numberText d := by
  have hg : ∀ {k neg m}, 0 ∉ gText k (.finite neg m) := by
    intro k neg m h
    exact absurd (numeralChar_gText h) (by decide)
  cases d with
  | nan | inf neg => exact (show 0 ∉ text "null" by decide)
  | finite neg m =>
    rw [numberText]
    split
    · split <;> exact hg
    · exact hg

mutual

/-- The text of a value has no NUL. -/
theorem noNul_render : (v : CJson) → 0 ∉ v.render
  | .null => by decide
  | .bool b => by cases b <;> decide
  | .number d => noNul_numberText d
  | .string s => noNul_quoted s
  | .array xs => by
    have := noNul_renderElements xs
    simp [CJson.render, this, ascii]
  | .object ms => by
    have := noNul_renderMembers ms
    simp [CJson.render, this, ascii]

theorem noNul_renderElements : (xs : List CJson) → 0 ∉ renderElements xs
  | [] => List.not_mem_nil
  | x :: xs => by
    have hx := noNul_render x
    have hxs := noNul_renderElements xs
    rw [renderElements]
    split <;> simp [hx, hxs, ascii]

theorem noNul_renderMembers : (ms : Members) → 0 ∉ renderMembers ms
  | [] => List.not_mem_nil
  | (name, item) :: ms => by
    have hname := noNul_quoted name
    have hitem := noNul_render item
    have hms := noNul_renderMembers ms
    rw [renderMembers]
    split <;> simp [hname, hitem, hms, ascii]

end

/-- The text of a value, as a C string. -/
def CJson.renderStr (v : CJson) : CStr := ⟨v.render, noNul_render v⟩

/-- A value is printed exactly if its text leaves two bytes of `INT_MAX`. -/
theorem printUnformatted_eq (v : CJson) :
    printUnformatted (some v) =
      if v.render.length + 2 ≤ intMax.toNat then some v.renderStr else none := by
  have hstr : CStr.ofBuffer v.render = v.renderStr := CStr.ext (CStr.ofBuffer_of_noNul (noNul_render v))
  simp only [printUnformatted, Option.bind_some, printValue_eq, Fits, Nat.zero_add]
  split
  · rw [Option.map_some, hstr]
  · rfl

end LedaSdk.Json
