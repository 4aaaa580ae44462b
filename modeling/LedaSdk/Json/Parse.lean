import LedaSdk.Json.CJson

/-!
# Parsing JSON

`sdk/utility/json/cJSON.c:253–337,539–824,962–1085,1211–1265,1340–1432,1496–1603`:
`cJSON_Parse`. The input is the text before the terminating NUL, where every test of the
parser fails and white space ends; what follows the first value is not looked at.
-/

namespace LedaSdk.Json
open LedaSdk.Base

/-- `CJSON_NESTING_LIMIT`, `cJSON.h:129`. -/
def nestingLimit : Nat := 1000

/-- `buffer_skip_whitespace`, `cJSON.c:963–981`. -/
def skipWhitespace (s : List UInt8) : List UInt8 := s.dropWhile (· ≤ 32)

/-- `skip_utf8_bom`, `cJSON.c:984–997`. -/
def skipUtf8Bom (s : List UInt8) : List UInt8 :=
  if 4 ≤ s.length ∧ s.take 3 = [0xEF, 0xBB, 0xBF] then s.drop 3 else s

/-- A word at the front of a text. -/
def dropPrefix : List UInt8 → List UInt8 → Option (List UInt8)
  | [], s => some s
  | _ :: _, [] => none
  | w :: ws, c :: s => if c = w then dropPrefix ws s else none

/-- `parse_number`, `cJSON.c:266–337`: `strtod` on at most 63 characters. -/
def parseNumber (s : List UInt8) : Option (CJson × List UInt8) :=
  let numberCString := (s.takeWhile numeralChar).take 63
  (strtod numberCString).map fun (number, afterEnd) ↦
    (.number number, s.drop (numberCString.length - afterEnd.length))

/-- `parse_hex4`, `cJSON.c:540–573`: zero if a character is no hexadecimal digit. -/
def parseHex4 (a b c d : UInt8) : Nat :=
  match digitOf 16 a, digitOf 16 b, digitOf 16 c, digitOf 16 d with
  | some a, some b, some c, some d => ofDigits [a, b, c, d]
  | _, _, _, _ => 0

/-- `utf16_literal_to_utf8`, `cJSON.c:627–671`: the encoding of a code point. -/
def utf8Bytes (codepoint : Nat) : List UInt8 :=
  let tail (shift : Nat) : UInt8 := (0x80 + codepoint / 2 ^ shift % 64).toUInt8
  if codepoint < 0x80 then [codepoint.toUInt8]
  else if codepoint < 0x800 then [(0xC0 + codepoint / 64).toUInt8, tail 0]
  else if codepoint < 0x10000 then [(0xE0 + codepoint / 4096).toUInt8, tail 6, tail 0]
  else [(0xF0 + codepoint / 262144).toUInt8, tail 12, tail 6, tail 0]

/-- The escape sequences of one character, `cJSON.c:758–779`. -/
def unescapeChar (c : UInt8) : Option UInt8 :=
  if c = ascii 'b' then some 8
  else if c = ascii 'f' then some 12
  else if c = ascii 'n' then some 10
  else if c = ascii 'r' then some 13
  else if c = ascii 't' then some 9
  else if c = ascii '"' ∨ c = ascii '\\' ∨ c = ascii '/' then some c
  else none

/-- The loop of `parse_string` over the characters between the quotation marks,
`cJSON.c:742–796`, with `utf16_literal_to_utf8`, `cJSON.c:577–625`. -/
def unescape : List UInt8 → Option (List UInt8)
  | [] => some []
  | c :: s =>
    if c ≠ ascii '\\' then (unescape s).map (c :: ·)
    else match s with
      -- The closing quotation mark is read as the rest of the escape sequence.
      | [] => some [ascii '"']
      | e :: s =>
        if e ≠ ascii 'u' then do
          let b ← unescapeChar e
          (unescape s).map (b :: ·)
        else match s with
          | h1 :: h2 :: h3 :: h4 :: s =>
            let firstCode := parseHex4 h1 h2 h3 h4
            if 0xDC00 ≤ firstCode ∧ firstCode ≤ 0xDFFF then none
            else if 0xD800 ≤ firstCode ∧ firstCode ≤ 0xDBFF then
              match s with
              | b :: u :: l1 :: l2 :: l3 :: l4 :: s =>
                let secondCode := parseHex4 l1 l2 l3 l4
                if b ≠ ascii '\\' ∨ u ≠ ascii 'u' then none
                else if secondCode < 0xDC00 ∨ 0xDFFF < secondCode then none
                else
                  let codepoint := 0x10000 + firstCode % 0x400 * 0x400 + secondCode % 0x400
                  (unescape s).map (utf8Bytes codepoint ++ ·)
              | _ => none
            else (unescape s).map (utf8Bytes firstCode ++ ·)
          | _ => none

/-- The search of `parse_string` for the closing quotation mark, `cJSON.c:711–729`: the
characters before and after it. -/
def closingQuote : List UInt8 → Option (List UInt8 × List UInt8)
  | [] => none
  | c :: s =>
    if c = ascii '"' then some ([], s)
    else if c = ascii '\\' then
      match s with
      | [] => none
      | e :: s => (closingQuote s).map fun (raw, rest) ↦ (c :: e :: raw, rest)
    else (closingQuote s).map fun (raw, rest) ↦ (c :: raw, rest)

/-- `parse_string`, `cJSON.c:698–824`; the result is read up to a NUL that `\u0000` puts
into it. -/
def parseString : List UInt8 → Option (CStr × List UInt8)
  | [] => none
  | c :: s =>
    if c = ascii '"' then do
      let (raw, rest) ← closingQuote s
      let output ← unescape raw
      some (.ofBuffer output, rest)
    else none

-- Four characters are taken for digits, the last of them the first of an escape sequence.
example : parseString (text "\"\\u123\\\\\"") = some (.lit "", []) := by decide +kernel

/-- `parse_value` without the branches for arrays and objects, `cJSON.c:1219–1252`. -/
def parseScalar (s : List UInt8) : Option (CJson × List UInt8) :=
  match dropPrefix (text "null") s with
  | some rest => some (.null, rest)
  | none =>
    match dropPrefix (text "false") s with
    | some rest => some (.bool false, rest)
    | none =>
      match dropPrefix (text "true") s with
      | some rest => some (.bool true, rest)
      | none =>
        match s with
        | [] => none
        | c :: _ =>
          if c = ascii '"' then (parseString s).map fun (string, rest) ↦ (.string string, rest)
          else if c = ascii '-' ∨ (48 ≤ c ∧ c ≤ 57) then parseNumber s
          else none

section Lists
variable (value : List UInt8 → Option (CJson × List UInt8))

/-- The loop of `parse_array`, `cJSON.c:1375–1409`, at most `fuel` times. -/
def parseElements : Nat → List UInt8 → Option (List CJson × List UInt8)
  | 0, _ => none
  | fuel + 1, s => do
    let (item, s) ← value (skipWhitespace s)
    match skipWhitespace s with
    | [] => none
    | c :: s =>
      if c = ascii ',' then (parseElements fuel s).map fun (items, rest) ↦ (item :: items, rest)
      else if c = ascii ']' then some ([item], s)
      else none

/-- `parse_array` after the opening bracket, `cJSON.c:1358–1432`. -/
def parseArray (s : List UInt8) : Option (CJson × List UInt8) :=
  match dropPrefix [ascii ']'] (skipWhitespace s) with
  | some rest => some (.array [], rest)
  | none => (parseElements value (s.length + 1) s).map fun (items, rest) ↦ (.array items, rest)

/-- The loop of `parse_object`, `cJSON.c:1531–1579`, at most `fuel` times. -/
def parseMembers : Nat → List UInt8 → Option (Members × List UInt8)
  | 0, _ => none
  | fuel + 1, s => do
    let (name, s) ← parseString (skipWhitespace s)
    let s ← dropPrefix [ascii ':'] (skipWhitespace s)
    let (item, s) ← value (skipWhitespace s)
    match skipWhitespace s with
    | [] => none
    | c :: s =>
      if c = ascii ',' then
        (parseMembers fuel s).map fun (members, rest) ↦ ((name, item) :: members, rest)
      else if c = ascii '}' then some ([(name, item)], s)
      else none

/-- `parse_object` after the opening brace, `cJSON.c:1513–1603`. -/
def parseObject (s : List UInt8) : Option (CJson × List UInt8) :=
  match dropPrefix [ascii '}'] (skipWhitespace s) with
  | some rest => some (.object [], rest)
  | none => (parseMembers value (s.length + 1) s).map fun (members, rest) ↦ (.object members, rest)

end Lists

/-- `parse_value`, `cJSON.c:1212–1265`, with the nesting that is left; arrays and objects
need one level. -/
def parseValue : Nat → List UInt8 → Option (CJson × List UInt8)
  | 0, s => parseScalar s
  | _ + 1, [] => none
  | limit + 1, c :: s =>
    if c = ascii '[' then parseArray (parseValue limit) s
    else if c = ascii '{' then parseObject (parseValue limit) s
    else parseScalar (c :: s)

/-- `cJSON_Parse`, `cJSON.c:1000–1083`. -/
def parse (value : CStr) : Option CJson :=
  (parseValue nestingLimit (skipWhitespace (skipUtf8Bom value.bytes))).map (·.1)

/-- `cJSON_ParseWithOpts`, `cJSON.c:1000–1077`, without the end of the parse. -/
def parseWithOpts (value : CStr) (requireNullTerminated : Bool) : Option CJson := do
  let (item, rest) ← parseValue nestingLimit (skipWhitespace (skipUtf8Bom value.bytes))
  if requireNullTerminated ∧ skipWhitespace rest ≠ [] then none else some item

/-- `cJSON_Parse` does not look at what follows the value. -/
theorem parse_eq_parseWithOpts (value : CStr) : parse value = parseWithOpts value false := by
  rw [parse, parseWithOpts]
  cases parseValue nestingLimit (skipWhitespace (skipUtf8Bom value.bytes)) <;> rfl

theorem length_skipWhitespace_le (s : List UInt8) : (skipWhitespace s).length ≤ s.length :=
  (List.dropWhile_suffix _).length_le

theorem dropPrefix_eq_some {ws s rest : List UInt8} (h : dropPrefix ws s = some rest) :
    s = ws ++ rest := by
  fun_induction dropPrefix ws s with
  | case1 s => rw [List.nil_append, Option.some.inj h]
  | case2 w ws => cases h
  | case3 w ws s ih => rw [ih h, List.cons_append]
  | case4 w ws c s hne => cases h

theorem length_closingQuote_le {s raw rest : List UInt8} (h : closingQuote s = some (raw, rest)) :
    rest.length ≤ s.length := by
  fun_induction closingQuote s generalizing raw with
  | case1 => cases h
  | case2 s =>
    obtain ⟨-, rfl⟩ := Prod.mk.inj (Option.some.inj h)
    rw [List.length_cons]
    omega
  | case3 => cases h
  | case4 e s _ ih =>
    obtain ⟨⟨raw', rest'⟩, hs, he⟩ := Option.map_eq_some_iff.mp h
    obtain ⟨-, rfl⟩ := Prod.mk.inj he
    have := ih hs
    simp only [List.length_cons]
    omega
  | case5 c s _ _ ih =>
    obtain ⟨⟨raw', rest'⟩, hs, he⟩ := Option.map_eq_some_iff.mp h
    obtain ⟨-, rfl⟩ := Prod.mk.inj he
    have := ih hs
    rw [List.length_cons]
    omega

theorem length_parseString_le {s rest : List UInt8} {string : CStr}
    (h : parseString s = some (string, rest)) : rest.length ≤ s.length := by
  cases s with
  | nil => cases h
  | cons c s =>
    rw [parseString] at h
    split at h
    · obtain ⟨⟨raw, rest'⟩, hraw, h⟩ := Option.bind_eq_some_iff.mp h
      obtain ⟨output, -, h⟩ := Option.bind_eq_some_iff.mp h
      obtain ⟨-, rfl⟩ := Prod.mk.inj (Option.some.inj h)
      have := length_closingQuote_le hraw
      rw [List.length_cons]
      omega
    · cases h

/-- A parser that leaves at most the text it was given. -/
def Shortens (value : List UInt8 → Option (CJson × List UInt8)) : Prop :=
  ∀ s item rest, value s = some (item, rest) → rest.length ≤ s.length

theorem shortens_parseScalar : Shortens parseScalar := by
  intro s item rest h
  have hword : ∀ {w}, dropPrefix w s = some rest → rest.length ≤ s.length := by
    intro w hw
    rw [dropPrefix_eq_some hw, List.length_append]
    omega
  unfold parseScalar at h
  split at h
  · next hw =>
    obtain ⟨-, rfl⟩ := Prod.mk.inj (Option.some.inj h)
    exact hword hw
  · split at h
    · next hw =>
      obtain ⟨-, rfl⟩ := Prod.mk.inj (Option.some.inj h)
      exact hword hw
    · split at h
      · next hw =>
        obtain ⟨-, rfl⟩ := Prod.mk.inj (Option.some.inj h)
        exact hword hw
      · cases s with
        | nil => cases h
        | cons c s =>
          simp only at h
          split at h
          · obtain ⟨⟨string, rest'⟩, hs, he⟩ := Option.map_eq_some_iff.mp h
            obtain ⟨-, rfl⟩ := Prod.mk.inj he
            exact length_parseString_le hs
          · split at h
            · obtain ⟨⟨number, left⟩, -, he⟩ := Option.map_eq_some_iff.mp h
              obtain ⟨-, rfl⟩ := Prod.mk.inj he
              rw [List.length_drop]
              omega
            · cases h

/-- What is left after the name of a member and its colon. -/
private theorem length_after_name {s s1 s2 : List UInt8} {name : CStr}
    (hname : parseString (skipWhitespace s) = some (name, s1))
    (hcolon : dropPrefix [ascii ':'] (skipWhitespace s1) = some s2) :
    (skipWhitespace s2).length ≤ s.length := by
  have h1 := length_parseString_le hname
  have h2 := congrArg List.length (dropPrefix_eq_some hcolon)
  have h3 := length_skipWhitespace_le s
  have h4 := length_skipWhitespace_le s1
  have h5 := length_skipWhitespace_le s2
  rw [List.length_append] at h2
  omega

section Fuel
variable {value : List UInt8 → Option (CJson × List UInt8)} (hvalue : Shortens value)
include hvalue

/-- What is left after one element of a list and the white space behind it. -/
private theorem length_after_item {s s' rest : List UInt8} {item : CJson} {c : UInt8}
    (hs : s'.length ≤ s.length) (hitem : value s' = some (item, rest)) {t : List UInt8}
    (ht : skipWhitespace rest = c :: t) : t.length < s.length := by
  have hrest := hvalue _ _ _ hitem
  have hskip := length_skipWhitespace_le rest
  rw [ht, List.length_cons] at hskip
  omega

/-- The fuel of the loop over elements is never used up. -/
theorem parseElements_fuel {f g : Nat} {s : List UInt8} (hf : s.length < f) (hg : s.length < g) :
    parseElements value f s = parseElements value g s := by
  induction f generalizing g s with
  | zero => omega
  | succ f ih =>
    cases g with
    | zero => omega
    | succ g =>
      rw [parseElements, parseElements]
      cases hitem : value (skipWhitespace s) with
      | none => rfl
      | some p =>
        simp only [Option.bind_eq_bind, Option.bind_some]
        cases ht : skipWhitespace p.2 with
        | nil => rfl
        | cons c t =>
          have := length_after_item hvalue (length_skipWhitespace_le s) hitem ht
          simp only [ih (show t.length < f by omega) (show t.length < g by omega)]

/-- The fuel of the loop over members is never used up. -/
theorem parseMembers_fuel {f g : Nat} {s : List UInt8} (hf : s.length < f) (hg : s.length < g) :
    parseMembers value f s = parseMembers value g s := by
  induction f generalizing g s with
  | zero => omega
  | succ f ih =>
    cases g with
    | zero => omega
    | succ g =>
      rw [parseMembers, parseMembers]
      cases hname : parseString (skipWhitespace s) with
      | none => rfl
      | some p =>
        simp only [Option.bind_eq_bind, Option.bind_some]
        cases hcolon : dropPrefix [ascii ':'] (skipWhitespace p.2) with
        | none => rfl
        | some u =>
          simp only [Option.bind_some]
          cases hitem : value (skipWhitespace u) with
          | none => rfl
          | some q =>
            simp only [Option.bind_some]
            cases ht : skipWhitespace q.2 with
            | nil => rfl
            | cons c t =>
              have := length_after_item hvalue (length_after_name hname hcolon) hitem ht
              simp only [ih (show t.length < f by omega) (show t.length < g by omega)]

theorem length_parseElements_le {f : Nat} {s rest : List UInt8} {items : List CJson}
    (h : parseElements value f s = some (items, rest)) : rest.length ≤ s.length := by
  induction f generalizing s items with
  | zero => cases h
  | succ f ih =>
    obtain ⟨⟨item, s'⟩, hitem, h⟩ := Option.bind_eq_some_iff.mp h
    cases ht : skipWhitespace s' with
    | nil => simp only [ht] at h; cases h
    | cons c t =>
      have := length_after_item hvalue (length_skipWhitespace_le s) hitem ht
      simp only [ht] at h
      split at h
      · obtain ⟨⟨items', rest'⟩, hs, he⟩ := Option.map_eq_some_iff.mp h
        obtain ⟨-, rfl⟩ := Prod.mk.inj he
        have := ih hs
        omega
      · split at h
        · obtain ⟨-, rfl⟩ := Prod.mk.inj (Option.some.inj h)
          omega
        · cases h

theorem length_parseMembers_le {f : Nat} {s rest : List UInt8} {ms : Members}
    (h : parseMembers value f s = some (ms, rest)) : rest.length ≤ s.length := by
  induction f generalizing s ms with
  | zero => cases h
  | succ f ih =>
    obtain ⟨⟨name, s1⟩, hname, h⟩ := Option.bind_eq_some_iff.mp h
    obtain ⟨s2, hcolon, h⟩ := Option.bind_eq_some_iff.mp h
    obtain ⟨⟨item, s3⟩, hitem, h⟩ := Option.bind_eq_some_iff.mp h
    cases ht : skipWhitespace s3 with
    | nil => simp only [ht] at h; cases h
    | cons c t =>
      have := length_after_item hvalue (length_after_name hname hcolon) hitem ht
      simp only [ht] at h
      split at h
      · obtain ⟨⟨ms', rest'⟩, hs, he⟩ := Option.map_eq_some_iff.mp h
        obtain ⟨-, rfl⟩ := Prod.mk.inj he
        have := ih hs
        omega
      · split at h
        · obtain ⟨-, rfl⟩ := Prod.mk.inj (Option.some.inj h)
          omega
        · cases h

end Fuel

/-- At every nesting the parser leaves at most the text it was given, so the fuel of its
loops suffices. -/
theorem shortens_parseValue : (limit : Nat) → Shortens (parseValue limit)
  | 0 => shortens_parseScalar
  | limit + 1 => by
    have ih := shortens_parseValue limit
    intro s item rest h
    cases s with
    | nil => cases h
    | cons c s =>
      have hskip := length_skipWhitespace_le s
      rw [List.length_cons]
      rw [parseValue] at h
      split at h
      · rw [parseArray] at h
        split at h
        · next hd =>
          obtain ⟨-, rfl⟩ := Prod.mk.inj (Option.some.inj h)
          rw [dropPrefix_eq_some hd, List.length_append] at hskip
          omega
        · obtain ⟨⟨items, rest'⟩, hs, he⟩ := Option.map_eq_some_iff.mp h
          obtain ⟨-, rfl⟩ := Prod.mk.inj he
          have := length_parseElements_le ih hs
          omega
      · split at h
        · rw [parseObject] at h
          split at h
          · next hd =>
            obtain ⟨-, rfl⟩ := Prod.mk.inj (Option.some.inj h)
            rw [dropPrefix_eq_some hd, List.length_append] at hskip
            omega
          · obtain ⟨⟨ms, rest'⟩, hs, he⟩ := Option.map_eq_some_iff.mp h
            obtain ⟨-, rfl⟩ := Prod.mk.inj he
            have := length_parseMembers_le ih hs
            omega
        · exact shortens_parseScalar _ _ _ h

end LedaSdk.Json
