import LedaSdk.Base.DecimalValue

/-!
# JSON texts

The values of JSON and the texts in UTF-8 that denote them, as a relation: a value has many
texts, since white space, escape sequences and the notation of a number may be chosen. An
escape sequence for half of a surrogate pair denotes nothing.
-/

namespace LedaSdk.Base

/-- A JSON value; an object keeps its members in order. -/
inductive JsonValue where
  | null
  | bool (b : Bool)
  | number (r : ℚ)
  | string (s : List Char)
  | array (xs : List JsonValue)
  | object (ms : List (List Char × JsonValue))

/-- The white space of JSON. -/
def Blank (s : List UInt8) : Prop := ∀ c ∈ s, c = 32 ∨ c = 9 ∨ c = 10 ∨ c = 13

/-- The encoding of characters in UTF-8. -/
def utf8 (s : List Char) : List UInt8 := s.flatMap String.utf8EncodeChar

/-- Four hexadecimal digits with a value. -/
def IsHex4 (n : Nat) (t : List UInt8) : Prop :=
  ∃ ds : List (Fin 16), ds.length = 4 ∧ t.map (digitOf 16) = ds.map some ∧ ofDigits ds = n

/-- The escape sequences of one letter, with the characters they stand for. -/
def shortEscapes : List (Char × Char) :=
  [('"', '"'), ('\\', '\\'), ('/', '/'), ('b', '\x08'), ('f', '\x0c'), ('n', '\n'), ('r', '\r'),
    ('t', '\t')]

/-- The ways to write a character in a string. -/
inductive IsChar : Char → List UInt8 → Prop
  | plain {c : Char} (hc : 32 ≤ c.toNat) (hquote : c ≠ '"') (hslash : c ≠ '\\') :
    IsChar c (String.utf8EncodeChar c)
  | short {e c : Char} (h : (e, c) ∈ shortEscapes) : IsChar c [ascii '\\', ascii e]
  | code {c : Char} {t : List UInt8} (h : IsHex4 c.toNat t) :
    IsChar c (ascii '\\' :: ascii 'u' :: t)
  | pair {c : Char} {hi lo : Nat} {t t' : List UInt8} (hhi : 0xD800 ≤ hi ∧ hi < 0xDC00)
      (hlo : 0xDC00 ≤ lo ∧ lo < 0xE000) (ht : IsHex4 hi t) (ht' : IsHex4 lo t')
      (hc : c.toNat = 0x10000 + (hi - 0xD800) * 0x400 + (lo - 0xDC00)) :
    IsChar c (ascii '\\' :: ascii 'u' :: t ++ ascii '\\' :: ascii 'u' :: t')

/-- The texts of the characters of a string one after the other. -/
inductive IsChars : List Char → List UInt8 → Prop
  | nil : IsChars [] []
  | cons {c : Char} {s : List Char} {a b : List UInt8} (hc : IsChar c a) (hs : IsChars s b) :
    IsChars (c :: s) (a ++ b)

/-- The texts of a string. -/
def IsString (s : List Char) (t : List UInt8) : Prop :=
  ∃ body, IsChars s body ∧ t = ascii '"' :: body ++ [ascii '"']

/-- The texts of a number: no leading zeros, and digits on both sides of a point. -/
def IsNumber (r : ℚ) (t : List UInt8) : Prop :=
  ∃ neg x e, IsNumeral x e ∧ (x.intDigits.head? = some 0 → x.intDigits = [0]) ∧
    t = signText neg ++ e ∧ r = x.toRat neg

mutual

/-- The texts of a value without white space around it. -/
def Spelled : JsonValue → List UInt8 → Prop
  | .null, t => t = text "null"
  | .bool b, t => t = if b then text "true" else text "false"
  | .number r, t => IsNumber r t
  | .string s, t => IsString s t
  | .array xs, t => ∃ s, SpelledElements xs s ∧ t = ascii '[' :: s ++ [ascii ']']
  | .object ms, t => ∃ s, SpelledMembers ms s ∧ t = ascii '{' :: s ++ [ascii '}']

/-- The texts between the brackets of an array. -/
def SpelledElements : List JsonValue → List UInt8 → Prop
  | [], t => Blank t
  | x :: xs, t => ∃ a u b, Blank a ∧ Spelled x u ∧ Blank b ∧
      if xs = [] then t = a ++ u ++ b
      else ∃ s, SpelledElements xs s ∧ t = a ++ u ++ b ++ ascii ',' :: s

/-- The texts between the braces of an object. -/
def SpelledMembers : List (List Char × JsonValue) → List UInt8 → Prop
  | [], t => Blank t
  | (name, item) :: ms, t => ∃ a n b c u d, Blank a ∧ IsString name n ∧ Blank b ∧ Blank c ∧
      Spelled item u ∧ Blank d ∧
      if ms = [] then t = a ++ n ++ b ++ ascii ':' :: c ++ u ++ d
      else ∃ s, SpelledMembers ms s ∧
        t = a ++ n ++ b ++ ascii ':' :: c ++ u ++ d ++ ascii ',' :: s

end

/-- The texts of a value, with white space around it. -/
def IsJsonText (v : JsonValue) (t : List UInt8) : Prop :=
  ∃ a u b, Blank a ∧ Spelled v u ∧ Blank b ∧ t = a ++ (u ++ b)

section Blanks
variable {a b : List UInt8}

theorem blank_nil : Blank [] := fun _ h ↦ absurd h List.not_mem_nil

theorem Blank.append (ha : Blank a) (hb : Blank b) : Blank (a ++ b) := by
  intro c hc
  rcases List.mem_append.mp hc with h | h
  · exact ha c h
  · exact hb c h

end Blanks

section Texts
variable {t : List UInt8}

/-- A number is written with the characters of numerals. -/
theorem IsNumber.numeralChar {r : ℚ} (h : IsNumber r t) : ∀ c ∈ t, numeralChar c = true := by
  obtain ⟨neg, x, e, he, -, rfl, -⟩ := h
  intro c hc
  rcases List.mem_append.mp hc with h | h
  · exact numeralChar_signText h
  · exact he.numeralChar c h

/-- A number begins with a minus sign or a digit. -/
theorem IsNumber.head {r : ℚ} (h : IsNumber r t) :
    ∃ c s, t = c :: s ∧ (c = ascii '-' ∨ ∃ d, c = digitByte d) := by
  obtain ⟨neg, x, e, he, -, rfl, -⟩ := h
  obtain ⟨d, s, rfl⟩ := he.head
  cases neg with
  | true => exact ⟨_, _, rfl, .inl rfl⟩
  | false => exact ⟨_, _, rfl, .inr ⟨d, rfl⟩⟩

/-- The text of a value begins with an ASCII character that is no white space and closes no
bracket. -/
theorem Spelled.head {v : JsonValue} (h : Spelled v t) :
    ∃ c s, t = c :: s ∧ 32 < c ∧ c < 128 ∧ c ≠ ascii ']' ∧ c ≠ ascii '}' := by
  have hdigit : ∀ n : Fin 10, 32 < digitByte n ∧ digitByte n < 128 ∧ digitByte n ≠ ascii ']' ∧
      digitByte n ≠ ascii '}' := by decide
  cases v with
  | null =>
    obtain rfl : t = text "null" := h
    exact ⟨_, _, rfl, by decide⟩
  | bool b =>
    obtain rfl : t = if b then text "true" else text "false" := h
    cases b
    · exact ⟨_, _, rfl, by decide⟩
    · exact ⟨_, _, rfl, by decide⟩
  | number r =>
    obtain ⟨c, s, rfl, hc⟩ := IsNumber.head (r := r) h
    refine ⟨c, s, rfl, ?_⟩
    rcases hc with rfl | ⟨n, rfl⟩
    · decide
    · exact hdigit n
  | string s =>
    obtain ⟨body, -, rfl⟩ := h
    exact ⟨_, _, rfl, by decide⟩
  | array xs =>
    obtain ⟨s, -, rfl⟩ := h
    exact ⟨_, _, rfl, by decide⟩
  | object ms =>
    obtain ⟨s, -, rfl⟩ := h
    exact ⟨_, _, rfl, by decide⟩

end Texts

end LedaSdk.Base
