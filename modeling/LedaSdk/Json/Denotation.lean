import LedaSdk.Json.Spaced

/-!
# The values that trees represent

A tree represents a JSON value if its numbers are the nearest doubles and its strings hold the
characters in UTF-8. `cJSON_Parse` reads texts that are no JSON as well, cuts numerals off after
63 characters and ends strings at a NUL; where the tree that it returns nevertheless represents
the value of the text is said here.
-/

namespace LedaSdk.Json
open LedaSdk.Base

mutual

/-- The tree represents the value. -/
def Represents : CJson → JsonValue → Prop
  | .null, .null => True
  | .bool b, .bool c => b = c
  | .number d, .number r => d.NearestTo r
  | .string s, .string t => s.bytes = utf8 t
  | .array ys, .array xs => RepresentsElements ys xs
  | .object ns, .object ms => RepresentsMembers ns ms
  | _, _ => False

def RepresentsElements : List CJson → List JsonValue → Prop
  | [], [] => True
  | y :: ys, x :: xs => Represents y x ∧ RepresentsElements ys xs
  | _, _ => False

def RepresentsMembers : Members → List (List Char × JsonValue) → Prop
  | [], [] => True
  | (s, y) :: ns, (name, x) :: ms => s.bytes = utf8 name ∧ Represents y x ∧ RepresentsMembers ns ms
  | _, _ => False

end

mutual

/-- Some tree can represent the value: its numbers are in the range of `double`, and its strings
and names do not contain the character zero. -/
def Expressible : JsonValue → Prop
  | .number r => (Binary64.ofRat r).IsFinite
  | .string s => '\x00' ∉ s
  | .array xs => ExpressibleElements xs
  | .object ms => ExpressibleMembers ms
  | _ => True

def ExpressibleElements : List JsonValue → Prop
  | [] => True
  | x :: xs => Expressible x ∧ ExpressibleElements xs

def ExpressibleMembers : List (List Char × JsonValue) → Prop
  | [] => True
  | (name, x) :: ms => '\x00' ∉ name ∧ Expressible x ∧ ExpressibleMembers ms

end

/-- Of a number by itself the first 63 characters are read as a double nearest to it. -/
def LoneNumberKept (v : JsonValue) (u : List UInt8) : Prop :=
  ∀ r, v = .number r → ∀ d left, strtod (u.take 63) = some (d, left) → d.NearestTo r

/-- The text is that of a JSON value which a tree can represent, and if it is that of a number
by itself, what `strtod` is given of it suffices. -/
def KeepsValue (value : CStr) : Prop :=
  ∃ v a u b, Blank a ∧ Spelled v u ∧ Blank b ∧ value.bytes = a ++ (u ++ b) ∧ Expressible v ∧
    LoneNumberKept v u

section Strings

/-- `utf16_literal_to_utf8` encodes a character in UTF-8. -/
theorem utf8Bytes_toNat (c : Char) : utf8Bytes c.toNat = String.utf8EncodeChar c := by
  have hvalid : c.toNat < 0x110000 := by
    rcases c.valid with h | h
    · have : c.val.toNat = c.toNat := rfl
      omega
    · exact h.2
  have hval : c.val.toNat = c.toNat := rfl
  rw [utf8Bytes, String.utf8EncodeChar, hval]
  generalize c.toNat = n at *
  dsimp only
  by_cases h1 : n < 0x80
  · rw [if_pos h1, if_pos (show n ≤ 0x7f by omega)]
  rw [if_neg h1, if_neg (show ¬ n ≤ 0x7f by omega)]
  by_cases h2 : n < 0x800
  · rw [if_pos h2, if_pos (show n ≤ 0x7ff by omega),
      Nat.mod_eq_of_lt (show n / 64 < 0x20 by omega)]
    simp [Nat.add_comm]
  rw [if_neg h2, if_neg (show ¬ n ≤ 0x7ff by omega)]
  by_cases h3 : n < 0x10000
  · rw [if_pos h3, if_pos (show n ≤ 0xffff by omega),
      Nat.mod_eq_of_lt (show n / 4096 < 0x10 by omega)]
    simp [Nat.add_comm]
  · rw [if_neg h3, if_neg (show ¬ n ≤ 0xffff by omega),
      Nat.mod_eq_of_lt (show n / 262144 < 8 by omega)]
    simp [Nat.add_comm]

/-- Bytes that neither close a string nor begin an escape sequence. -/
def Plain (s : List UInt8) : Prop := ∀ c ∈ s, c ≠ ascii '"' ∧ c ≠ ascii '\\'

theorem closingQuote_plains {a : List UInt8} (ha : Plain a) (s : List UInt8) :
    closingQuote (a ++ s) = (closingQuote s).map fun (raw, rest) ↦ (a ++ raw, rest) := by
  induction a with
  | nil =>
    rw [List.nil_append]
    cases closingQuote s <;> rfl
  | cons c a ih =>
    obtain ⟨hc, ha⟩ := List.forall_mem_cons.mp ha
    rw [List.cons_append, closingQuote_plain _ hc.1 hc.2, ih ha]
    cases closingQuote s <;> rfl

theorem unescape_plains {a : List UInt8} (ha : Plain a) (s : List UInt8) :
    unescape (a ++ s) = (unescape s).map (a ++ ·) := by
  induction a with
  | nil =>
    rw [List.nil_append]
    cases unescape s <;> rfl
  | cons c a ih =>
    obtain ⟨hc, ha⟩ := List.forall_mem_cons.mp ha
    rw [List.cons_append, unescape.eq_def]
    simp only [ne_eq, hc.2, not_false_eq_true, if_true, ih ha]
    cases unescape s <;> rfl

/-- A byte of an encoded character is its code, or no ASCII character. -/
theorem toNat_of_mem_utf8EncodeChar {c : Char} {b : UInt8} (hb : b ∈ String.utf8EncodeChar c) :
    b.toNat = c.toNat ∨ 128 ≤ b.toNat := by
  have hcode : c.val.toNat = c.toNat := rfl
  have hbyte {k : Nat} (hk : k < 256) : (UInt8.ofNat k).toNat = k := Nat.mod_eq_of_lt hk
  rw [String.utf8EncodeChar, hcode] at hb
  generalize c.toNat = n at *
  split at hb
  · rw [List.mem_singleton.mp hb]
    exact .inl (hbyte (by omega))
  · right
    split at hb
    · simp only [List.mem_cons, List.not_mem_nil, or_false] at hb
      rcases hb with rfl | rfl <;> rw [hbyte (by omega)] <;> omega
    · split at hb
      · simp only [List.mem_cons, List.not_mem_nil, or_false] at hb
        rcases hb with rfl | rfl | rfl <;> rw [hbyte (by omega)] <;> omega
      · simp only [List.mem_cons, List.not_mem_nil, or_false] at hb
        rcases hb with rfl | rfl | rfl | rfl <;> rw [hbyte (by omega)] <;> omega

/-- An ASCII character is a byte of its own encoding only. -/
theorem eq_of_ascii_mem_utf8EncodeChar {c d : Char} (hd : d.toNat < 128)
    (h : ascii d ∈ String.utf8EncodeChar c) : c = d := by
  have hcode : (ascii d).toNat = d.toNat := Nat.mod_eq_of_lt (by omega)
  rcases toNat_of_mem_utf8EncodeChar h with hsame | hlarge
  · exact Char.toNat_inj.mp (hsame.symm.trans hcode)
  · omega

/-- A character other than a quotation mark and a backslash has no byte of these. -/
theorem plain_utf8EncodeChar {c : Char} (hquote : c ≠ '"') (hslash : c ≠ '\\') :
    Plain (String.utf8EncodeChar c) := by
  intro b hb
  constructor
  · rintro rfl
    exact hquote (eq_of_ascii_mem_utf8EncodeChar (by decide) hb)
  · rintro rfl
    exact hslash (eq_of_ascii_mem_utf8EncodeChar (by decide) hb)

/-- Four hexadecimal digits one by one. -/
theorem isHex4_cases {n : Nat} {t : List UInt8} (h : IsHex4 n t) :
    ∃ a b c d, t = [a, b, c, d] ∧ parseHex4 a b c d = n ∧ n < 0x10000 ∧ Plain t := by
  obtain ⟨ds, hlen, hmap, rfl⟩ := h
  obtain ⟨w, x, y, z, rfl⟩ : ∃ w x y z, ds = [w, x, y, z] := by
    match ds, hlen with
    | [w, x, y, z], _ => exact ⟨w, x, y, z, rfl⟩
  obtain ⟨a, b, c, d, rfl⟩ : ∃ a b c d, t = [a, b, c, d] := by
    have hlen' : t.length = 4 := by simpa using congrArg List.length hmap
    match t, hlen' with
    | [a, b, c, d], _ => exact ⟨a, b, c, d, rfl⟩
  simp only [List.map_cons, List.map_nil, List.cons.injEq, and_true] at hmap
  obtain ⟨ha, hb, hc, hd⟩ := hmap
  have hplain {e : UInt8} {v : Fin 16} (he : digitOf 16 e = some v) :
      e ≠ ascii '"' ∧ e ≠ ascii '\\' := by
    constructor
    · rintro rfl
      cases he
    · rintro rfl
      cases he
  refine ⟨a, b, c, d, rfl, ?_, ?_, ?_⟩
  · rw [parseHex4, ha, hb, hc, hd]
  · have := w.isLt
    simp only [ofDigits, List.foldl_cons, List.foldl_nil]
    omega
  · intro e he
    simp only [List.mem_cons, List.not_mem_nil, or_false] at he
    rcases he with rfl | rfl | rfl | rfl
    · exact hplain ha
    · exact hplain hb
    · exact hplain hc
    · exact hplain hd

/-- The text of a character is skipped by the search for the closing quotation mark. -/
theorem closingQuote_isChar {c : Char} {a : List UInt8} (h : IsChar c a) (s : List UInt8) :
    closingQuote (a ++ s) = (closingQuote s).map fun (raw, rest) ↦ (a ++ raw, rest) := by
  cases h with
  | plain hc hquote hslash => exact closingQuote_plains (plain_utf8EncodeChar hquote hslash) s
  | short he => exact closingQuote_escape _ s
  | code ht =>
    obtain ⟨-, -, -, -, -, -, -, hplain⟩ := isHex4_cases ht
    rw [List.cons_append, List.cons_append, closingQuote_escape, closingQuote_plains hplain]
    cases closingQuote s <;> rfl
  | @pair c hi lo t t' hhi hlo ht ht' hc =>
    obtain ⟨-, -, -, -, -, -, -, hplain⟩ := isHex4_cases ht
    obtain ⟨-, -, -, -, -, -, -, hplain'⟩ := isHex4_cases ht'
    rw [List.append_assoc, List.cons_append, List.cons_append, closingQuote_escape,
      closingQuote_plains hplain, List.cons_append, List.cons_append, closingQuote_escape,
      closingQuote_plains hplain']
    cases closingQuote s with
    | none => rfl
    | some p => simp

/-- The text of a character is read as its encoding. -/
theorem unescape_isChar {c : Char} {a : List UInt8} (h : IsChar c a) (s : List UInt8) :
    unescape (a ++ s) = (unescape s).map (String.utf8EncodeChar c ++ ·) := by
  cases h with
  | plain hc hquote hslash => exact unescape_plains (plain_utf8EncodeChar hquote hslash) s
  | @short e c he =>
    have hshort : ∀ p ∈ shortEscapes, ascii p.1 ≠ ascii 'u' ∧
        ∃ b, unescapeChar (ascii p.1) = some b ∧ String.utf8EncodeChar p.2 = [b] := by
      decide +kernel
    obtain ⟨hu, b, hb, hchar⟩ := hshort _ he
    rw [List.cons_append, List.cons_append, List.nil_append, unescape.eq_def]
    simp only [ne_eq, not_true_eq_false, if_false, hu, not_false_eq_true, if_true, hb, hchar,
      Option.bind_eq_bind, Option.bind_some]
    rfl
  | code ht =>
    obtain ⟨h1, h2, h3, h4, rfl, hcode, -, -⟩ := isHex4_cases ht
    have hval : c.val.toNat = c.toNat := rfl
    have hvalid := c.valid
    rw [UInt32.isValidChar, Nat.isValidChar, hval] at hvalid
    simp only [List.cons_append, List.nil_append]
    rw [unescape.eq_def]
    simp only [ne_eq, not_true_eq_false, if_false, hcode]
    rw [if_neg (by omega), if_neg (by omega), utf8Bytes_toNat]
  | @pair c hi lo t t' hhi hlo ht ht' hc =>
    obtain ⟨h1, h2, h3, h4, rfl, hcode, -, -⟩ := isHex4_cases ht
    obtain ⟨l1, l2, l3, l4, rfl, hcode', -, -⟩ := isHex4_cases ht'
    have hpoint : 0x10000 + hi % 0x400 * 0x400 + lo % 0x400 = c.toNat := by omega
    simp only [List.cons_append, List.nil_append]
    rw [unescape.eq_def]
    simp only [ne_eq, not_true_eq_false, if_false, hcode, hcode', or_self]
    rw [if_neg (by omega), if_pos (by omega), if_neg (by omega), hpoint, utf8Bytes_toNat]

/-- `parse_string` reads a string up to its first NUL. -/
theorem parseString_isString {s : List Char} {t : List UInt8} (h : IsString s t)
    (rest : List UInt8) : parseString (t ++ rest) = some (.ofBuffer (utf8 s), rest) := by
  obtain ⟨body, hbody, rfl⟩ := h
  have hclose : closingQuote (body ++ ascii '"' :: rest) = some (body, rest) := by
    induction hbody with
    | nil => exact closingQuote_quote rest
    | cons hc hs ih =>
      rw [List.append_assoc, closingQuote_isChar hc, ih]
      rfl
  have hunescape : unescape body = some (utf8 s) := by
    clear hclose
    induction hbody with
    | nil => rfl
    | cons hc hs ih =>
      rw [unescape_isChar hc, ih]
      rfl
  rw [List.cons_append, List.cons_append, List.append_assoc, List.singleton_append, parseString,
    if_pos rfl, hclose]
  simp only [Option.bind_eq_bind, Option.bind_some, hunescape]

/-- Only the character zero has a NUL in its encoding. -/
theorem zero_mem_utf8_iff {s : List Char} : 0 ∈ utf8 s ↔ '\x00' ∈ s := by
  rw [utf8, List.mem_flatMap]
  constructor
  · rintro ⟨c, hc, hzero⟩
    exact eq_of_ascii_mem_utf8EncodeChar (d := '\x00') (by decide) hzero ▸ hc
  · intro h
    exact ⟨_, h, by decide⟩

end Strings

section Representable

/-- The bytes of a C string are the encoding of no character zero. -/
private theorem zero_not_mem_of_bytes {s : CStr} {t : List Char} (h : s.bytes = utf8 t) :
    '\x00' ∉ t := by
  rw [← zero_mem_utf8_iff, ← h]
  exact s.noNul

mutual

/-- What a tree represents can be represented. -/
theorem Represents.expressible : {json : CJson} → {v : JsonValue} → Represents json v →
    Expressible v
  | .null, .null, _ | .bool _, .bool _, _ => trivial
  | .number _, .number _, h => Binary64.NearestTo.isFinite_ofRat h
  | .string _, .string _, h => zero_not_mem_of_bytes h
  | .array _, .array _, h => RepresentsElements.expressible h
  | .object _, .object _, h => RepresentsMembers.expressible h

theorem RepresentsElements.expressible : {ys : List CJson} → {xs : List JsonValue} →
    RepresentsElements ys xs → ExpressibleElements xs
  | [], [], _ => trivial
  | _ :: _, _ :: _, h => ⟨h.1.expressible, RepresentsElements.expressible h.2⟩

theorem RepresentsMembers.expressible : {ns : Members} → {ms : List (List Char × JsonValue)} →
    RepresentsMembers ns ms → ExpressibleMembers ms
  | [], [], _ => trivial
  | (_, _) :: _, (_, _) :: _, h =>
    ⟨zero_not_mem_of_bytes h.1, h.2.1.expressible, RepresentsMembers.expressible h.2.2⟩

end

/-- A string without the character zero is represented by what is read of it. -/
theorem bytes_ofBuffer_utf8 {s : List Char} (h : '\x00' ∉ s) : (CStr.ofBuffer (utf8 s)).bytes = utf8 s :=
  CStr.ofBuffer_of_noNul fun hzero ↦ h (zero_mem_utf8_iff.mp hzero)

end Representable

section Numbers
variable {r : ℚ} {t rest : List UInt8}

/-- A character of a numeral is no white space and no punctuation. -/
private theorem numeralChar_punct {c : UInt8} (h : numeralChar c = true) :
    32 < c ∧ c ≠ ascii ',' ∧ c ≠ ascii ']' ∧ c ≠ ascii '}' := by
  simp only [numeralChar, Bool.or_eq_true, Bool.and_eq_true, decide_eq_true_eq, beq_iff_eq] at h
  rcases h with ((((⟨hlo, hhi⟩ | rfl) | rfl) | rfl) | rfl) | rfl
  · refine ⟨UInt8.lt_of_lt_of_le (by decide) hlo, ?_, ?_, ?_⟩
    · rintro rfl
      exact absurd hlo (by decide)
    · rintro rfl
      exact absurd hhi (by decide)
    · rintro rfl
      exact absurd hhi (by decide)
  all_goals decide

/-- `parse_number` gives the first 63 characters of a number to `strtod`. -/
theorem parseNumber_isNumber (ht : IsNumber r t) (hrest : ∀ c ∈ rest.head?, numeralChar c = false) :
    parseNumber (t ++ rest) = (strtod (t.take 63)).map fun (d, left) ↦
      (.number d, (t ++ rest).drop ((t.take 63).length - left.length)) := by
  have hstop : rest.takeWhile numeralChar = [] := by
    cases rest with
    | nil => rfl
    | cons c rest => rw [List.takeWhile_cons_of_neg (by rw [hrest c rfl]; decide)]
  have hspan : (t ++ rest).takeWhile numeralChar = t := by
    rw [List.takeWhile_append_of_pos ht.numeralChar, hstop, List.append_nil]
  rw [parseNumber, hspan]

/-- A short number is read completely, and of a longer one a character is left. -/
theorem parseNumber_read (ht : IsNumber r t) (hr : (Binary64.ofRat r).IsFinite)
    (hrest : ∀ c ∈ rest.head?, numeralChar c = false) {json : CJson} {s : List UInt8}
    (h : parseNumber (t ++ rest) = some (json, s)) :
    s = rest ∧ Represents json (.number r) ∨ ∃ c ∈ s.head?, numeralChar c = true := by
  rw [parseNumber_isNumber ht hrest] at h
  by_cases hlen : t.length ≤ 63
  · left
    obtain ⟨neg, x, e, he, -, rfl, rfl⟩ := ht
    rw [List.take_of_length_le hlen, strtod_isNumeral neg he] at h
    cases h
    refine ⟨?_, x.nearestTo_toBinary64 neg hr⟩
    rw [List.length_nil, Nat.sub_zero, List.drop_left]
  · right
    obtain ⟨⟨d, left⟩, -, hs⟩ := Option.map_eq_some_iff.mp h
    cases hs
    have hdrop : (t.take 63).length - left.length < t.length := by
      rw [List.length_take]
      omega
    generalize (t.take 63).length - left.length = k at *
    rw [List.drop_append_of_le_length hdrop.le]
    obtain ⟨c, u, hu⟩ := List.exists_cons_of_ne_nil
      (show t.drop k ≠ [] by rw [ne_eq, List.drop_eq_nil_iff]; omega)
    refine ⟨c, by rw [hu]; rfl, ht.numeralChar c (List.mem_of_mem_drop (i := k) ?_)⟩
    rw [hu]
    exact List.mem_cons_self

/-- A number is read by `parse_number`. -/
theorem parseValue_isNumber (ht : IsNumber r t) (limit : Nat) (rest : List UInt8) :
    parseValue limit (t ++ rest) = parseNumber (t ++ rest) := by
  have hdigit : ∀ n : Fin 10, (digitByte n ≠ ascii '[' ∧ digitByte n ≠ ascii '{') ∧
      (digitByte n ≠ ascii 'n' ∧ digitByte n ≠ ascii 'f' ∧ digitByte n ≠ ascii 't') ∧
      digitByte n ≠ ascii '"' ∧ 48 ≤ digitByte n ∧ digitByte n ≤ 57 := by decide
  obtain ⟨c, s, rfl, hc⟩ := ht.head
  rw [List.cons_append]
  rcases hc with rfl | ⟨n, rfl⟩
  · rw [parseValue_eq_parseScalar (by decide), parseScalar_of_ne (by decide), if_neg (by decide),
      if_pos (.inl rfl)]
  · obtain ⟨h1, h2, h3, h4⟩ := hdigit n
    rw [parseValue_eq_parseScalar h1, parseScalar_of_ne h2, if_neg h3, if_pos (.inr h4)]

end Numbers

section Loops
variable {value : List UInt8 → Option (CJson × List UInt8)} {f : Nat} {s rest : List UInt8}

/-- What the first round of the loop over elements reads, and what follows that. -/
theorem parseElements_cases {ys : List CJson} (h : parseElements value f s = some (ys, rest)) :
    ∃ g item left, f = g + 1 ∧ value (skipWhitespace s) = some (item, left) ∧
      ((skipWhitespace left = ascii ']' :: rest ∧ ys = [item]) ∨
        ∃ after items, skipWhitespace left = ascii ',' :: after ∧
          parseElements value g after = some (items, rest) ∧ ys = item :: items) := by
  cases f with
  | zero => cases h
  | succ g =>
    obtain ⟨⟨item, left⟩, hitem, h⟩ := Option.bind_eq_some_iff.mp h
    refine ⟨g, item, left, rfl, hitem, ?_⟩
    dsimp only at h
    split at h
    · cases h
    · next c after hafter =>
      split at h
      · next hc =>
        obtain ⟨⟨items, last⟩, hitems, hsame⟩ := Option.map_eq_some_iff.mp h
        cases hsame
        exact .inr ⟨after, items, by rw [hafter, hc], hitems, rfl⟩
      · split at h
        · next hc =>
          cases h
          exact .inl ⟨by rw [hafter, hc], rfl⟩
        · cases h

/-- What the first round of the loop over members reads, and what follows that. -/
theorem parseMembers_cases {ns : Members} (h : parseMembers value f s = some (ns, rest)) :
    ∃ g name t u item left, f = g + 1 ∧ parseString (skipWhitespace s) = some (name, t) ∧
      dropPrefix [ascii ':'] (skipWhitespace t) = some u ∧
      value (skipWhitespace u) = some (item, left) ∧
      ((skipWhitespace left = ascii '}' :: rest ∧ ns = [(name, item)]) ∨
        ∃ after members, skipWhitespace left = ascii ',' :: after ∧
          parseMembers value g after = some (members, rest) ∧ ns = (name, item) :: members) := by
  cases f with
  | zero => cases h
  | succ g =>
    obtain ⟨⟨name, t⟩, hname, h⟩ := Option.bind_eq_some_iff.mp h
    obtain ⟨u, hcolon, h⟩ := Option.bind_eq_some_iff.mp h
    obtain ⟨⟨item, left⟩, hitem, h⟩ := Option.bind_eq_some_iff.mp h
    refine ⟨g, name, t, u, item, left, rfl, hname, hcolon, hitem, ?_⟩
    dsimp only at h
    split at h
    · cases h
    · next c after hafter =>
      split at h
      · next hc =>
        obtain ⟨⟨members, last⟩, hmembers, hsame⟩ := Option.map_eq_some_iff.mp h
        cases hsame
        exact .inr ⟨after, members, by rw [hafter, hc], hmembers, rfl⟩
      · split at h
        · next hc =>
          cases h
          exact .inl ⟨by rw [hafter, hc], rfl⟩
        · cases h

end Loops

/-- What a tree is read from ends where its text does, or after some characters of a numeral. -/
private theorem read_then_punct {s b rest : List UInt8} {P Q : Prop} {e : UInt8} (hb : Blank b)
    (he : 32 < e) {c : UInt8} {u : List UInt8}
    (h : s = b ++ e :: rest ∧ P ∨ Q ∧ ∃ c ∈ s.head?, numeralChar c = true)
    (hs : skipWhitespace s = c :: u) (hc : c = ascii ',' ∨ c = ascii ']' ∨ c = ascii '}') :
    P ∧ c = e ∧ u = rest := by
  rcases h with ⟨rfl, hP⟩ | ⟨-, d, hd, hnum⟩
  · rw [skipWhitespace_punct hb he] at hs
    cases hs
    exact ⟨hP, rfl, rfl⟩
  · -- The parsers of lists refuse what is left of a numeral.
    obtain ⟨hlt, h1, h2, h3⟩ := numeralChar_punct hnum
    cases s with
    | nil => cases hd
    | cons d' s =>
      cases hd
      rw [skipWhitespace_cons hlt] at hs
      cases hs
      rcases hc with rfl | rfl | rfl
      · exact absurd rfl h1
      · exact absurd rfl h2
      · exact absurd rfl h3

private theorem skipWhitespace_spelled {v : JsonValue} {a u : List UInt8} (ha : Blank a)
    (hu : Spelled v u) (s : List UInt8) : skipWhitespace (a ++ (u ++ s)) = u ++ s := by
  obtain ⟨c, r, rfl, hc, -⟩ := hu.head
  rw [List.cons_append, skipWhitespace_punct ha hc]

private theorem skipWhitespace_isString {n : List Char} {a u : List UInt8} (ha : Blank a)
    (hu : IsString n u) (s : List UInt8) : skipWhitespace (a ++ (u ++ s)) = u ++ s :=
  skipWhitespace_spelled (v := .string n) ha hu s

mutual

/-- From the text of a value is read a tree that represents it, if any; of a long number it may
be another tree, but then a part of the number is left. -/
theorem parseValue_spelled : (v : JsonValue) → Expressible v → {t : List UInt8} → Spelled v t →
    (limit : Nat) → (rest : List UInt8) → (∀ c ∈ rest.head?, numeralChar c = false) →
    {json : CJson} → {s : List UInt8} → parseValue limit (t ++ rest) = some (json, s) →
    s = rest ∧ Represents json v ∨ (∃ r, v = .number r) ∧ ∃ c ∈ s.head?, numeralChar c = true
  | .null, _, t, ht, limit, rest, _, json, s, h => by
    obtain rfl : t = text "null" := ht
    rw [show text "null" ++ rest = ascii 'n' :: (text "ull" ++ rest) from rfl,
      parseValue_eq_parseScalar (by decide)] at h
    cases h
    exact .inl ⟨rfl, trivial⟩
  | .bool b, _, t, ht, limit, rest, _, json, s, h => by
    obtain rfl : t = if b then text "true" else text "false" := ht
    cases b with
    | true =>
      rw [if_pos rfl, show text "true" ++ rest = ascii 't' :: (text "rue" ++ rest) from rfl,
        parseValue_eq_parseScalar (by decide)] at h
      cases h
      exact .inl ⟨rfl, rfl⟩
    | false =>
      rw [if_neg Bool.false_ne_true,
        show text "false" ++ rest = ascii 'f' :: (text "alse" ++ rest) from rfl,
        parseValue_eq_parseScalar (by decide)] at h
      cases h
      exact .inl ⟨rfl, rfl⟩
  | .number r, hr, t, ht, limit, rest, hrest, json, s, h => by
    rw [parseValue_isNumber ht limit rest] at h
    exact (parseNumber_read ht hr hrest h).imp_right fun hleft ↦ ⟨⟨r, rfl⟩, hleft⟩
  | .string str, hstr, t, ht, limit, rest, _, json, s, h => by
    have hread := parseString_isString ht rest
    obtain ⟨body, -, rfl⟩ := ht
    rw [List.cons_append, List.cons_append] at hread h
    rw [parseValue_eq_parseScalar (by decide), parseScalar_of_ne (by decide), if_pos rfl,
      hread] at h
    cases h
    exact .inl ⟨rfl, bytes_ofBuffer_utf8 hstr⟩
  | .array xs, hxs, t, ht, limit, rest, _, json, s, h => by
    obtain ⟨body, hbody, rfl⟩ := ht
    rw [List.cons_append, List.cons_append, List.append_assoc, List.singleton_append] at h
    cases limit with
    | zero =>
      rw [show parseValue 0 _ = parseScalar _ from rfl, parseScalar_bracket (.inl rfl)] at h
      cases h
    | succ limit =>
      rw [parseValue, if_pos rfl, parseArray] at h
      cases xs with
      | nil =>
        rw [skipWhitespace_punct hbody (by decide)] at h
        cases h
        exact .inl ⟨rfl, trivial⟩
      | cons x xs =>
        have hnone : dropPrefix [ascii ']'] (skipWhitespace (body ++ ascii ']' :: rest)) = none := by
          obtain ⟨a, u, b, ha, hu, hb, hs⟩ := hbody
          obtain ⟨r, hr⟩ : ∃ r, body ++ ascii ']' :: rest = a ++ (u ++ r) := by
            split at hs
            · exact ⟨b ++ ascii ']' :: rest, by simp [hs]⟩
            · obtain ⟨s', -, rfl⟩ := hs
              exact ⟨b ++ ascii ',' :: s' ++ ascii ']' :: rest, by simp⟩
          rw [hr, skipWhitespace_spelled ha hu]
          obtain ⟨c, r', rfl, -, -, hc, -⟩ := hu.head
          exact dropPrefix_of_ne hc
        rw [hnone] at h
        obtain ⟨⟨ys, s'⟩, hys, hsame⟩ := Option.map_eq_some_iff.mp h
        cases hsame
        exact .inl (parseElements_spelled (x :: xs) (by simp) hxs hbody limit _ rest hys)
  | .object ms, hms, t, ht, limit, rest, _, json, s, h => by
    obtain ⟨body, hbody, rfl⟩ := ht
    rw [List.cons_append, List.cons_append, List.append_assoc, List.singleton_append] at h
    cases limit with
    | zero =>
      rw [show parseValue 0 _ = parseScalar _ from rfl, parseScalar_bracket (.inr rfl)] at h
      cases h
    | succ limit =>
      rw [parseValue, if_neg (by decide), if_pos rfl, parseObject] at h
      cases ms with
      | nil =>
        rw [skipWhitespace_punct hbody (by decide)] at h
        cases h
        exact .inl ⟨rfl, trivial⟩
      | cons m ms =>
        have hnone : dropPrefix [ascii '}'] (skipWhitespace (body ++ ascii '}' :: rest)) = none := by
          obtain ⟨a, n, b, c, u, d, ha, hn, -, -, -, -, hs⟩ := hbody
          obtain ⟨r, hr⟩ : ∃ r, body ++ ascii '}' :: rest = a ++ (n ++ r) := by
            split at hs
            · exact ⟨b ++ ascii ':' :: c ++ u ++ d ++ ascii '}' :: rest, by simp [hs]⟩
            · obtain ⟨s', -, rfl⟩ := hs
              exact ⟨b ++ ascii ':' :: c ++ u ++ d ++ ascii ',' :: s' ++ ascii '}' :: rest, by simp⟩
          rw [hr, skipWhitespace_isString ha hn]
          obtain ⟨_, -, rfl⟩ := hn
          exact dropPrefix_of_ne (by decide)
        rw [hnone] at h
        obtain ⟨⟨ns, s'⟩, hns, hsame⟩ := Option.map_eq_some_iff.mp h
        cases hsame
        exact .inl (parseMembers_spelled (m :: ms) (by simp) hms hbody limit _ rest hns)

theorem parseElements_spelled : (xs : List JsonValue) → xs ≠ [] → ExpressibleElements xs →
    {t : List UInt8} → SpelledElements xs t → (limit f : Nat) → (rest : List UInt8) →
    {ys : List CJson} → {s : List UInt8} →
    parseElements (parseValue limit) f (t ++ ascii ']' :: rest) = some (ys, s) →
    s = rest ∧ RepresentsElements ys xs
  | [], h, _, _, _, _, _, _, _, _, _ => absurd rfl h
  | x :: xs, _, ⟨hx, hxs⟩, t, ht, limit, f, rest, ys, s, h => by
    obtain ⟨g, item, left, rfl, hitem, hnext⟩ := parseElements_cases h
    obtain ⟨a, u, b, ha, hu, hb, ht⟩ := ht
    by_cases hnil : xs = []
    · rw [if_pos hnil] at ht
      subst hnil ht
      simp only [List.append_assoc, skipWhitespace_spelled ha hu] at hitem
      have hread := parseValue_spelled x hx hu limit (b ++ ascii ']' :: rest)
        (numeralChar_blank_append hb (by decide)) hitem
      rcases hnext with ⟨hclose, rfl⟩ | ⟨after, items, hcomma, -⟩
      · obtain ⟨hitem, -, hend⟩ := read_then_punct hb (by decide) hread hclose (.inr (.inl rfl))
        exact ⟨hend, hitem, trivial⟩
      · obtain ⟨-, hsame, -⟩ := read_then_punct hb (by decide) hread hcomma (.inl rfl)
        cases hsame
    · rw [if_neg hnil] at ht
      obtain ⟨t', ht', rfl⟩ := ht
      simp only [List.append_assoc, List.cons_append, skipWhitespace_spelled ha hu] at hitem
      have hread := parseValue_spelled x hx hu limit (b ++ ascii ',' :: (t' ++ ascii ']' :: rest))
        (numeralChar_blank_append hb (by decide)) hitem
      rcases hnext with ⟨hclose, -⟩ | ⟨after, items, hcomma, hitems, rfl⟩
      · obtain ⟨-, hsame, -⟩ := read_then_punct hb (by decide) hread hclose (.inr (.inl rfl))
        cases hsame
      · obtain ⟨hitem, -, rfl⟩ := read_then_punct hb (by decide) hread hcomma (.inl rfl)
        obtain ⟨hlast, hrest⟩ := parseElements_spelled xs hnil hxs ht' limit g rest hitems
        exact ⟨hlast, hitem, hrest⟩

theorem parseMembers_spelled : (ms : List (List Char × JsonValue)) → ms ≠ [] →
    ExpressibleMembers ms → {t : List UInt8} → SpelledMembers ms t → (limit f : Nat) →
    (rest : List UInt8) → {ns : Members} → {s : List UInt8} →
    parseMembers (parseValue limit) f (t ++ ascii '}' :: rest) = some (ns, s) →
    s = rest ∧ RepresentsMembers ns ms
  | [], h, _, _, _, _, _, _, _, _, _ => absurd rfl h
  | (name, x) :: ms, _, ⟨hname, hx, hms⟩, t, ht, limit, f, rest, ns, s, h => by
    obtain ⟨g, str, v, w, item, left, rfl, hstr, hcolon, hitem, hnext⟩ := parseMembers_cases h
    obtain ⟨a, n, b, c, u, d, ha, hn, hb, hc, hu, hd, ht⟩ := ht
    have hpunct (s : List UInt8) :
        dropPrefix [ascii ':'] (skipWhitespace (b ++ ascii ':' :: s)) = some s := by
      rw [skipWhitespace_punct hb (by decide)]
      rfl
    by_cases hnil : ms = []
    · rw [if_pos hnil] at ht
      subst hnil ht
      simp only [List.append_assoc, List.cons_append, skipWhitespace_isString ha hn,
        parseString_isString hn] at hstr
      cases hstr
      rw [hpunct] at hcolon
      cases hcolon
      rw [skipWhitespace_spelled hc hu] at hitem
      have hread := parseValue_spelled x hx hu limit (d ++ ascii '}' :: rest)
        (numeralChar_blank_append hd (by decide)) hitem
      rcases hnext with ⟨hclose, rfl⟩ | ⟨after, members, hcomma, -⟩
      · obtain ⟨hitem, -, hend⟩ := read_then_punct hd (by decide) hread hclose (.inr (.inr rfl))
        exact ⟨hend, bytes_ofBuffer_utf8 hname, hitem, trivial⟩
      · obtain ⟨-, hsame, -⟩ := read_then_punct hd (by decide) hread hcomma (.inl rfl)
        cases hsame
    · rw [if_neg hnil] at ht
      obtain ⟨t', ht', rfl⟩ := ht
      simp only [List.append_assoc, List.cons_append, skipWhitespace_isString ha hn,
        parseString_isString hn] at hstr
      cases hstr
      rw [hpunct] at hcolon
      cases hcolon
      rw [skipWhitespace_spelled hc hu] at hitem
      have hread := parseValue_spelled x hx hu limit (d ++ ascii ',' :: (t' ++ ascii '}' :: rest))
        (numeralChar_blank_append hd (by decide)) hitem
      rcases hnext with ⟨hclose, -⟩ | ⟨after, members, hcomma, hmembers, rfl⟩
      · obtain ⟨-, hsame, -⟩ := read_then_punct hd (by decide) hread hclose (.inr (.inr rfl))
        cases hsame
      · obtain ⟨hitem, -, rfl⟩ := read_then_punct hd (by decide) hread hcomma (.inl rfl)
        obtain ⟨hlast, hrest⟩ := parseMembers_spelled ms hnil hms ht' limit g rest hmembers
        exact ⟨hlast, bytes_ofBuffer_utf8 hname, hitem, hrest⟩

end

/-- What `cJSON_Parse` makes of the text of a value. -/
theorem parse_spelled {v : JsonValue} {a u b : List UInt8} (ha : Blank a) (hu : Spelled v u)
    (hb : Blank b) {value : CStr} (hvalue : value.bytes = a ++ (u ++ b)) :
    (∀ c ∈ b.head?, numeralChar c = false) ∧
      parse value = (parseValue nestingLimit (u ++ b)).map (·.1) := by
  have hend : ∀ c ∈ b.head?, numeralChar c = false := by
    intro c hc
    rcases hb c (List.mem_of_mem_head? hc) with rfl | rfl | rfl | rfl <;> decide
  refine ⟨hend, ?_⟩
  have hskip := skipWhitespace_spelled ha hu b
  obtain ⟨c, r, rfl, -, hascii, -⟩ := hu.head
  rw [parse, hvalue, List.cons_append, skipUtf8Bom_ascii ha hascii, ← List.cons_append, hskip]

/-- Where `cJSON_Parse` returns a tree, it represents the value of the text, and the text is that
of a value, exactly if the text keeps its value. -/
theorem exists_represents_iff {value : CStr} {json : CJson} (h : parse value = some json) :
    (∃ v, IsJsonText v value.bytes ∧ Represents json v) ↔ KeepsValue value := by
  constructor
  · rintro ⟨v, ⟨a, u, b, ha, hu, hb, hvalue⟩, hrep⟩
    refine ⟨v, a, u, b, ha, hu, hb, hvalue, hrep.expressible, ?_⟩
    rintro r rfl d left hread
    obtain ⟨hend, hparse⟩ := parse_spelled ha hu hb hvalue
    rw [parseValue_isNumber hu, parseNumber_isNumber hu hend, hread, h] at hparse
    cases hparse
    exact hrep
  · rintro ⟨v, a, u, b, ha, hu, hb, hvalue, hv, hlone⟩
    refine ⟨v, ⟨a, u, b, ha, hu, hb, hvalue⟩, ?_⟩
    obtain ⟨hend, hparse⟩ := parse_spelled ha hu hb hvalue
    obtain ⟨⟨json', s⟩, hread, hsame⟩ := Option.map_eq_some_iff.mp (hparse.symm.trans h)
    cases hsame
    rcases parseValue_spelled v hv hu nestingLimit b hend hread with ⟨-, hrep⟩ | ⟨⟨r, rfl⟩, -⟩
    · exact hrep
    · rw [parseValue_isNumber hu, parseNumber_isNumber hu hend] at hread
      obtain ⟨⟨d, left⟩, hd, hsame⟩ := Option.map_eq_some_iff.mp hread
      cases hsame
      exact hlone r rfl d left hd

end LedaSdk.Json
