import LedaSdk.Json.Parse
import LedaSdk.Json.Print

/-!
# The parser undoes the printer

On trees of finite numbers `cJSON_Parse` reads the text of `cJSON_PrintUnformatted` back
exactly if the tree is not nested deeper than `CJSON_NESTING_LIMIT`.
-/

namespace LedaSdk.Json
open LedaSdk.Base

mutual

/-- Number of arrays and objects around the innermost value. -/
def CJson.nesting : CJson → Nat
  | .array xs => nestingElements xs + 1
  | .object ms => nestingMembers ms + 1
  | _ => 0

def nestingElements : List CJson → Nat
  | [] => 0
  | x :: xs => max x.nesting (nestingElements xs)

def nestingMembers : Members → Nat
  | [] => 0
  | (_, item) :: ms => max item.nesting (nestingMembers ms)

end

mutual

/-- No number of the tree is a NaN or an infinity, which JSON cannot express. -/
def CJson.Finite : CJson → Prop
  | .number d => d.IsFinite
  | .array xs => FiniteElements xs
  | .object ms => FiniteMembers ms
  | _ => True

def FiniteElements : List CJson → Prop
  | [] => True
  | x :: xs => x.Finite ∧ FiniteElements xs

def FiniteMembers : Members → Prop
  | [] => True
  | (_, item) :: ms => item.Finite ∧ FiniteMembers ms

end

/-- How a character is printed: as it is, as a short escape sequence or by its code. -/
private theorem escapeByte_cases (c : UInt8) :
    (c ≠ ascii '"' ∧ c ≠ ascii '\\' ∧ escapeByte c = [c]) ∨
      (∃ e, e ≠ ascii 'u' ∧ unescapeChar e = some c ∧ escapeByte c = [ascii '\\', e]) ∨
      (c.toNat < 32 ∧ escapeByte c = [ascii '\\', ascii 'u', ascii '0', ascii '0',
        hexByte (c.toNat / 16), hexByte (c.toNat % 16)]) := by
  rw [escapeByte]
  split
  · next h => exact .inl ⟨h.2.1, h.2.2, rfl⟩
  · next h =>
    right
    split
    · next hc => exact .inl ⟨c, by rcases hc with rfl | rfl <;> decide,
        by rcases hc with rfl | rfl <;> rfl, rfl⟩
    · next hne =>
      split
      · next hc => exact .inl ⟨_, by decide, by rw [hc]; rfl, rfl⟩
      split
      · next hc => exact .inl ⟨_, by decide, by rw [hc]; rfl, rfl⟩
      split
      · next hc => exact .inl ⟨_, by decide, by rw [hc]; rfl, rfl⟩
      split
      · next hc => exact .inl ⟨_, by decide, by rw [hc]; rfl, rfl⟩
      split
      · next hc => exact .inl ⟨_, by decide, by rw [hc]; rfl, rfl⟩
      · refine .inr ⟨?_, rfl⟩
        by_contra hlt
        apply h
        refine ⟨?_, fun h' ↦ hne (.inr h'), fun h' ↦ hne (.inl h')⟩
        rw [UInt8.lt_iff_toNat_lt]
        exact Nat.lt_of_lt_of_le (by decide) (Nat.le_of_not_lt hlt)

private theorem hexByte_spec :
    ∀ n : Fin 16, digitOf 16 (hexByte n) = some n ∧ hexByte n ≠ ascii '"' ∧
      hexByte n ≠ ascii '\\' := by decide

theorem closingQuote_plain {c : UInt8} (s : List UInt8) (h1 : c ≠ ascii '"')
    (h2 : c ≠ ascii '\\') :
    closingQuote (c :: s) = (closingQuote s).map fun (raw, rest) ↦ (c :: raw, rest) := by
  rw [closingQuote.eq_def]
  simp only [h1, h2, if_false]

theorem closingQuote_escape (e : UInt8) (s : List UInt8) :
    closingQuote (ascii '\\' :: e :: s) =
      (closingQuote s).map fun (raw, rest) ↦ (ascii '\\' :: e :: raw, rest) := by
  rw [closingQuote.eq_def]
  simp only [show ascii '\\' ≠ ascii '"' by decide, if_false, if_true]

theorem closingQuote_quote (s : List UInt8) :
    closingQuote (ascii '"' :: s) = some ([], s) := by
  rw [closingQuote.eq_def]
  simp only [if_true]

/-- A printed character is skipped by the search for the closing quotation mark. -/
private theorem closingQuote_escapeByte (c : UInt8) (t : List UInt8) :
    closingQuote (escapeByte c ++ t) =
      (closingQuote t).map fun (raw, rest) ↦ (escapeByte c ++ raw, rest) := by
  rcases escapeByte_cases c with ⟨h1, h2, he⟩ | ⟨e, -, -, he⟩ | ⟨hlt, he⟩
  · rw [he]
    exact closingQuote_plain t h1 h2
  · rw [he]
    exact closingQuote_escape e t
  · have hhi := hexByte_spec ⟨c.toNat / 16, by omega⟩
    have hlo := hexByte_spec ⟨c.toNat % 16, by omega⟩
    rw [he]
    simp only [List.cons_append, List.nil_append]
    rw [closingQuote_escape, closingQuote_plain _ (by decide) (by decide),
      closingQuote_plain _ (by decide) (by decide), closingQuote_plain _ hhi.2.1 hhi.2.2,
      closingQuote_plain _ hlo.2.1 hlo.2.2]
    cases closingQuote t <;> rfl

/-- A printed character is read back. -/
private theorem unescape_escapeByte (c : UInt8) (t : List UInt8) :
    unescape (escapeByte c ++ t) = (unescape t).map (c :: ·) := by
  rcases escapeByte_cases c with ⟨-, h2, he⟩ | ⟨e, hu, hun, he⟩ | ⟨hlt, he⟩
  · rw [he, List.singleton_append, unescape.eq_def]
    simp only [ne_eq, h2, not_false_eq_true, if_true]
  · rw [he, List.cons_append, List.singleton_append, unescape.eq_def]
    simp only [ne_eq, not_true_eq_false, if_false, hu, not_false_eq_true, if_true, hun,
      Option.bind_eq_bind, Option.bind_some]
  · have hhi := (hexByte_spec ⟨c.toNat / 16, by omega⟩).1
    have hlo := (hexByte_spec ⟨c.toNat % 16, by omega⟩).1
    have hcode : parseHex4 (ascii '0') (ascii '0') (hexByte (c.toNat / 16))
        (hexByte (c.toNat % 16)) = c.toNat := by
      rw [parseHex4, hhi, hlo, show digitOf 16 (ascii '0') = some 0 from rfl]
      simp only [ofDigits, List.foldl_cons, List.foldl_nil]
      simp
      omega
    have hbytes : utf8Bytes c.toNat = [c] := by
      rw [utf8Bytes, if_pos (by omega)]
      simp
    rw [he]
    simp only [List.cons_append, List.nil_append]
    rw [unescape.eq_def]
    simp only [ne_eq, not_true_eq_false, if_false, hcode]
    rw [if_neg (by omega), if_neg (by omega), hbytes]
    rfl

/-- A printed string is read back. -/
theorem parseString_quoted (s : CStr) (rest : List UInt8) :
    parseString (quoted s ++ rest) = some (s, rest) := by
  have hclose : ∀ l : List UInt8, closingQuote (l.flatMap escapeByte ++ ascii '"' :: rest) =
      some (l.flatMap escapeByte, rest) := by
    intro l
    induction l with
    | nil => exact closingQuote_quote rest
    | cons c l ih =>
      rw [List.flatMap_cons, List.append_assoc, closingQuote_escapeByte, ih]
      rfl
  have hunescape : ∀ l : List UInt8, unescape (l.flatMap escapeByte) = some l := by
    intro l
    induction l with
    | nil => rfl
    | cons c l ih =>
      rw [List.flatMap_cons, unescape_escapeByte, ih]
      rfl
  rw [quoted, List.cons_append, List.append_assoc, List.singleton_append, parseString, if_pos rfl,
    hclose]
  simp only [Option.bind_eq_bind, Option.bind_some, hunescape, CStr.ofBuffer_bytes]

/-- Reading a finite magnitude keeps the sign, so C equality is equality. -/
private theorem eq_of_strtod {k : Nat} (hk : 0 < k) {neg : Bool} {m : Magnitude} {test : Binary64}
    {left : List UInt8} (h : strtod (gText k (.finite neg m)) = some (test, left))
    (heq : test.eq (.finite neg m) = true) : test = .finite neg m ∧ left = [] := by
  rw [gText, strtod_numeralText neg _ (m.gNumeral_intDigits hk)] at h
  obtain ⟨rfl, rfl⟩ := Prod.mk.inj (Option.some.inj h)
  rw [Numeral.toBinary64, Binary64.ofRatio] at heq ⊢
  split at heq
  · next hlt =>
    rw [dif_pos hlt]
    simp only [Binary64.eq, Binary64.signedUnits, beq_iff_eq] at heq
    refine ⟨?_, rfl⟩
    congr 1
    cases m
    rw [Magnitude.mk.injEq]
    split at heq <;> simpa using heq
  · cases heq

/-- The text of a finite number reads back as the number. -/
theorem strtod_numberText {d : Binary64} (hd : d.IsFinite) :
    strtod (numberText d) = some (d, []) := by
  cases d with
  | nan | inf neg => exact hd.elim
  | finite neg m =>
    rw [numberText]
    split
    · next test left h =>
      split
      · next heq =>
        obtain ⟨rfl, rfl⟩ := eq_of_strtod (by decide) h heq
        exact h
      · exact strtod_gText neg m
    · exact strtod_gText neg m

theorem numeralChar_numberText {d : Binary64} (hd : d.IsFinite) :
    ∀ c ∈ numberText d, numeralChar c = true := by
  cases d with
  | nan | inf neg => exact hd.elim
  | finite neg m =>
    intro c hc
    rw [numberText] at hc
    split at hc
    · split at hc <;> exact numeralChar_gText hc
    · exact numeralChar_gText hc

/-- A finite number is read back when no character of a numeral follows. -/
theorem parseNumber_numberText {d : Binary64} (hd : d.IsFinite) {rest : List UInt8}
    (hrest : ∀ c ∈ rest.head?, numeralChar c = false) :
    parseNumber (numberText d ++ rest) = some (.number d, rest) := by
  have hchars := numeralChar_numberText hd
  have hstop : rest.takeWhile numeralChar = [] := by
    cases rest with
    | nil => rfl
    | cons c rest => rw [List.takeWhile_cons_of_neg (by rw [hrest c rfl]; decide)]
  have hspan : (numberText d ++ rest).takeWhile numeralChar = numberText d := by
    rw [List.takeWhile_append_of_pos hchars, hstop, List.append_nil]
  have hlen := length_numberText_le d
  rw [parseNumber, hspan, List.take_of_length_le (by omega), strtod_numberText hd]
  simp

/-- The text of a finite number begins with a minus sign or a digit. -/
private theorem numberText_head {d : Binary64} (hd : d.IsFinite) :
    ∃ c t, numberText d = c :: t ∧ (c = ascii '-' ∨ ∃ n, c = digitByte n) := by
  cases d with
  | nan | inf neg => exact hd.elim
  | finite neg m =>
    rw [numberText]
    split
    · split
      · exact gText_head (by decide) neg m
      · exact gText_head (by decide) neg m
    · exact gText_head (by decide) neg m

/-- A printed value begins with an ASCII character that is no white space and closes no
bracket. -/
theorem render_head (v : CJson) (hv : v.Finite) :
    ∃ c t, v.render = c :: t ∧ 32 < c ∧ c < 128 ∧ c ≠ ascii ']' ∧ c ≠ ascii '}' := by
  have hdigit : ∀ n : Fin 10, 32 < digitByte n ∧ digitByte n < 128 ∧ digitByte n ≠ ascii ']' ∧
      digitByte n ≠ ascii '}' := by decide
  cases v with
  | bool b =>
    cases b
    · exact ⟨_, _, rfl, by decide⟩
    · exact ⟨_, _, rfl, by decide⟩
  | number d =>
    obtain ⟨c, t, ht, hc⟩ := numberText_head hv
    refine ⟨c, t, ht, ?_⟩
    rcases hc with rfl | ⟨n, rfl⟩
    · decide
    · exact hdigit n
  | null | string s | array xs | object ms => exact ⟨_, _, rfl, by decide⟩

/-- White space is skipped before none of the printed values. -/
private theorem skipWhitespace_render {v : CJson} (hv : v.Finite) (rest : List UInt8) :
    skipWhitespace (v.render ++ rest) = v.render ++ rest := by
  obtain ⟨c, t, ht, hc, -⟩ := render_head v hv
  rw [ht, List.cons_append, skipWhitespace, List.dropWhile_cons_of_neg]
  simpa using hc

/-- A text that opens no bracket is parsed as a scalar at every nesting. -/
theorem parseValue_eq_parseScalar {c : UInt8} {s : List UInt8}
    (hc : c ≠ ascii '[' ∧ c ≠ ascii '{') (limit : Nat) :
    parseValue limit (c :: s) = parseScalar (c :: s) := by
  cases limit with
  | zero => rfl
  | succ limit => rw [parseValue, if_neg hc.1, if_neg hc.2]

/-- A word whose first character differs is not found. -/
theorem dropPrefix_of_ne {w c : UInt8} {ws s : List UInt8} (h : c ≠ w) :
    dropPrefix (w :: ws) (c :: s) = none := by
  rw [dropPrefix, if_neg h]

/-- No word is tried on a text that begins with none of their letters. -/
theorem parseScalar_of_ne {c : UInt8} {s : List UInt8}
    (hc : c ≠ ascii 'n' ∧ c ≠ ascii 'f' ∧ c ≠ ascii 't') :
    parseScalar (c :: s) =
      if c = ascii '"' then (parseString (c :: s)).map fun (string, rest) ↦ (.string string, rest)
      else if c = ascii '-' ∨ (48 ≤ c ∧ c ≤ 57) then parseNumber (c :: s)
      else none := by
  have hnull : dropPrefix (text "null") (c :: s) = none := dropPrefix_of_ne hc.1
  have hfalse : dropPrefix (text "false") (c :: s) = none := dropPrefix_of_ne hc.2.1
  have htrue : dropPrefix (text "true") (c :: s) = none := dropPrefix_of_ne hc.2.2
  unfold parseScalar
  rw [hnull, hfalse, htrue]

/-- An array or object is refused when no nesting is left. -/
theorem parseScalar_bracket {c : UInt8} (hc : c = ascii '[' ∨ c = ascii '{')
    (s : List UInt8) : parseScalar (c :: s) = none := by
  rcases hc with rfl | rfl
  · exact parseScalar_of_ne (by decide)
  · exact parseScalar_of_ne (by decide)

private theorem parseValue_string (limit : Nat) (s : CStr) (rest : List UInt8) :
    parseValue limit (quoted s ++ rest) = some (.string s, rest) := by
  have h := parseString_quoted s rest
  rw [quoted, List.cons_append] at h ⊢
  rw [parseValue_eq_parseScalar (by decide), parseScalar_of_ne (by decide), if_pos rfl, h]
  rfl

private theorem parseValue_number (limit : Nat) {d : Binary64} (hd : d.IsFinite)
    {rest : List UInt8} (hrest : ∀ c ∈ rest.head?, numeralChar c = false) :
    parseValue limit (numberText d ++ rest) = some (.number d, rest) := by
  have hdigit : ∀ n : Fin 10, (digitByte n ≠ ascii '[' ∧ digitByte n ≠ ascii '{') ∧
      (digitByte n ≠ ascii 'n' ∧ digitByte n ≠ ascii 'f' ∧ digitByte n ≠ ascii 't') ∧
      digitByte n ≠ ascii '"' ∧ 48 ≤ digitByte n ∧ digitByte n ≤ 57 := by decide
  have h := parseNumber_numberText hd hrest
  obtain ⟨c, t, ht, hc⟩ := numberText_head hd
  rw [ht, List.cons_append] at h ⊢
  rcases hc with rfl | ⟨n, rfl⟩
  · rw [parseValue_eq_parseScalar (by decide), parseScalar_of_ne (by decide), if_neg (by decide),
      if_pos (.inl rfl), h]
  · obtain ⟨h1, h2, h3, h4⟩ := hdigit n
    rw [parseValue_eq_parseScalar h1, parseScalar_of_ne h2, if_neg h3, if_pos (.inr h4), h]

private theorem length_le_renderElements :
    (xs : List CJson) → FiniteElements xs → xs.length ≤ (renderElements xs).length
  | [], _ => Nat.zero_le _
  | x :: xs, ⟨hx, hxs⟩ => by
    obtain ⟨c, t, ht, -⟩ := render_head x hx
    have := length_le_renderElements xs hxs
    rw [renderElements, ht]
    split
    · next h => simp [h]
    · simp only [List.length_append, List.length_cons]
      omega

private theorem length_le_renderMembers (ms : Members) : ms.length ≤ (renderMembers ms).length := by
  induction ms with
  | nil => exact Nat.zero_le _
  | cons m ms ih =>
    rw [renderMembers]
    split
    · next h => simp [h, quoted]
    · simp only [List.length_append, List.length_cons]
      omega

theorem skipWhitespace_cons {c : UInt8} {s : List UInt8} (hc : 32 < c) :
    skipWhitespace (c :: s) = c :: s := by
  rw [skipWhitespace, List.dropWhile_cons_of_neg]
  simpa using hc

mutual

/-- A printed value is read back exactly if it is not nested too deeply. -/
theorem parseValue_render : (v : CJson) → v.Finite → (limit : Nat) → (rest : List UInt8) →
    (∀ c ∈ rest.head?, numeralChar c = false) →
    parseValue limit (v.render ++ rest) = if v.nesting ≤ limit then some (v, rest) else none
  | .null, _, limit, _, _ =>
    (parseValue_eq_parseScalar (by decide) limit).trans (if_pos (Nat.zero_le _)).symm
  | .bool true, _, limit, _, _ =>
    (parseValue_eq_parseScalar (by decide) limit).trans (if_pos (Nat.zero_le _)).symm
  | .bool false, _, limit, _, _ =>
    (parseValue_eq_parseScalar (by decide) limit).trans (if_pos (Nat.zero_le _)).symm
  | .number _, hd, limit, _, hrest =>
    (parseValue_number limit hd hrest).trans (if_pos (Nat.zero_le _)).symm
  | .string s, _, limit, rest, _ =>
    (parseValue_string limit s rest).trans (if_pos (Nat.zero_le _)).symm
  | .array xs, hxs, limit, rest, _ => by
    simp only [CJson.render, CJson.nesting, List.cons_append, List.append_assoc, List.nil_append]
    cases limit with
    | zero => exact parseScalar_bracket (.inl rfl) _
    | succ limit =>
      rw [parseValue, if_pos rfl, parseArray]
      simp only [Nat.add_le_add_iff_right]
      by_cases hnil : xs = []
      · subst hnil
        exact (if_pos (Nat.zero_le limit)).symm
      · have hlen := length_le_renderElements xs hxs
        have hbody := parseElements_render xs hnil hxs limit
          ((renderElements xs ++ ascii ']' :: rest).length + 1) rest
          (by rw [List.length_append]; omega)
        have hnone : dropPrefix [ascii ']']
            (skipWhitespace (renderElements xs ++ ascii ']' :: rest)) = none := by
          cases xs with
          | nil => exact absurd rfl hnil
          | cons x xs =>
            obtain ⟨c, t, ht, -, -, hc, -⟩ := render_head x hxs.1
            rw [renderElements, List.append_assoc, skipWhitespace_render hxs.1, ht]
            exact dropPrefix_of_ne hc
        simp only [hnone, hbody]
        split <;> rfl
  | .object ms, hms, limit, rest, _ => by
    simp only [CJson.render, CJson.nesting, List.cons_append, List.append_assoc, List.nil_append]
    cases limit with
    | zero => exact parseScalar_bracket (.inr rfl) _
    | succ limit =>
      rw [parseValue, if_neg (by decide), if_pos rfl, parseObject]
      simp only [Nat.add_le_add_iff_right]
      by_cases hnil : ms = []
      · subst hnil
        exact (if_pos (Nat.zero_le limit)).symm
      · have hlen := length_le_renderMembers ms
        have hbody := parseMembers_render ms hnil hms limit
          ((renderMembers ms ++ ascii '}' :: rest).length + 1) rest
          (by rw [List.length_append]; omega)
        have hnone : dropPrefix [ascii '}']
            (skipWhitespace (renderMembers ms ++ ascii '}' :: rest)) = none := by
          cases ms with
          | nil => exact absurd rfl hnil
          | cons m ms =>
            simp only [renderMembers, quoted, List.cons_append]
            rw [skipWhitespace_cons (by decide)]
            exact dropPrefix_of_ne (by decide)
        simp only [hnone, hbody]
        split <;> rfl

theorem parseElements_render : (xs : List CJson) → xs ≠ [] → FiniteElements xs →
    (limit f : Nat) → (rest : List UInt8) → xs.length ≤ f →
    parseElements (parseValue limit) f (renderElements xs ++ ascii ']' :: rest) =
      if nestingElements xs ≤ limit then some (xs, rest) else none
  | [], h, _, _, _, _, _ => absurd rfl h
  | x :: xs, _, ⟨hx, hxs⟩, limit, 0, rest, hf => absurd hf (by simp)
  | x :: xs, _, ⟨hx, hxs⟩, limit, f + 1, rest, hf => by
    rw [renderElements, List.append_assoc, parseElements, skipWhitespace_render hx]
    by_cases hnil : xs = []
    · rw [if_pos hnil, List.nil_append, parseValue_render x hx limit _ (by simp; decide)]
      subst hnil
      simp only [nestingElements, Nat.max_zero]
      split
      · simp only [Option.bind_eq_bind, Option.bind_some, skipWhitespace_cons (show 32 < ascii ']' by decide),
          show ascii ']' ≠ ascii ',' by decide, if_false, if_true]
      · rfl
    · have ih := parseElements_render xs hnil hxs limit f rest (by simpa using hf)
      rw [if_neg hnil, List.cons_append, parseValue_render x hx limit _ (by simp; decide)]
      simp only [nestingElements, Nat.max_le]
      split
      · next hle =>
        simp only [Option.bind_eq_bind, Option.bind_some, skipWhitespace_cons (show 32 < ascii ',' by decide),
          if_true, ih, hle, true_and]
        split <;> rfl
      · next hgt => rw [if_neg (fun h ↦ hgt h.1)]; rfl

theorem parseMembers_render : (ms : Members) → ms ≠ [] → FiniteMembers ms →
    (limit f : Nat) → (rest : List UInt8) → ms.length ≤ f →
    parseMembers (parseValue limit) f (renderMembers ms ++ ascii '}' :: rest) =
      if nestingMembers ms ≤ limit then some (ms, rest) else none
  | [], h, _, _, _, _, _ => absurd rfl h
  | m :: ms, _, _, limit, 0, rest, hf => absurd hf (by simp)
  | (name, item) :: ms, _, ⟨hx, hxs⟩, limit, f + 1, rest, hf => by
    have hname : ∀ t, skipWhitespace (quoted name ++ t) = quoted name ++ t := by
      intro t
      rw [quoted, List.cons_append, skipWhitespace_cons (by decide)]
    have hcolon : ∀ t, dropPrefix [ascii ':'] (skipWhitespace (ascii ':' :: t)) = some t := by
      intro t
      rw [skipWhitespace_cons (by decide)]
      rfl
    rw [renderMembers, List.append_assoc, List.append_assoc, parseMembers, hname,
      parseString_quoted, List.cons_append]
    simp only [Option.bind_eq_bind, Option.bind_some, hcolon, skipWhitespace_render hx]
    by_cases hnil : ms = []
    · rw [if_pos hnil, List.nil_append, parseValue_render item hx limit _ (by simp; decide)]
      subst hnil
      simp only [nestingMembers, Nat.max_zero]
      split
      · simp only [Option.bind_some, skipWhitespace_cons (show 32 < ascii '}' by decide),
          show ascii '}' ≠ ascii ',' by decide, if_false, if_true]
      · rfl
    · have ih := parseMembers_render ms hnil hxs limit f rest (by simpa using hf)
      rw [if_neg hnil, List.cons_append, parseValue_render item hx limit _ (by simp; decide)]
      simp only [nestingMembers, Nat.max_le]
      split
      · next hle =>
        simp only [Option.bind_some, skipWhitespace_cons (show 32 < ascii ',' by decide), if_true,
          ih, hle, true_and]
        split <;> rfl
      · next hgt => rw [if_neg (fun h ↦ hgt h.1)]; rfl

end

/-- `cJSON_Parse` reads what `cJSON_PrintUnformatted` wrote exactly within the nesting
limit. -/
theorem parse_renderStr {v : CJson} (hv : v.Finite) :
    parse v.renderStr = if v.nesting ≤ nestingLimit then some v else none := by
  obtain ⟨c, t, ht, hlo, hhi, -⟩ := render_head v hv
  have hbom : skipUtf8Bom v.render = v.render := by
    rw [skipUtf8Bom, if_neg]
    rintro ⟨-, h⟩
    rw [ht, List.take_succ_cons] at h
    obtain rfl := (List.cons.inj h).1
    exact absurd hhi (by decide)
  have hskip := skipWhitespace_render hv []
  have hparse := parseValue_render v hv nestingLimit [] (by simp)
  rw [List.append_nil] at hskip hparse
  rw [parse, CJson.renderStr, hbom, hskip, hparse]
  split <;> rfl

mutual

/-- The value with `null` in the place of each number that is not finite, as it is printed. -/
def CJson.nullify : CJson → CJson
  | .number (.finite neg m) => .number (.finite neg m)
  | .number _ => .null
  | .array xs => .array (nullifyElements xs)
  | .object ms => .object (nullifyMembers ms)
  | .null => .null
  | .bool b => .bool b
  | .string s => .string s

def nullifyElements : List CJson → List CJson
  | [] => []
  | x :: xs => x.nullify :: nullifyElements xs

def nullifyMembers : Members → Members
  | [] => []
  | (name, item) :: ms => (name, item.nullify) :: nullifyMembers ms

end

mutual

/-- Printing does not tell a number that is not finite from `null`. -/
theorem render_nullify : (v : CJson) → v.nullify.render = v.render
  | .null | .bool _ | .string _ => rfl
  | .number d => by cases d <;> rfl
  | .array xs => by rw [CJson.nullify, CJson.render, CJson.render, renderElements_nullify xs]
  | .object ms => by rw [CJson.nullify, CJson.render, CJson.render, renderMembers_nullify ms]

theorem renderElements_nullify : (xs : List CJson) →
    renderElements (nullifyElements xs) = renderElements xs
  | [] => rfl
  | x :: xs => by
    have hnil : nullifyElements xs = [] ↔ xs = [] := by cases xs <;> simp [nullifyElements]
    simp only [nullifyElements, renderElements, render_nullify x, renderElements_nullify xs, hnil]

theorem renderMembers_nullify : (ms : Members) → renderMembers (nullifyMembers ms) = renderMembers ms
  | [] => rfl
  | (name, item) :: ms => by
    have hnil : nullifyMembers ms = [] ↔ ms = [] := by cases ms <;> simp [nullifyMembers]
    simp only [nullifyMembers, renderMembers, render_nullify item, renderMembers_nullify ms, hnil]

end

mutual

theorem finite_nullify : (v : CJson) → v.nullify.Finite
  | .null | .bool _ | .string _ => trivial
  | .number d => by cases d <;> trivial
  | .array xs => finiteElements_nullify xs
  | .object ms => finiteMembers_nullify ms

theorem finiteElements_nullify : (xs : List CJson) → FiniteElements (nullifyElements xs)
  | [] => trivial
  | x :: xs => ⟨finite_nullify x, finiteElements_nullify xs⟩

theorem finiteMembers_nullify : (ms : Members) → FiniteMembers (nullifyMembers ms)
  | [] => trivial
  | (_, item) :: ms => ⟨finite_nullify item, finiteMembers_nullify ms⟩

end

/-- Exactly the finite values within the nesting limit are read back from their text. -/
theorem parse_renderStr_eq_iff (v : CJson) :
    parse v.renderStr = some v ↔ v.Finite ∧ v.nesting ≤ nestingLimit := by
  constructor
  · intro h
    have hstr : v.renderStr = v.nullify.renderStr := CStr.ext (render_nullify v).symm
    have hparse := parse_renderStr (finite_nullify v)
    rw [← hstr, h] at hparse
    split at hparse
    · next hle =>
      have hv : v = v.nullify := Option.some.inj hparse
      rw [← hv] at hle
      exact ⟨hv ▸ finite_nullify v, hle⟩
    · cases hparse
  · rintro ⟨hfin, hle⟩
    rw [parse_renderStr hfin, if_pos hle]

end LedaSdk.Json
