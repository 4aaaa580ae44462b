import LedaSdk.Base.JsonText
import LedaSdk.Json.PrintCalls
import LedaSdk.Json.RoundTrip

/-!
# Texts with white space

The text of a tree with white space wherever JSON permits some. `cJSON_Parse` reads the
tree from every such text, and what `cJSON_Print` writes is one.
-/

namespace LedaSdk.Json
open LedaSdk.Base

mutual

/-- The text of a value, with white space between its parts. -/
def Spaced : CJson → List UInt8 → Prop
  | .array xs, t => ∃ s, SpacedElements xs s ∧ t = ascii '[' :: s ++ [ascii ']']
  | .object ms, t => ∃ s, SpacedMembers ms s ∧ t = ascii '{' :: s ++ [ascii '}']
  | v, t => t = v.render

/-- The text between the brackets of an array. -/
def SpacedElements : List CJson → List UInt8 → Prop
  | [], t => Blank t
  | x :: xs, t => ∃ a u b, Blank a ∧ Spaced x u ∧ Blank b ∧
      if xs = [] then t = a ++ u ++ b
      else ∃ s, SpacedElements xs s ∧ t = a ++ u ++ b ++ ascii ',' :: s

/-- The text between the braces of an object. -/
def SpacedMembers : Members → List UInt8 → Prop
  | [], t => Blank t
  | (name, item) :: ms, t => ∃ a b c u d, Blank a ∧ Blank b ∧ Blank c ∧ Spaced item u ∧ Blank d ∧
      if ms = [] then t = a ++ quoted name ++ b ++ ascii ':' :: c ++ u ++ d
      else ∃ s, SpacedMembers ms s ∧
        t = a ++ quoted name ++ b ++ ascii ':' :: c ++ u ++ d ++ ascii ',' :: s

end

section Blanks
variable {a s : List UInt8}

/-- White space is skipped. -/
theorem skipWhitespace_blank (ha : Blank a) (s : List UInt8) :
    skipWhitespace (a ++ s) = skipWhitespace s := by
  refine List.dropWhile_append_of_pos fun c hc ↦ ?_
  rcases ha c hc with rfl | rfl | rfl | rfl <;> decide

/-- A text that white space or punctuation follows is not continued by a number. -/
theorem numeralChar_blank_append (ha : Blank a) {c : UInt8} (hc : numeralChar c = false) :
    ∀ e ∈ (a ++ c :: s).head?, numeralChar e = false := by
  cases a with
  | nil =>
    intro e he
    obtain rfl : c = e := by simpa using he
    exact hc
  | cons b a =>
    intro e he
    obtain rfl : b = e := by simpa using he
    rcases ha b List.mem_cons_self with rfl | rfl | rfl | rfl <;> decide

end Blanks

/-- Such a text begins with a character that is no white space and closes no bracket. -/
theorem Spaced.head {v : CJson} {t : List UInt8} (h : Spaced v t) (hv : v.Finite) :
    ∃ c s, t = c :: s ∧ 32 < c ∧ c < 128 ∧ c ≠ ascii ']' ∧ c ≠ ascii '}' := by
  cases v with
  | array xs =>
    obtain ⟨s, -, rfl⟩ := h
    exact ⟨_, _, rfl, by decide⟩
  | object ms =>
    obtain ⟨s, -, rfl⟩ := h
    exact ⟨_, _, rfl, by decide⟩
  | null | bool b | number d | string s =>
    rw [show t = _ from h]
    exact render_head _ hv

theorem Spaced.skipWhitespace {v : CJson} {t : List UInt8} (h : Spaced v t) (hv : v.Finite)
    {a : List UInt8} (ha : Blank a) (s : List UInt8) :
    skipWhitespace (a ++ (t ++ s)) = t ++ s := by
  obtain ⟨c, r, rfl, hc, -⟩ := h.head hv
  rw [skipWhitespace_blank ha, List.cons_append, skipWhitespace_cons hc]

/-- White space and then another character. -/
theorem skipWhitespace_punct {a s : List UInt8} (ha : Blank a) {c : UInt8} (hc : 32 < c) :
    skipWhitespace (a ++ c :: s) = c :: s := by
  rw [skipWhitespace_blank ha, skipWhitespace_cons hc]

private theorem skipWhitespace_quoted {a : List UInt8} (ha : Blank a) (name : CStr)
    (s : List UInt8) : skipWhitespace (a ++ (quoted name ++ s)) = quoted name ++ s := by
  rw [skipWhitespace_blank ha, quoted, List.cons_append, skipWhitespace_cons (by decide)]

section Lengths
variable {t : List UInt8}

private theorem length_le_spacedElements : {xs : List CJson} → {t : List UInt8} →
    SpacedElements xs t → FiniteElements xs → xs.length ≤ t.length
  | [], _, _, _ => Nat.zero_le _
  | x :: xs, t, h, ⟨hx, hxs⟩ => by
    obtain ⟨a, u, b, -, hu, -, ht⟩ := h
    obtain ⟨c, r, rfl, -⟩ := hu.head hx
    split at ht
    · next hnil =>
      subst hnil ht
      simp only [List.length_append, List.length_cons, List.length_nil]
      omega
    · obtain ⟨s, hs, rfl⟩ := ht
      have := length_le_spacedElements hs hxs
      simp only [List.length_append, List.length_cons]
      omega

private theorem length_le_spacedMembers : {ms : Members} → {t : List UInt8} →
    SpacedMembers ms t → ms.length ≤ t.length
  | [], _, _ => Nat.zero_le _
  | (name, item) :: ms, t, h => by
    obtain ⟨a, b, c, u, d, -, -, -, -, -, ht⟩ := h
    split at ht
    · next hnil =>
      subst hnil ht
      simp only [List.length_append, List.length_cons, List.length_nil]
      omega
    · obtain ⟨s, hs, rfl⟩ := ht
      have := length_le_spacedMembers hs
      simp only [List.length_append, List.length_cons]
      omega

end Lengths

mutual

/-- A value is read from its text whatever the white space. -/
theorem parseValue_spaced : (v : CJson) → v.Finite → {t : List UInt8} → Spaced v t →
    (limit : Nat) → (rest : List UInt8) → (∀ c ∈ rest.head?, numeralChar c = false) →
    parseValue limit (t ++ rest) = if v.nesting ≤ limit then some (v, rest) else none
  | .null, hv, _, ht, limit, rest, hrest => ht ▸ parseValue_render .null hv limit rest hrest
  | .bool b, hv, _, ht, limit, rest, hrest => ht ▸ parseValue_render (.bool b) hv limit rest hrest
  | .number d, hv, _, ht, limit, rest, hrest =>
    ht ▸ parseValue_render (.number d) hv limit rest hrest
  | .string s, hv, _, ht, limit, rest, hrest =>
    ht ▸ parseValue_render (.string s) hv limit rest hrest
  | .array xs, hxs, t, ht, limit, rest, _ => by
    obtain ⟨s, hs, rfl⟩ := ht
    simp only [CJson.nesting, List.cons_append, List.append_assoc, List.nil_append]
    cases limit with
    | zero => exact parseScalar_bracket (.inl rfl) _
    | succ limit =>
      rw [parseValue, if_pos rfl, parseArray]
      simp only [Nat.add_le_add_iff_right]
      cases xs with
      | nil =>
        rw [skipWhitespace_punct hs (by decide)]
        exact (if_pos (Nat.zero_le limit)).symm
      | cons x xs =>
        have hlen := length_le_spacedElements hs hxs
        have hbody := parseElements_spaced (x :: xs) (by simp) hxs hs limit
          ((s ++ ascii ']' :: rest).length + 1) rest (by rw [List.length_append]; omega)
        have hnone : dropPrefix [ascii ']'] (skipWhitespace (s ++ ascii ']' :: rest)) = none := by
          obtain ⟨a, u, b, ha, hu, hb, hs⟩ := hs
          obtain ⟨r, hr⟩ : ∃ r, s ++ ascii ']' :: rest = a ++ (u ++ r) := by
            split at hs
            · exact ⟨b ++ ascii ']' :: rest, by simp [hs]⟩
            · obtain ⟨s', -, rfl⟩ := hs
              exact ⟨b ++ ascii ',' :: s' ++ ascii ']' :: rest, by simp⟩
          obtain ⟨c, r', rfl, -, -, hc, -⟩ := hu.head hxs.1
          rw [hr, hu.skipWhitespace hxs.1 ha]
          exact dropPrefix_of_ne hc
        simp only [hnone, hbody]
        split <;> rfl
  | .object ms, hms, t, ht, limit, rest, _ => by
    obtain ⟨s, hs, rfl⟩ := ht
    simp only [CJson.nesting, List.cons_append, List.append_assoc, List.nil_append]
    cases limit with
    | zero => exact parseScalar_bracket (.inr rfl) _
    | succ limit =>
      rw [parseValue, if_neg (by decide), if_pos rfl, parseObject]
      simp only [Nat.add_le_add_iff_right]
      cases ms with
      | nil =>
        rw [skipWhitespace_punct hs (by decide)]
        exact (if_pos (Nat.zero_le limit)).symm
      | cons m ms =>
        have hlen := length_le_spacedMembers hs
        have hbody := parseMembers_spaced (m :: ms) (by simp) hms hs limit
          ((s ++ ascii '}' :: rest).length + 1) rest (by rw [List.length_append]; omega)
        have hnone : dropPrefix [ascii '}'] (skipWhitespace (s ++ ascii '}' :: rest)) = none := by
          obtain ⟨a, b, c, u, d, ha, -, -, -, -, hs⟩ := hs
          obtain ⟨r, hr⟩ : ∃ r, s ++ ascii '}' :: rest = a ++ (quoted m.1 ++ r) := by
            split at hs
            · exact ⟨b ++ ascii ':' :: c ++ u ++ d ++ ascii '}' :: rest, by simp [hs]⟩
            · obtain ⟨s', -, rfl⟩ := hs
              exact ⟨b ++ ascii ':' :: c ++ u ++ d ++ ascii ',' :: s' ++ ascii '}' :: rest, by simp⟩
          rw [hr, skipWhitespace_quoted ha]
          exact dropPrefix_of_ne (by decide)
        simp only [hnone, hbody]
        split <;> rfl

theorem parseElements_spaced : (xs : List CJson) → xs ≠ [] → FiniteElements xs →
    {t : List UInt8} → SpacedElements xs t → (limit f : Nat) → (rest : List UInt8) →
    xs.length ≤ f →
    parseElements (parseValue limit) f (t ++ ascii ']' :: rest) =
      if nestingElements xs ≤ limit then some (xs, rest) else none
  | [], h, _, _, _, _, _, _, _ => absurd rfl h
  | x :: xs, _, _, _, _, _, 0, _, hf => absurd hf (by simp)
  | x :: xs, _, ⟨hx, hxs⟩, t, ht, limit, f + 1, rest, hf => by
    obtain ⟨a, u, b, ha, hu, hb, ht⟩ := ht
    by_cases hnil : xs = []
    · rw [if_pos hnil] at ht
      subst hnil ht
      have hitem := parseValue_spaced x hx hu limit (b ++ ascii ']' :: rest)
        (numeralChar_blank_append hb (by decide))
      simp only [List.append_assoc, parseElements, hu.skipWhitespace hx ha, nestingElements,
        Nat.max_zero, hitem]
      split
      · simp only [Option.bind_eq_bind, Option.bind_some, skipWhitespace_punct hb (show 32 < ascii ']' by decide),
          show ascii ']' ≠ ascii ',' by decide, if_false, if_true]
      · rfl
    · rw [if_neg hnil] at ht
      obtain ⟨s, hs, rfl⟩ := ht
      have ih := parseElements_spaced xs hnil hxs hs limit f rest (by simpa using hf)
      have hitem := parseValue_spaced x hx hu limit (b ++ ascii ',' :: (s ++ ascii ']' :: rest))
        (numeralChar_blank_append hb (by decide))
      simp only [List.append_assoc, List.cons_append, parseElements, hu.skipWhitespace hx ha,
        nestingElements, Nat.max_le, hitem]
      split
      · next hle =>
        simp only [Option.bind_eq_bind, Option.bind_some, skipWhitespace_punct hb (show 32 < ascii ',' by decide),
          if_true, ih, hle, true_and]
        split <;> rfl
      · next hgt => rw [if_neg (fun h ↦ hgt h.1)]; rfl

theorem parseMembers_spaced : (ms : Members) → ms ≠ [] → FiniteMembers ms →
    {t : List UInt8} → SpacedMembers ms t → (limit f : Nat) → (rest : List UInt8) →
    ms.length ≤ f →
    parseMembers (parseValue limit) f (t ++ ascii '}' :: rest) =
      if nestingMembers ms ≤ limit then some (ms, rest) else none
  | [], h, _, _, _, _, _, _, _ => absurd rfl h
  | m :: ms, _, _, _, _, _, 0, _, hf => absurd hf (by simp)
  | (name, item) :: ms, _, ⟨hx, hxs⟩, t, ht, limit, f + 1, rest, hf => by
    obtain ⟨a, b, c, u, d, ha, hb, hc, hu, hd, ht⟩ := ht
    have hcolon : ∀ s, dropPrefix [ascii ':'] (skipWhitespace (b ++ ascii ':' :: s)) = some s := by
      intro s
      rw [skipWhitespace_punct hb (by decide)]
      rfl
    by_cases hnil : ms = []
    · rw [if_pos hnil] at ht
      subst hnil ht
      have hitem := parseValue_spaced item hx hu limit (d ++ ascii '}' :: rest)
        (numeralChar_blank_append hd (by decide))
      simp only [List.append_assoc, List.cons_append, parseMembers, skipWhitespace_quoted ha,
        parseString_quoted, Option.bind_eq_bind, Option.bind_some, hcolon,
        hu.skipWhitespace hx hc, nestingMembers, Nat.max_zero, hitem]
      split
      · simp only [Option.bind_some, skipWhitespace_punct hd (show 32 < ascii '}' by decide),
          show ascii '}' ≠ ascii ',' by decide, if_false, if_true]
      · rfl
    · rw [if_neg hnil] at ht
      obtain ⟨s, hs, rfl⟩ := ht
      have ih := parseMembers_spaced ms hnil hxs hs limit f rest (by simpa using hf)
      have hitem := parseValue_spaced item hx hu limit (d ++ ascii ',' :: (s ++ ascii '}' :: rest))
        (numeralChar_blank_append hd (by decide))
      simp only [List.append_assoc, List.cons_append, parseMembers, skipWhitespace_quoted ha,
        parseString_quoted, Option.bind_eq_bind, Option.bind_some, hcolon,
        hu.skipWhitespace hx hc, nestingMembers, Nat.max_le, hitem]
      split
      · next hle =>
        simp only [Option.bind_some, skipWhitespace_punct hd (show 32 < ascii ',' by decide),
          if_true, ih, hle, true_and]
        split <;> rfl
      · next hgt => rw [if_neg (fun h ↦ hgt h.1)]; rfl

end

/-- A text that begins with white space or another ASCII character has no byte order mark. -/
theorem skipUtf8Bom_ascii {a s : List UInt8} (ha : Blank a) {c : UInt8} (hc : c < 128) :
    skipUtf8Bom (a ++ c :: s) = a ++ c :: s := by
  rw [skipUtf8Bom, if_neg]
  rintro ⟨-, h⟩
  cases a with
  | nil =>
    obtain rfl := (List.cons.inj h).1
    exact absurd hc (by decide)
  | cons e a =>
    obtain rfl := (List.cons.inj h).1
    exact absurd (ha _ List.mem_cons_self) (by decide)

/-- `cJSON_ParseWithOpts` reads a tree from its text whatever the white space in it and around
it. -/
theorem parseWithOpts_spaced {v : CJson} (hv : v.Finite) {a t b : List UInt8} (ha : Blank a)
    (ht : Spaced v t) (hb : Blank b) {value : CStr} (hvalue : value.bytes = a ++ (t ++ b))
    (requireNullTerminated : Bool) :
    parseWithOpts value requireNullTerminated =
      if v.nesting ≤ nestingLimit then some v else none := by
  obtain ⟨c, r, rfl, -, hascii, -⟩ := ht.head hv
  have hbom : skipUtf8Bom (a ++ (c :: r ++ b)) = a ++ (c :: r ++ b) := skipUtf8Bom_ascii ha hascii
  have hrest : ∀ e ∈ b.head?, numeralChar e = false := by
    intro e he
    rcases hb e (List.mem_of_mem_head? he) with rfl | rfl | rfl | rfl <;> decide
  have hend : skipWhitespace b = [] := by
    have h := skipWhitespace_blank hb []
    rwa [List.append_nil] at h
  rw [parseWithOpts, hvalue, hbom, ht.skipWhitespace hv ha, parseValue_spaced v hv ht _ _ hrest]
  split
  · simp only [Option.bind_eq_bind, Option.bind_some, hend, ne_eq, not_true_eq_false, and_false,
      if_false]
  · rfl

section Formatted
variable {a t : List UInt8}

private theorem blank_tabs (n : Nat) : Blank (PrintBuffer.tabs n) := by
  intro c hc
  exact .inr (.inl (List.eq_of_mem_replicate hc))

private theorem blank_newline : Blank [10] := by
  intro c hc
  exact .inr (.inr (.inl (List.mem_singleton.mp hc)))

/-- White space before the elements belongs to the first of them. -/
theorem SpacedElements.blank_append {xs : List CJson} (h : SpacedElements xs t) (ha : Blank a) :
    SpacedElements xs (a ++ t) := by
  cases xs with
  | nil => exact Blank.append ha h
  | cons x xs =>
    obtain ⟨a', u, b, ha', hu, hb, ht⟩ := h
    refine ⟨a ++ a', u, b, ha.append ha', hu, hb, ?_⟩
    split
    · next hnil =>
      rw [if_pos hnil] at ht
      simp [ht]
    · next hnil =>
      rw [if_neg hnil] at ht
      obtain ⟨s, hs, rfl⟩ := ht
      exact ⟨s, hs, by simp⟩

/-- White space before the members belongs to the first of them. -/
theorem SpacedMembers.blank_append {ms : Members} (h : SpacedMembers ms t) (ha : Blank a) :
    SpacedMembers ms (a ++ t) := by
  cases ms with
  | nil => exact Blank.append ha h
  | cons m ms =>
    obtain ⟨a', b, c, u, d, ha', hb, hc, hu, hd, ht⟩ := h
    refine ⟨a ++ a', b, c, u, d, ha.append ha', hb, hc, hu, hd, ?_⟩
    split
    · next hnil =>
      rw [if_pos hnil] at ht
      simp [ht]
    · next hnil =>
      rw [if_neg hnil] at ht
      obtain ⟨s, hs, rfl⟩ := ht
      exact ⟨s, hs, by simp⟩

/-- White space behind the members belongs to the last of them. -/
theorem SpacedMembers.append_blank : {ms : Members} → {t : List UInt8} → SpacedMembers ms t →
    Blank a → SpacedMembers ms (t ++ a)
  | [], _, h, ha => Blank.append h ha
  | m :: ms, t, h, ha => by
    obtain ⟨a', b, c, u, d, ha', hb, hc, hu, hd, ht⟩ := h
    by_cases hnil : ms = []
    · rw [if_pos hnil] at ht
      exact ⟨a', b, c, u, d ++ a, ha', hb, hc, hu, hd.append ha, by rw [if_pos hnil]; simp [ht]⟩
    · rw [if_neg hnil] at ht
      obtain ⟨s, hs, rfl⟩ := ht
      exact ⟨a', b, c, u, d, ha', hb, hc, hu, hd,
        by rw [if_neg hnil]; exact ⟨s ++ a, hs.append_blank ha, by simp⟩⟩

end Formatted

mutual

/-- What is printed of a value is a text of it. -/
theorem spaced_renderAt (format : Bool) : (v : CJson) → (depth : Nat) →
    Spaced v (v.renderAt format depth)
  | .null, _ | .bool true, _ | .bool false, _ | .number _, _ | .string _, _ => rfl
  | .array xs, depth => ⟨_, spaced_renderElementsAt format xs (depth + 1), rfl⟩
  | .object ms, depth => by
    have hms := spaced_renderMembersAt format ms (depth + 1)
    cases format with
    | false => exact ⟨_, hms, rfl⟩
    | true =>
      refine ⟨_, (hms.blank_append blank_newline).append_blank (blank_tabs depth), ?_⟩
      simp [CJson.renderAt, PrintBuffer.openBrace, PrintBuffer.closeBrace]

theorem spaced_renderElementsAt (format : Bool) : (xs : List CJson) → (depth : Nat) →
    SpacedElements xs (renderElementsAt format depth xs)
  | [], _ => blank_nil
  | x :: xs, depth => by
    have hx := spaced_renderAt format x depth
    have hxs := spaced_renderElementsAt format xs depth
    refine ⟨[], _, [], blank_nil, hx, blank_nil, ?_⟩
    split
    · next hnil => simp [renderElementsAt, hnil]
    · next hnil =>
      cases format with
      | false => exact ⟨_, hxs, by simp [renderElementsAt, hnil, PrintBuffer.comma]⟩
      | true =>
        have hspace : Blank [ascii ' '] := fun c hc ↦ .inl (List.mem_singleton.mp hc)
        exact ⟨_, hxs.blank_append hspace, by simp [renderElementsAt, hnil, PrintBuffer.comma]⟩

theorem spaced_renderMembersAt (format : Bool) : (ms : Members) → (depth : Nat) →
    SpacedMembers ms (renderMembersAt format depth ms)
  | [], _ => blank_nil
  | (name, item) :: ms, depth => by
    have hitem := spaced_renderAt format item depth
    have hms := spaced_renderMembersAt format ms depth
    have htab : Blank [9] := fun c hc ↦ .inr (.inl (List.mem_singleton.mp hc))
    cases format with
    | false =>
      refine ⟨[], [], [], _, [], blank_nil, blank_nil, blank_nil, hitem, blank_nil, ?_⟩
      split
      · next hnil =>
        subst hnil
        simp [renderMembersAt, PrintBuffer.colon, PrintBuffer.ending]
      · next hnil =>
        exact ⟨_, hms, by simp [renderMembersAt, PrintBuffer.colon, PrintBuffer.ending, hnil]⟩
    | true =>
      by_cases hnil : ms = []
      · refine ⟨_, [], [9], _, [10], blank_tabs depth, blank_nil, htab, hitem, blank_newline, ?_⟩
        subst hnil
        simp [renderMembersAt, PrintBuffer.colon, PrintBuffer.ending]
      · refine ⟨_, [], [9], _, [], blank_tabs depth, blank_nil, htab, hitem, blank_nil, ?_⟩
        rw [if_neg hnil]
        exact ⟨_, hms.blank_append blank_newline,
          by simp [renderMembersAt, PrintBuffer.colon, PrintBuffer.ending, hnil]⟩

end

/-- What `cJSON_Print` or `cJSON_PrintUnformatted` returns is read back as the tree exactly if
the tree is within the nesting limit. -/
theorem parseWithOpts_print {item : CJson} (hitem : item.Finite) {format : Bool}
    {hooks : PrintHooks} {json : List UInt8}
    (h : PrintBuffer.print item format hooks = some (some json)) (requireNullTerminated : Bool) :
    parseWithOpts (.ofBuffer json) requireNullTerminated =
      if item.nesting ≤ nestingLimit then some item else none := by
  obtain ⟨hprint, -⟩ | ⟨hprint, -⟩ := PrintBuffer.print_cases item format hooks
  · have hjson : json = item.renderAt format 0 ++ [0] :=
      (Option.some.inj (Option.some.inj (hprint.symm.trans h))).symm
    have hread : (CStr.ofBuffer json).bytes = [] ++ (item.renderAt format 0 ++ []) := by
      have htext := PrintBuffer.noNul_renderAt format 0 item
      rw [hjson]
      change (item.renderAt format 0 ++ [0]).takeWhile (· ≠ 0) = _
      rw [List.takeWhile_append_of_pos, List.takeWhile_cons_of_neg (by simp)]
      · rfl
      · intro c hc
        rw [decide_eq_true_eq]
        rintro rfl
        exact htext hc
    exact parseWithOpts_spaced hitem blank_nil (spaced_renderAt format item 0) blank_nil hread
      requireNullTerminated
  · cases hprint.symm.trans h

theorem parseWithOpts_print_true :
    parseWithOpts (.ofBuffer (text "true" ++ [0])) true = some (.bool true) := by
  have hprint : PrintBuffer.print (.bool true) true
      ⟨true, some fun _ ↦ 0, fun _ ↦ some fun _ ↦ 0, some fun _ ↦ 0⟩ =
      some (some (text "true" ++ [0])) := by decide +kernel
  have hfinite : (CJson.bool true).Finite := trivial
  exact parseWithOpts_print hfinite hprint true

end LedaSdk.Json
