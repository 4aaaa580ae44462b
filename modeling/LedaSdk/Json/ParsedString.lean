import LedaSdk.Json.ParseBuffer

/-!
# Strings read in a buffer

`parse_string` allocates one byte for each character between the quotation marks that does
not begin an escape sequence, and two. The search for the closing quotation mark knows where
these begin; the loop that reads them does not: after `\u` it takes four characters that are
no hexadecimal digits for the code zero, the first of an escape sequence among them, and may
even take the closing quotation mark for the rest of one. What it writes fits all the same.
-/

namespace LedaSdk.Json
open LedaSdk.Base

namespace ParseBuffer

/-- The part of the string from the offset on. -/
def Rest (bytes : List UInt8) (p : ParseBuffer) (s : List UInt8) : Prop :=
  ∃ front, bytes = front ++ s ∧ p.offset = front.length

section Positions
variable {bytes s : List UInt8} {p : ParseBuffer}

theorem Rest.drop (h : Rest bytes p s) : (bytes ++ [0]).drop p.offset = s ++ [0] := by
  obtain ⟨front, rfl, ho⟩ := h
  rw [ho, List.append_assoc, List.drop_left]

theorem Rest.get (h : Rest bytes p s) (i : Nat) :
    (bytes ++ [0])[p.offset + i]? = (s ++ [0])[i]? := by
  rw [← List.getElem?_drop, h.drop]

theorem Rest.get_zero (h : Rest bytes p s) : (bytes ++ [0])[p.offset]? = (s ++ [0])[0]? := h.get 0

theorem Rest.length (h : Rest bytes p s) : p.offset + s.length = bytes.length := by
  obtain ⟨front, rfl, ho⟩ := h
  rw [ho, List.length_append]

/-- The offset moves over a text. -/
theorem Rest.advance {w : List UInt8} (h : Rest bytes p (w ++ s)) :
    Rest bytes (p.advance w.length) s := by
  obtain ⟨front, rfl, ho⟩ := h
  exact ⟨front ++ w, (List.append_assoc front w s).symm, by
    rw [List.length_append, ← ho]
    rfl⟩

theorem Rest.advance_one {c : UInt8} (h : Rest bytes p (c :: s)) : Rest bytes (p.advance 1) s :=
  Rest.advance (w := [c]) h

/-- The offset moves back. -/
theorem Rest.retreat (h : Rest bytes p s) (hpos : 0 < p.offset) :
    ∃ c, Rest bytes p.retreat (c :: s) := by
  obtain ⟨front, rfl, ho⟩ := h
  obtain ⟨front', c, rfl⟩ := (List.eq_nil_or_concat front).resolve_left (by
    rintro rfl
    rw [ho] at hpos
    exact absurd hpos (by decide))
  refine ⟨c, front', by simp, ?_⟩
  rw [ParseBuffer.retreat, ho]
  simp

/-- White space is skipped up to the NUL. -/
theorem Rest.skipWhitespace (h : Rest bytes p s) :
    Rest bytes (skipWhitespace (bytes ++ [0]) p) (Json.skipWhitespace s) := by
  have hlen := h.length
  have hsplit := List.takeWhile_append_dropWhile (p := fun c : UInt8 ↦ decide (c ≤ 32)) (l := s)
  have hdrop := h.drop
  obtain ⟨front, rfl, ho⟩ := h
  refine ⟨front ++ s.takeWhile fun c ↦ decide (c ≤ 32), ?_, ?_⟩
  · rw [List.append_assoc, Json.skipWhitespace, hsplit]
  · have hcount := congrArg List.length hsplit
    rw [List.length_append] at hcount
    rw [ParseBuffer.skipWhitespace, hdrop, List.takeWhile_append]
    dsimp only
    split
    · next hall =>
      have hnul : [(0 : UInt8)].takeWhile (fun c ↦ decide (c ≤ 32)) = [0] := rfl
      rw [hnul, if_pos (by simp only [List.length_append, List.length_singleton]; omega)]
      simp only [List.length_append, List.length_singleton]
      omega
    · next hsome =>
      rw [if_neg (by simp only [List.length_append, List.length_singleton]; omega), ho,
        List.length_append]

theorem Rest.atChar_iff {c : UInt8} (h : Rest bytes p s) (hc : c ≠ 0) :
    AtChar (bytes ++ [0]) c p ↔ ∃ t, s = c :: t := by
  rw [AtChar, h.get_zero]
  cases s with
  | nil => simp [Ne.symm hc]
  | cons e s => simp

theorem dropPrefix_append (w s : List UInt8) : dropPrefix w (w ++ s) = some s := by
  induction w with
  | nil => rfl
  | cons c w ih => rw [List.cons_append, dropPrefix, if_pos rfl, ih]

/-- A word at the offset is one at the front of the text. -/
theorem Rest.atWord_iff {w : List UInt8} (h : Rest bytes p s) (hw : 0 ∉ w) :
    AtWord (bytes ++ [0]) w p ↔ ∃ t, s = w ++ t := by
  have hlen := h.length
  rw [AtWord, h.drop, List.length_append, List.length_singleton]
  constructor
  · rintro ⟨hle, htake⟩
    have hshort : w.length ≤ s.length := by
      by_contra hlong
      have hall : (s ++ [0]).take w.length = s ++ [0] :=
        List.take_of_length_le (by rw [List.length_append, List.length_singleton]; omega)
      rw [hall] at htake
      exact hw (htake ▸ by simp)
    rw [List.take_append_of_le_length hshort] at htake
    exact ⟨s.drop w.length, by rw [← htake, List.length_take, Nat.min_eq_left hshort, htake,
      ← htake, List.length_take, Nat.min_eq_left hshort, List.take_append_drop]⟩
  · rintro ⟨t, rfl⟩
    rw [List.length_append] at hlen
    exact ⟨by omega, by rw [List.append_assoc, List.take_left]⟩

end Positions

/-- The characters that do not begin an escape sequence; `escaped` says that one began before
the first. -/
def room : (escaped : Bool) → List UInt8 → Nat
  | _, [] => 0
  | true, _ :: t => 1 + room false t
  | false, c :: t => if c = ascii '\\' then room true t else 1 + room false t

theorem room_cons_of_ne {c : UInt8} (hc : c ≠ ascii '\\') (escaped : Bool) (t : List UInt8) :
    room escaped (c :: t) = 1 + room false t := by
  cases escaped with
  | true => rw [room]
  | false => rw [room, if_neg hc]

/-- Of two characters at least one counts. -/
theorem room_cons_cons (escaped : Bool) (c d : UInt8) (t : List UInt8) :
    ∃ escaped', 1 + room escaped' t ≤ room escaped (c :: d :: t) := by
  cases escaped with
  | true =>
    rw [room, room]
    split
    · exact ⟨true, le_rfl⟩
    · exact ⟨false, by omega⟩
  | false =>
    rw [room]
    split
    · exact ⟨false, by rw [room]⟩
    · rw [room]
      split
      · exact ⟨true, le_rfl⟩
      · exact ⟨false, by omega⟩

theorem room_drop (escaped : Bool) (t : List UInt8) (n : Nat) (h : 2 * n ≤ t.length) :
    ∃ escaped', n + room escaped' (t.drop (2 * n)) ≤ room escaped t := by
  induction n generalizing escaped t with
  | zero => exact ⟨escaped, by rw [Nat.mul_zero, List.drop_zero]; omega⟩
  | succ n ih =>
    match t, h with
    | c :: d :: t, h =>
      obtain ⟨escaped', hpair⟩ := room_cons_cons escaped c d t
      obtain ⟨escaped'', hrest⟩ := ih escaped' t (by simp only [List.length_cons] at h; omega)
      refine ⟨escaped'', ?_⟩
      change n + 1 + room escaped'' (t.drop (2 * n)) ≤ _
      omega

theorem length_utf8Bytes_le (codepoint : Nat) : (utf8Bytes codepoint).length ≤ 4 := by
  rw [utf8Bytes]
  dsimp only
  split_ifs <;> simp

theorem length_utf8Bytes_le_three {codepoint : Nat} (h : codepoint < 0x10000) :
    (utf8Bytes codepoint).length ≤ 3 := by
  rw [utf8Bytes]
  dsimp only
  split_ifs <;> simp

theorem parseHex4_lt (a b c d : UInt8) : parseHex4 a b c d < 0x10000 := by
  rw [parseHex4]
  split
  · next a b c d _ _ _ _ =>
    have := a.isLt
    have := b.isLt
    have := c.isLt
    have := d.isLt
    simp only [ofDigits, List.foldl_cons, List.foldl_nil]
    omega
  · decide

section Strings
variable {content : List UInt8}

theorem getElem?_of_drop {i : Nat} {s : List UInt8} (h : content.drop i = s) (k : Nat) :
    content[i + k]? = s[k]? := by
  rw [← List.getElem?_drop, h]

theorem parseHex4At_of_drop {i k : Nat} {s t : List UInt8} {a b c d : UInt8}
    (h : content.drop i = s) (ht : s.drop k = a :: b :: c :: d :: t) :
    parseHex4At content (i + k) = some (parseHex4 a b c d) := by
  have hall : content.drop (i + k) = a :: b :: c :: d :: t := by rw [← List.drop_drop, h, ht]
  have h0 := getElem?_of_drop hall 0
  have h1 := getElem?_of_drop hall 1
  have h2 := getElem?_of_drop hall 2
  have h3 := getElem?_of_drop hall 3
  rw [Nat.add_zero] at h0
  rw [parseHex4At, h0, h1, h2, h3]
  rfl

/-- A `\u` sequence is read as in a text, inside the string, and needs at most half of its
characters. -/
theorem utf16LiteralToUtf8_reads {input : Nat} {t q : List UInt8}
    (h : content.drop input = ascii '\\' :: ascii 'u' :: (t ++ q)) :
    ∃ r, utf16LiteralToUtf8 content input (input + (t.length + 2)) = some r ∧ match r with
      | none => unescape (ascii '\\' :: ascii 'u' :: t) = none
      | some (sequenceLength, bytes) => ∃ n, sequenceLength = 2 * n ∧ 0 < n ∧ bytes.length ≤ n ∧
          2 * n ≤ t.length + 2 ∧ unescape (ascii '\\' :: ascii 'u' :: t) =
            (unescape ((ascii '\\' :: ascii 'u' :: t).drop (2 * n))).map (bytes ++ ·) := by
  rw [utf16LiteralToUtf8, Nat.add_sub_cancel_left]
  rcases t with _ | ⟨h1, _ | ⟨h2, _ | ⟨h3, _ | ⟨h4, t⟩⟩⟩⟩
  · exact ⟨none, rfl, rfl⟩
  · exact ⟨none, rfl, rfl⟩
  · exact ⟨none, rfl, rfl⟩
  · exact ⟨none, rfl, rfl⟩
  rw [if_neg (by simp only [List.length_cons]; omega), parseHex4At_of_drop h rfl]
  simp only [Option.bind_eq_bind, Option.bind_some]
  rw [unescape.eq_def]
  simp only [ne_eq, not_true_eq_false, if_false]
  have hcode := parseHex4_lt h1 h2 h3 h4
  generalize parseHex4 h1 h2 h3 h4 = firstCode at hcode ⊢
  split
  · exact ⟨none, rfl, rfl⟩
  split
  · by_cases hshort : t.length < 6
    · refine ⟨none, by rw [if_pos (by simp only [List.length_cons]; omega)], ?_⟩
      rcases t with _ | ⟨b, _ | ⟨u, _ | ⟨l1, _ | ⟨l2, _ | ⟨l3, _ | ⟨l4, t⟩⟩⟩⟩⟩⟩ <;> try rfl
      simp only [List.length_cons] at hshort
      omega
    · rw [if_neg (by simp only [List.length_cons]; omega)]
      match t, Nat.le_of_not_lt hshort with
      | b :: u :: l1 :: l2 :: l3 :: l4 :: t, _ =>
        rw [getElem?_of_drop h 6, getElem?_of_drop h 7, parseHex4At_of_drop h rfl]
        simp only [List.cons_append, List.getElem?_cons_succ, List.getElem?_cons_zero,
          Option.bind_some]
        split
        · exact ⟨none, rfl, rfl⟩
        split
        · exact ⟨none, rfl, rfl⟩
        · refine ⟨some (12, _), rfl, 6, rfl, by decide,
            (length_utf8Bytes_le _).trans (by decide), ?_, rfl⟩
          simp only [List.length_cons]
          omega
  · refine ⟨some (6, utf8Bytes firstCode), rfl, 3, rfl, by decide,
      length_utf8Bytes_le_three hcode, ?_, rfl⟩
    simp only [List.length_cons]
    omega

section Steps
variable {inputEnd fuel input written : Nat} {output : List UInt8}

theorem unescapeLoop_end (h : ¬input < inputEnd) :
    unescapeLoop content inputEnd (fuel + 1) input output written =
      some (.ok (output, written)) := by
  rw [unescapeLoop, if_neg h]

variable (h : input < inputEnd)
include h

theorem unescapeLoop_char {c : UInt8} (hc : content[input]? = some c) (hback : c ≠ ascii '\\') :
    unescapeLoop content inputEnd (fuel + 1) input output written =
      (Block.memcpy output written [c]).bind fun output ↦
        unescapeLoop content inputEnd fuel (input + 1) output (written + 1) := by
  rw [unescapeLoop, if_pos h, hc, Option.bind_eq_bind, Option.bind_some, if_pos hback]
  rfl

variable (hc : content[input]? = some (ascii '\\'))
include hc

theorem unescapeLoop_escape {e b : UInt8} (he : content[input + 1]? = some e)
    (hu : e ≠ ascii 'u') (hb : unescapeChar e = some b) :
    unescapeLoop content inputEnd (fuel + 1) input output written =
      (Block.memcpy output written [b]).bind fun output ↦
        unescapeLoop content inputEnd fuel (input + 2) output (written + 1) := by
  rw [unescapeLoop, if_pos h, hc, Option.bind_eq_bind, Option.bind_some, if_neg (not_not_intro rfl),
    he, Option.bind_eq_bind, Option.bind_some, if_pos hu]
  simp only [hb]

theorem unescapeLoop_escape_none {e : UInt8} (he : content[input + 1]? = some e)
    (hu : e ≠ ascii 'u') (hb : unescapeChar e = none) :
    unescapeLoop content inputEnd (fuel + 1) input output written = some (.error input) := by
  rw [unescapeLoop, if_pos h, hc, Option.bind_eq_bind, Option.bind_some, if_neg (not_not_intro rfl),
    he, Option.bind_eq_bind, Option.bind_some, if_pos hu, hb]

variable (hu : content[input + 1]? = some (ascii 'u'))
include hu

theorem unescapeLoop_literal {sequenceLength : Nat} {bytes : List UInt8}
    (hl : utf16LiteralToUtf8 content input inputEnd = some (some (sequenceLength, bytes))) :
    unescapeLoop content inputEnd (fuel + 1) input output written =
      (Block.memcpy output written bytes).bind fun output ↦
        unescapeLoop content inputEnd fuel (input + sequenceLength) output
          (written + bytes.length) := by
  rw [unescapeLoop, if_pos h, hc, Option.bind_eq_bind, Option.bind_some, if_neg (not_not_intro rfl),
    hu, Option.bind_eq_bind, Option.bind_some, if_neg (not_not_intro rfl), hl]
  rfl

theorem unescapeLoop_literal_none (hl : utf16LiteralToUtf8 content input inputEnd = some none) :
    unescapeLoop content inputEnd (fuel + 1) input output written = some (.error input) := by
  rw [unescapeLoop, if_pos h, hc, Option.bind_eq_bind, Option.bind_some, if_neg (not_not_intro rfl),
    hu, Option.bind_eq_bind, Option.bind_some, if_neg (not_not_intro rfl), hl]
  rfl

end Steps

/-- The loop of `parse_string` from `input` on reads the characters `t` in every block that has
room for them: it fails, or it appends to what is written, as the text `t` is read. -/
def LoopReads (content : List UInt8) (inputEnd fuel input : Nat) (t : List UInt8)
    (r : Except Nat (List UInt8)) : Prop :=
  (∀ (escaped : Bool) (u output : List UInt8), u <+: output →
    u.length + room escaped t + 2 ≤ output.length →
    match r with
    | .error i => unescapeLoop content inputEnd fuel input output u.length = some (.error i)
    | .ok w => ∃ output', unescapeLoop content inputEnd fuel input output u.length =
        some (.ok (output', u.length + w.length)) ∧ (u ++ w) <+: output' ∧
          u.length + w.length < output'.length) ∧
  match r with
  | .error _ => unescape t = none
  | .ok w => unescape t = some w

/-- One character or one escape sequence. -/
theorem LoopReads.step {inputEnd fuel input n : Nat} {t : List UInt8}
    {r : Except Nat (List UInt8)} (bytes : List UInt8)
    (h : LoopReads content inputEnd fuel (input + n) (t.drop n) r)
    (hstep : ∀ output written, unescapeLoop content inputEnd (fuel + 1) input output written =
      (Block.memcpy output written bytes).bind fun output ↦
        unescapeLoop content inputEnd fuel (input + n) output (written + bytes.length))
    (hroom : ∀ escaped, ∃ escaped', bytes.length + room escaped' (t.drop n) ≤ room escaped t)
    (hunescape : unescape t = (unescape (t.drop n)).map (bytes ++ ·)) :
    LoopReads content inputEnd (fuel + 1) input t (r.map (bytes ++ ·)) := by
  obtain ⟨hloop, htext⟩ := h
  refine ⟨?_, ?_⟩
  · intro escaped u output hu hfit
    obtain ⟨escaped', hless⟩ := hroom escaped
    obtain ⟨output', hcopy, hlen, hpre⟩ := Block.memcpy_append (t := bytes) hu (by omega)
    have hnext := hloop escaped' (u ++ bytes) output' hpre (by rw [List.length_append]; omega)
    rw [List.length_append] at hnext
    cases r with
    | error i =>
      change _ = some (Except.error i)
      rw [hstep, hcopy, Option.bind_some]
      exact hnext
    | ok w =>
      obtain ⟨output'', hrest, hpre', hlt⟩ := hnext
      refine ⟨output'', ?_, ?_, ?_⟩
      · rw [hstep, hcopy, Option.bind_some, hrest, List.length_append, Nat.add_assoc]
      · rwa [List.append_assoc] at hpre'
      · rwa [List.length_append, ← Nat.add_assoc]
  · rw [hunescape]
    cases r with
    | error i =>
      rw [htext]
      rfl
    | ok w =>
      rw [htext]
      rfl

theorem LoopReads.fail {inputEnd fuel input : Nat} {t : List UInt8}
    (hloop : ∀ output written,
      unescapeLoop content inputEnd fuel input output written = some (.error input))
    (hunescape : unescape t = none) : LoopReads content inputEnd fuel input t (.error input) :=
  ⟨fun _ _ _ _ _ ↦ hloop _ _, hunescape⟩

private theorem unescape_cons {c : UInt8} (hc : c ≠ ascii '\\') (t : List UInt8) :
    unescape (c :: t) = (unescape t).map ([c] ++ ·) := by
  rw [unescape.eq_def]
  simp only [ne_eq, hc, not_false_eq_true, if_true]
  rfl

private theorem unescape_escape {e : UInt8} (he : e ≠ ascii 'u') (t : List UInt8) :
    unescape (ascii '\\' :: e :: t) = (unescapeChar e).bind fun b ↦
      (unescape t).map ([b] ++ ·) := by
  rw [unescape.eq_def]
  simp only [ne_eq, not_true_eq_false, if_false, he, not_false_eq_true, if_true]
  rfl

/-- The loop stays inside the block and ends. -/
theorem unescapeLoop_reads {inputEnd : Nat} {q : List UInt8} (fuel : Nat) {input : Nat}
    {t : List UInt8} (h : content.drop input = t ++ ascii '"' :: q)
    (hend : inputEnd = input + t.length) (hfuel : t.length < fuel) :
    ∃ r, LoopReads content inputEnd fuel input t r := by
  induction fuel generalizing input t with
  | zero => omega
  | succ fuel ih =>
    have hnext : ∀ n, 0 < n → n ≤ t.length →
        ∃ r, LoopReads content inputEnd fuel (input + n) (t.drop n) r := by
      intro n hpos hn
      apply ih
      · rw [← List.drop_drop, h, List.drop_append_of_le_length hn]
      · rw [List.length_drop]
        omega
      · rw [List.length_drop]
        omega
    have hget := getElem?_of_drop h
    cases t with
    | nil =>
      refine ⟨.ok [], ?_, rfl⟩
      intro escaped u output hu hfit
      refine ⟨output, ?_, by rwa [List.append_nil], by rw [List.length_nil]; omega⟩
      rw [unescapeLoop, if_neg (by rw [hend, List.length_nil]; omega)]
      rfl
    | cons c t =>
      have hlt : input < inputEnd := by
        rw [hend, List.length_cons]
        omega
      have hc : content[input]? = some c := hget 0
      by_cases hback : c = ascii '\\'
      swap
      · obtain ⟨r, hr⟩ := hnext 1 (by decide) (by rw [List.length_cons]; omega)
        refine ⟨_, LoopReads.step [c] hr (fun _ _ ↦ unescapeLoop_char hlt hc hback) ?_
          (unescape_cons hback t)⟩
        exact fun escaped ↦ ⟨false, by
          rw [room_cons_of_ne hback]
          rfl⟩
      subst hback
      cases t with
      | nil =>
        -- The closing quotation mark is taken for the rest of the escape sequence.
        refine ⟨.ok [ascii '"'], ?_, rfl⟩
        intro escaped u output hu hfit
        obtain ⟨output', hcopy, hlen, hpre⟩ := Block.memcpy_append (t := [ascii '"']) hu
          (by rw [List.length_singleton]; omega)
        refine ⟨output', ?_, hpre, by rw [List.length_singleton]; omega⟩
        rw [unescapeLoop_escape hlt hc (hget 1) (by decide) rfl, hcopy, Option.bind_some]
        rw [List.length_singleton] at hfuel hend
        obtain ⟨fuel, rfl⟩ := Nat.exists_eq_add_one.mpr (show 0 < fuel by omega)
        rw [unescapeLoop_end (by omega), List.length_singleton]
      | cons e t =>
        by_cases hu : e = ascii 'u'
        · subst hu
          obtain ⟨r, hread, hr⟩ := utf16LiteralToUtf8_reads (q := ascii '"' :: q) h
          rw [show input + (t.length + 2) = inputEnd from hend.symm] at hread
          cases r with
          | none =>
            exact ⟨_, LoopReads.fail
              (fun _ _ ↦ unescapeLoop_literal_none hlt hc (hget 1) hread) hr⟩
          | some r =>
            obtain ⟨sequenceLength, bytes⟩ := r
            obtain ⟨n, rfl, hpos, hfew, hle, hun⟩ := hr
            obtain ⟨r, hr⟩ := hnext (2 * n) (by omega) hle
            refine ⟨_, LoopReads.step bytes hr
              (fun _ _ ↦ unescapeLoop_literal hlt hc (hget 1) hread) (fun escaped ↦ ?_) hun⟩
            obtain ⟨escaped', hroom⟩ := room_drop escaped (ascii '\\' :: ascii 'u' :: t) n hle
            exact ⟨escaped', by omega⟩
        · cases hb : unescapeChar e with
          | none =>
            exact ⟨_, LoopReads.fail (fun _ _ ↦ unescapeLoop_escape_none hlt hc (hget 1) hu hb)
              (by rw [unescape_escape hu, hb]; rfl)⟩
          | some b =>
            obtain ⟨r, hr⟩ := hnext 2 (by decide) (by simp only [List.length_cons]; omega)
            refine ⟨_, LoopReads.step [b] hr
              (fun _ _ ↦ unescapeLoop_escape hlt hc (hget 1) hu hb)
              (fun escaped ↦ room_cons_cons escaped _ _ t) ?_⟩
            rw [unescape_escape hu, hb]
            rfl

/-- The search for the closing quotation mark counts the characters that begin escape
sequences. -/
theorem findEnd_reads {s : List UInt8} {fuel i : Nat} (h : content.drop i = s)
    (hfuel : s.length < fuel) (skipped : Nat) :
    (closingQuote s = none ∧ findEnd content fuel i skipped = some none) ∨
      ∃ raw rest n, closingQuote s = some (raw, rest) ∧
        findEnd content fuel i skipped = some (some (i + raw.length, skipped + n)) ∧
        raw.length = n + room false raw ∧ s = raw ++ ascii '"' :: rest := by
  induction fuel generalizing s i skipped with
  | zero => omega
  | succ fuel ih =>
    have hget := getElem?_of_drop h
    cases s with
    | nil =>
      have hend : content[i]? = none := hget 0
      exact .inl ⟨rfl, by rw [findEnd, hend]⟩
    | cons c s =>
      have hc : content[i]? = some c := hget 0
      rw [closingQuote.eq_def, findEnd, hc]
      dsimp only
      by_cases hq : c = ascii '"'
      · rw [if_pos hq, if_pos hq]
        exact .inr ⟨[], s, 0, rfl, rfl, rfl, by rw [hq]; rfl⟩
      rw [if_neg hq, if_neg hq]
      by_cases hback : c = ascii '\\'
      · rw [if_pos hback, if_pos hback]
        subst hback
        have hlen := congrArg List.length h
        rw [List.length_drop, List.length_cons] at hlen
        cases s with
        | nil => exact .inl ⟨rfl, if_pos (by rw [List.length_nil] at hlen; omega)⟩
        | cons e s =>
          rw [if_neg (by rw [List.length_cons] at hlen; omega)]
          dsimp only
          have hs : content.drop (i + 2) = s := by rw [← List.drop_drop, h]; rfl
          have hfuel' : s.length < fuel := by simp only [List.length_cons] at hfuel; omega
          obtain ⟨hclose, hread⟩ | ⟨raw, rest, n, hclose, hfind, hcount, rfl⟩ :=
            ih hs hfuel' (skipped + 1)
          · exact .inl ⟨by rw [hclose]; rfl, hread⟩
          · refine .inr ⟨_, rest, n + 1, by rw [hclose]; rfl, ?_, ?_, rfl⟩
            · rw [hfind]
              simp only [List.length_cons]
              congr 3 <;> omega
            · rw [room, if_pos rfl, room]
              simp only [List.length_cons]
              omega
      · rw [if_neg hback, if_neg hback]
        have hs : content.drop (i + 1) = s := by rw [← List.drop_drop, h]; rfl
        obtain ⟨hclose, hread⟩ | ⟨raw, rest, n, hclose, hfind, hcount, rfl⟩ :=
          ih hs (by simp only [List.length_cons] at hfuel; omega) skipped
        · exact .inl ⟨by rw [hclose]; rfl, hread⟩
        · refine .inr ⟨_, rest, n, by rw [hclose]; rfl, ?_, ?_, rfl⟩
          · rw [hfind, List.length_cons, Nat.add_assoc, Nat.add_comm 1]
          · rw [room_cons_of_ne hback, List.length_cons]
            dsimp only
            omega

theorem findEnd_eq_none {s : List UInt8} {fuel i : Nat} (h : content.drop i = s)
    (hfuel : s.length < fuel) (skipped : Nat) (hs : closingQuote s = none) :
    findEnd content fuel i skipped = some none := by
  obtain ⟨-, hread⟩ | ⟨raw, rest, n, hclose, -⟩ := findEnd_reads h hfuel skipped
  · exact hread
  · rw [hs] at hclose
    cases hclose

/-- After a quotation mark `parse_string` reads the text up to the next, whatever the
allocator left in the memory of the string. -/
theorem parseString_of_text {p : ParseBuffer} {raw rest : List UInt8}
    (hfirst : content[p.offset]? = some (ascii '"'))
    (hs : closingQuote (content.drop (p.offset + 1)) = some (raw, rest)) :
    ∃ r : Except Nat (List UInt8), (∀ fresh, parseString content fresh p = some (match r with
      | .error input => (none, { p with offset := input })
      | .ok w => (some (.ofBuffer w), { p with offset := p.offset + (raw.length + 2) }))) ∧
      match r with
      | .error _ => unescape raw = none
      | .ok w => unescape raw = some w := by
  have hpos : p.offset < content.length := (List.getElem?_eq_some_iff.mp hfirst).1
  have hlen : (content.drop (p.offset + 1)).length < content.length := by
    rw [List.length_drop]
    omega
  obtain ⟨hnone, -⟩ | ⟨raw', rest', n, hclose, hfind, hcount, htext⟩ :=
    findEnd_reads rfl hlen 0
  · rw [hs] at hnone
    cases hnone
  obtain ⟨rfl, rfl⟩ := Prod.mk.inj (Option.some.inj (hs.symm.trans hclose))
  have hraw := congrArg List.length htext
  rw [List.length_append] at hraw
  obtain ⟨r, hloop, hr⟩ := unescapeLoop_reads content.length htext rfl (by omega)
  refine ⟨r, fun fresh ↦ ?_, hr⟩
  have hroom := hloop false []
    (Block.fresh (p.offset + 1 + raw.length - p.offset - (0 + n) + 1) fresh) List.nil_prefix
    (by rw [List.length_nil, Block.length_fresh]; omega)
  rw [parseString, hfirst]
  simp only [Option.bind_eq_bind, Option.bind_some, ne_eq, not_true_eq_false, if_false]
  rw [hfind]
  simp only [Option.bind_some]
  rw [List.length_nil] at hroom
  cases r with
  | error i =>
    rw [hroom]
    rfl
  | ok w =>
    obtain ⟨output, hout, hpre, hlt⟩ := hroom
    rw [Nat.zero_add] at hlt
    obtain ⟨output', hcopy, -, hend⟩ := Block.memcpy_append (t := [0]) hpre (by
      rw [List.length_singleton]
      exact hlt)
    rw [hout, Nat.zero_add]
    change ((Block.memcpy output w.length [0]).bind _) = _
    rw [List.nil_append] at hcopy hend
    rw [hcopy, Option.bind_some, Block.ofBuffer_of_prefix hend]
    simp only [Nat.add_assoc, Nat.add_comm 1]

end Strings

end ParseBuffer

end LedaSdk.Json
