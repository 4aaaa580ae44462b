import Mathlib.Data.List.DropRight
import LedaSdk.Base.Binary64
import LedaSdk.Base.CStr
import LedaSdk.Base.CInt

/-!
# Numbers as text

Numerals of C: their digits, their text and the scan that reads them back; on them
`atoi`, `strtod` and the conversion `%d` of `printf`, in the C locale.
-/

namespace LedaSdk.Base

/-- The value of a character as a digit, letters included. -/
def digitValue (c : UInt8) : Option Nat :=
  if 48 ≤ c ∧ c ≤ 57 then some (c.toNat - 48)
  else if 97 ≤ c ∧ c ≤ 122 then some (c.toNat - 87)
  else if 65 ≤ c ∧ c ≤ 90 then some (c.toNat - 55)
  else none

/-- A digit of base `b`. -/
def digitOf (b : Nat) (c : UInt8) : Option (Fin b) :=
  (digitValue c).bind fun v ↦ if h : v < b then some ⟨v, h⟩ else none

instance neZeroTen : NeZero (10 : Nat) := ⟨by decide⟩

/-- The character of a decimal digit. -/
def digitByte (d : Fin 10) : UInt8 := 48 + d.val.toUInt8

theorem digitOf_digitByte : ∀ d : Fin 10, digitOf 10 (digitByte d) = some d := by decide

/-- The number that a list of digits denotes, most significant digit first. -/
def ofDigits {b : Nat} (ds : List (Fin b)) : Nat := ds.foldl (fun n (d : Fin b) ↦ n * b + d.val) 0

section Digits
variable {b : Nat}

private theorem foldl_digits (ds : List (Fin b)) (n : Nat) :
    ds.foldl (fun n (d : Fin b) ↦ n * b + d.val) n = n * b ^ ds.length + ofDigits ds := by
  induction ds generalizing n with
  | nil => simp [ofDigits]
  | cons d ds ih =>
    have hcons : ofDigits (d :: ds) = (0 * b + d.val) * b ^ ds.length + ofDigits ds := ih _
    rw [List.foldl_cons, ih, hcons, List.length_cons]
    ring

theorem ofDigits_append (xs ys : List (Fin b)) :
    ofDigits (xs ++ ys) = ofDigits xs * b ^ ys.length + ofDigits ys := by
  rw [ofDigits, List.foldl_append, foldl_digits]
  rfl

theorem ofDigits_singleton (d : Fin b) : ofDigits [d] = d := by simp [ofDigits]

theorem ofDigits_replicate_zero [NeZero b] (n : Nat) : ofDigits (List.replicate n (0 : Fin b)) = 0 := by
  induction n with
  | zero => rfl
  | succ n ih => rw [List.replicate_succ', ofDigits_append, ih, ofDigits_singleton]; simp

/-- The last `n` digits of a number. -/
def fixedDigits (b : Nat) [NeZero b] : Nat → Nat → List (Fin b)
  | 0, _ => []
  | n + 1, s => fixedDigits b n (s / b) ++ [Fin.ofNat b s]

variable [NeZero b]

@[simp] theorem length_fixedDigits (n s : Nat) : (fixedDigits b n s).length = n := by
  induction n generalizing s with
  | zero => rfl
  | succ n ih => rw [fixedDigits, List.length_append, ih, List.length_singleton]

/-- Digits denote the number they were taken from. -/
theorem ofDigits_fixedDigits {n s : Nat} (h : s < b ^ n) : ofDigits (fixedDigits b n s) = s := by
  induction n generalizing s with
  | zero =>
    obtain rfl : s = 0 := by simpa using h
    rfl
  | succ n ih =>
    have hdiv : s / b < b ^ n := by
      apply Nat.div_lt_of_lt_mul
      rwa [← Nat.pow_succ']
    rw [fixedDigits, ofDigits_append, ih hdiv, ofDigits_singleton, List.length_singleton,
      Nat.pow_one]
    exact Nat.div_add_mod' s b

end Digits

/-- The digits at the front of a text. -/
def spanDigits (b : Nat) : List UInt8 → List (Fin b) × List UInt8
  | [] => ([], [])
  | c :: s =>
    match digitOf b c with
    | some d => (d :: (spanDigits b s).1, (spanDigits b s).2)
    | none => ([], c :: s)

/-- The text of decimal digits. -/
def digitText (ds : List (Fin 10)) : List UInt8 := ds.map digitByte

/-- Digits are read back up to the next character that is none. -/
theorem spanDigits_digitText (ds : List (Fin 10)) (rest : List UInt8)
    (h : ∀ c ∈ rest.head?, digitOf 10 c = none) :
    spanDigits 10 (digitText ds ++ rest) = (ds, rest) := by
  induction ds with
  | nil =>
    cases rest with
    | nil => rfl
    | cons c rest =>
      rw [digitText, List.map_nil, List.nil_append, spanDigits, h c rfl]
  | cons d ds ih =>
    rw [digitText, List.map_cons, List.cons_append, spanDigits, digitOf_digitByte]
    rw [digitText] at ih
    simp only [ih]

/-- An optional sign at the front of a text. -/
def scanSign : List UInt8 → Bool × List UInt8
  | [] => (false, [])
  | c :: s => if c = ascii '-' then (true, s) else if c = ascii '+' then (false, s) else (false, c :: s)

/-- The text of a sign. -/
def signText (neg : Bool) : List UInt8 := if neg then [ascii '-'] else []

/-- A numeral without its sign: digits before and after the point, and an exponent. -/
structure Numeral (b : Nat) where
  intDigits : List (Fin b)
  fracDigits : List (Fin b)
  exponent : Option Int
  deriving DecidableEq

/-- The exponent part `e±dd` of a text, which is not read when it has no digits. -/
def scanExponent (mark : UInt8) : List UInt8 → Option Int × List UInt8
  | [] => (none, [])
  | c :: s =>
    if toLower c = mark then
      let (neg, s') := scanSign s
      match spanDigits 10 s' with
      | ([], _) => (none, c :: s)
      | (ds, rest) => (some (if neg then -(ofDigits ds : Int) else ofDigits ds), rest)
    else (none, c :: s)

/-- A numeral at the front of a text: at least one digit, a point, an exponent. -/
def scanNumeral (b : Nat) (mark : UInt8) (s : List UInt8) : Option (Numeral b × List UInt8) :=
  let (ints, s1) := spanDigits b s
  let (fracs, s2) := match s1 with
    | [] => ([], [])
    | c :: s' => if c = ascii '.' then spanDigits b s' else ([], c :: s')
  if ints = [] ∧ fracs = [] then none
  else
    let (exponent, rest) := scanExponent mark s2
    some (⟨ints, fracs, exponent⟩, rest)

/-- The digits of a number without leading zeros. -/
def decimalDigits (n : Nat) : List (Fin 10) := fixedDigits 10 (Nat.log 10 n + 1) n

theorem ofDigits_decimalDigits (n : Nat) : ofDigits (decimalDigits n) = n :=
  ofDigits_fixedDigits (Nat.lt_pow_succ_log_self (by decide) n)

theorem decimalDigits_ne_nil (n : Nat) : decimalDigits n ≠ [] := by
  intro h
  have := congrArg List.length h
  rw [decimalDigits, length_fixedDigits] at this
  simp at this

/-- The exponent part that `printf` writes, with a sign and at least two digits. -/
def exponentText : Option Int → List UInt8
  | none => []
  | some e => ascii 'e' :: (if e < 0 then ascii '-' else ascii '+') ::
      digitText (fixedDigits 10 (max 1 (Nat.log 10 e.natAbs) + 1) e.natAbs)

/-- The point and the digits after it, if there are any. -/
def fractionText (ds : List (Fin 10)) : List UInt8 :=
  if ds = [] then [] else ascii '.' :: digitText ds

/-- The text of a decimal numeral. -/
def numeralText (x : Numeral 10) : List UInt8 :=
  digitText x.intDigits ++ (fractionText x.fracDigits ++ exponentText x.exponent)

/-- The texts of an exponent part: a mark, an optional sign and at least one digit, or nothing. -/
inductive IsExponent : Option Int → List UInt8 → Prop
  | none : IsExponent none []
  | plain {mark : UInt8} {ds : List (Fin 10)} (hmark : mark = ascii 'e' ∨ mark = ascii 'E')
      (hds : ds ≠ []) : IsExponent (some (ofDigits ds)) (mark :: digitText ds)
  | plus {mark : UInt8} {ds : List (Fin 10)} (hmark : mark = ascii 'e' ∨ mark = ascii 'E')
      (hds : ds ≠ []) : IsExponent (some (ofDigits ds)) (mark :: ascii '+' :: digitText ds)
  | minus {mark : UInt8} {ds : List (Fin 10)} (hmark : mark = ascii 'e' ∨ mark = ascii 'E')
      (hds : ds ≠ []) : IsExponent (some (-ofDigits ds)) (mark :: ascii '-' :: digitText ds)

theorem isExponent_exponentText (e : Option Int) : IsExponent e (exponentText e) := by
  cases e with
  | none => exact .none
  | some e =>
    have hvalue : e.natAbs < 10 ^ (max 1 (Nat.log 10 e.natAbs) + 1) :=
      (Nat.lt_pow_succ_log_self (by decide) _).trans_le
        (Nat.pow_le_pow_right (by decide) (by omega))
    have hof := ofDigits_fixedDigits hvalue
    have hlen := length_fixedDigits (b := 10) (max 1 (Nat.log 10 e.natAbs) + 1) e.natAbs
    rw [exponentText]
    generalize fixedDigits 10 (max 1 (Nat.log 10 e.natAbs) + 1) e.natAbs = ds at *
    have hds : ds ≠ [] := by
      rintro rfl
      simp at hlen
    by_cases he : e < 0
    · rw [if_pos he, show e = -(ofDigits ds : Int) by omega]
      exact .minus (.inl rfl) hds
    · rw [if_neg he]
      nth_rewrite 1 [show e = (ofDigits ds : Int) by omega]
      exact .plus (.inl rfl) hds

theorem IsExponent.head {e : Option Int} {t : List UInt8} (h : IsExponent e t) :
    ∀ c ∈ t.head?, c = ascii 'e' ∨ c = ascii 'E' := by
  intro c hc
  cases h with
  | none => cases hc
  | plain hmark hds | plus hmark hds | minus hmark hds => exact Option.some.inj hc ▸ hmark

/-- An exponent part is read completely. -/
theorem scanExponent_isExponent {e : Option Int} {t : List UInt8} (h : IsExponent e t) :
    scanExponent (ascii 'e') t = (e, []) := by
  have hlower : ∀ {mark : UInt8}, mark = ascii 'e' ∨ mark = ascii 'E' → toLower mark = ascii 'e' := by
    rintro mark (rfl | rfl) <;> decide
  have hspan (ds : List (Fin 10)) : spanDigits 10 (digitText ds) = (ds, []) := by
    have h := spanDigits_digitText ds [] (by simp)
    rwa [List.append_nil] at h
  cases h with
  | none => rfl
  | @plain mark ds hmark hds =>
    obtain ⟨d, ds, rfl⟩ := List.exists_cons_of_ne_nil hds
    have hsign : scanSign (digitText (d :: ds)) = (false, digitText (d :: ds)) := by
      have hminus : ∀ d : Fin 10, digitByte d ≠ ascii '-' := by decide
      have hplus : ∀ d : Fin 10, digitByte d ≠ ascii '+' := by decide
      rw [digitText, List.map_cons, scanSign, if_neg (hminus d), if_neg (hplus d)]
    rw [scanExponent, if_pos (hlower hmark), hsign]
    simp only [hspan]
    rfl
  | @plus mark ds hmark hds =>
    obtain ⟨d, ds, rfl⟩ := List.exists_cons_of_ne_nil hds
    have hsign : scanSign (ascii '+' :: digitText (d :: ds)) = (false, digitText (d :: ds)) := rfl
    rw [scanExponent, if_pos (hlower hmark), hsign]
    simp only [hspan]
    rfl
  | @minus mark ds hmark hds =>
    obtain ⟨d, ds, rfl⟩ := List.exists_cons_of_ne_nil hds
    have hsign : scanSign (ascii '-' :: digitText (d :: ds)) = (true, digitText (d :: ds)) := rfl
    rw [scanExponent, if_pos (hlower hmark), hsign]
    simp only [hspan]
    rfl

/-- The texts of a numeral with a digit before the point. -/
def IsNumeral (x : Numeral 10) (t : List UInt8) : Prop :=
  x.intDigits ≠ [] ∧ ∃ e, IsExponent x.exponent e ∧
    t = digitText x.intDigits ++ (fractionText x.fracDigits ++ e)

theorem isNumeral_numeralText {x : Numeral 10} (hx : x.intDigits ≠ []) :
    IsNumeral x (numeralText x) := ⟨hx, _, isExponent_exponentText x.exponent, rfl⟩

/-- A numeral is read completely. -/
theorem scanNumeral_isNumeral {x : Numeral 10} {t : List UInt8} (h : IsNumeral x t) :
    scanNumeral 10 (ascii 'e') t = some (x, []) := by
  obtain ⟨hx, e, he, rfl⟩ := h
  have hscan := scanExponent_isExponent he
  have hmark : ∀ c ∈ e.head?, digitOf 10 c = none ∧ c ≠ ascii '.' := by
    intro c hc
    rcases he.head c hc with rfl | rfl <;> decide
  have hint := spanDigits_digitText x.intDigits (fractionText x.fracDigits ++ e)
  have hfrac := spanDigits_digitText x.fracDigits e fun c hc ↦ (hmark c hc).1
  rw [scanNumeral]
  by_cases hnil : x.fracDigits = []
  · rw [fractionText, if_pos hnil, List.nil_append] at hint ⊢
    simp only [hint fun c hc ↦ (hmark c hc).1]
    cases e with
    | nil =>
      simp only [hx, false_and, if_false, hscan]
      rw [← hnil]
    | cons c rest =>
      simp only [hx, (hmark c rfl).2, false_and, if_false, hscan]
      rw [← hnil]
  · rw [fractionText, if_neg hnil, List.cons_append] at hint ⊢
    simp only [hint (fun c hc ↦ by
      obtain rfl : ascii '.' = c := by simpa using hc
      decide), if_true, hfrac, hnil, and_false, if_false, hscan]

/-- The value of a numeral as a quotient; a digit after the point counts `weight` in the
exponent of `base`. -/
def Numeral.quotient {b : Nat} (base weight : Nat) (x : Numeral b) : Nat × Nat :=
  let e : Int := x.exponent.getD 0 - weight * x.fracDigits.length
  (ofDigits (x.intDigits ++ x.fracDigits) * base ^ e.toNat, base ^ (-e).toNat)

/-- The double nearest to a numeral. -/
def Numeral.toBinary64 {b : Nat} (base weight : Nat) (neg : Bool) (x : Numeral b) : Binary64 :=
  .ofRatio neg (x.quotient base weight).1 (x.quotient base weight).2

/-- A word at the front of a text, in any case of letters. -/
def dropWord : List UInt8 → List UInt8 → Option (List UInt8)
  | [], s => some s
  | _ :: _, [] => none
  | w :: ws, c :: s => if toLower c = w then dropWord ws s else none

/-- The rest of a text after the optional character sequence of a NaN. -/
def dropNanChars (s : List UInt8) : List UInt8 :=
  match dropWord [ascii '('] s with
  | none => s
  | some t =>
    (dropWord [ascii ')'] (t.dropWhile fun c ↦ (digitValue c).isSome || c == ascii '_')).getD s

/-- A number without its sign at the front of a text. -/
def scanMagnitude (neg : Bool) (s : List UInt8) : Option (Binary64 × List UInt8) :=
  match (dropWord (text "infinity") s).or (dropWord (text "inf") s) with
  | some rest => some (.inf neg, rest)
  | none =>
    match dropWord (text "nan") s with
    | some rest => some (.nan, dropNanChars rest)
    | none =>
      match (dropWord (text "0x") s).bind (scanNumeral 16 (ascii 'p')) with
      | some (x, rest) => some (x.toBinary64 2 4 neg, rest)
      | none => (scanNumeral 10 (ascii 'e') s).map fun (x, rest) ↦ (x.toBinary64 10 1 neg, rest)

/-- `strtod`: the number at the front of a text and the text after it. -/
def strtod (s : List UInt8) : Option (Binary64 × List UInt8) :=
  let (neg, t) := scanSign (s.dropWhile isSpace)
  scanMagnitude neg t

/-- `atof`. -/
def atof (s : CStr) : Binary64 := ((strtod s.bytes).map (·.1)).getD (.ofInt 0)

/-- `LONG_MAX` of a 64-bit `long`. -/
def longMax : Int := 2 ^ 63 - 1

/-- `atoi`: `strtol` in base ten, which stops at the limits of `long`, converted to `int`. -/
def atoi (s : CStr) : Int32 :=
  let (neg, t) := scanSign (s.bytes.dropWhile isSpace)
  let n : Int := ofDigits (spanDigits 10 t).1
  Int32.ofInt (max (-longMax - 1) (min longMax (if neg then -n else n)))

/-- The integer that a text denotes: `strtol` in base ten reads digits up to its end. -/
def denotedInt (s : CStr) : Option Int :=
  let (neg, t) := scanSign (s.bytes.dropWhile isSpace)
  match spanDigits 10 t with
  | (d :: ds, []) => some (if neg then -(ofDigits (d :: ds) : Int) else ofDigits (d :: ds))
  | _ => none

/-- `atoi` reads the value of type `int` that a text denotes. -/
theorem atoi_of_denotedInt {s : CStr} {n : Int32} (h : denotedInt s = some n.toInt) :
    atoi s = n := by
  have hlo := n.le_toInt
  have hhi := n.toInt_lt
  simp only [denotedInt] at h
  split at h
  · next d ds hspan =>
    have hn := Option.some.inj h
    simp only [atoi, hspan, hn]
    rw [longMax, min_eq_right (by omega), max_eq_right (by omega), Int32.ofInt_toInt]
  · cases h

/-- `%d`. -/
def intText (n : Int) : List UInt8 := signText (n < 0) ++ digitText (decimalDigits n.natAbs)

/-- The characters of numerals: `0123456789+-eE.`. -/
def numeralChar (c : UInt8) : Bool :=
  (48 ≤ c && c ≤ 57) || c == ascii '+' || c == ascii '-' || c == ascii 'e' || c == ascii 'E' ||
    c == ascii '.'

theorem numeralChar_digitByte : ∀ d : Fin 10, numeralChar (digitByte d) = true := by decide

theorem numeralChar_digitText {ds : List (Fin 10)} {c : UInt8} (h : c ∈ digitText ds) :
    numeralChar c = true := by
  obtain ⟨d, -, rfl⟩ := List.mem_map.mp h
  exact numeralChar_digitByte d

theorem numeralChar_signText {neg : Bool} {c : UInt8} (h : c ∈ signText neg) :
    numeralChar c = true := by
  cases neg with
  | false => cases h
  | true => rw [List.mem_singleton.mp h]; decide

theorem IsExponent.numeralChar {e : Option Int} {t : List UInt8} (h : IsExponent e t) :
    ∀ c ∈ t, numeralChar c = true := by
  have hmark : ∀ {c : UInt8}, c = ascii 'e' ∨ c = ascii 'E' → Base.numeralChar c = true := by
    rintro c (rfl | rfl) <;> decide
  intro c hc
  cases h with
  | none => cases hc
  | plain hm hds =>
    rcases List.mem_cons.mp hc with rfl | hc
    · exact hmark hm
    · exact numeralChar_digitText hc
  | plus hm hds | minus hm hds =>
    rcases List.mem_cons.mp hc with rfl | hc
    · exact hmark hm
    · rcases List.mem_cons.mp hc with rfl | hc
      · decide
      · exact numeralChar_digitText hc

/-- A numeral has no other characters. -/
theorem numeralChar_isExponent {x : Numeral 10} {e : List UInt8} {c : UInt8}
    (he : IsExponent x.exponent e)
    (h : c ∈ digitText x.intDigits ++ (fractionText x.fracDigits ++ e)) :
    numeralChar c = true := by
  rw [List.mem_append, List.mem_append] at h
  rcases h with h | h | h
  · exact numeralChar_digitText h
  · rw [fractionText] at h
    split at h
    · cases h
    · rcases List.mem_cons.mp h with rfl | h
      · decide
      · exact numeralChar_digitText h
  · exact he.numeralChar c h

theorem IsNumeral.numeralChar {x : Numeral 10} {t : List UInt8} (ht : IsNumeral x t) :
    ∀ c ∈ t, numeralChar c = true := by
  obtain ⟨-, e, he, rfl⟩ := ht
  exact fun c h ↦ numeralChar_isExponent he h

theorem numeralChar_numeralText {x : Numeral 10} {c : UInt8} (h : c ∈ numeralText x) :
    numeralChar c = true := numeralChar_isExponent (isExponent_exponentText x.exponent) h

theorem toLower_of_numeralChar {c : UInt8} (h : numeralChar c = true) :
    toLower c ≤ 57 ∨ toLower c = 101 := by
  simp only [numeralChar, Bool.or_eq_true, Bool.and_eq_true, decide_eq_true_eq,
    beq_iff_eq] at h
  rcases h with (((((⟨-, h⟩ | rfl) | rfl) | rfl) | rfl) | rfl)
  · left
    rw [toLower, if_neg (fun h' ↦ absurd (UInt8.le_trans h'.1 h) (by decide))]
    exact h
  all_goals decide

/-- A word that begins with another letter than `e` is not at the front of a numeral. -/
theorem dropWord_of_numeralChar {w : UInt8} {ws s : List UInt8} (hw : 57 < w ∧ w ≠ 101)
    (hs : ∀ c ∈ s, numeralChar c = true) : dropWord (w :: ws) s = none := by
  cases s with
  | nil => rfl
  | cons c s =>
    rw [dropWord, if_neg]
    rintro rfl
    rcases toLower_of_numeralChar (hs c (by simp)) with h | h
    · exact absurd hw.1 (UInt8.not_lt.mpr h)
    · exact hw.2 h

private theorem scanMagnitude_numeralChars {neg : Bool} {s : List UInt8}
    (hs : ∀ c ∈ s, numeralChar c = true) :
    scanMagnitude neg s =
      (scanNumeral 10 (ascii 'e') s).map fun (x, rest) ↦ (x.toBinary64 10 1 neg, rest) := by
  have hi : dropWord (text "infinity") s = none :=
    dropWord_of_numeralChar (by decide) hs
  have hi' : dropWord (text "inf") s = none := dropWord_of_numeralChar (by decide) hs
  have hn : dropWord (text "nan") s = none := dropWord_of_numeralChar (by decide) hs
  have hx : dropWord (text "0x") s = none := by
    cases s with
    | nil => rfl
    | cons c s =>
      rw [show text "0x" = [48, 120] from rfl, dropWord]
      split
      · exact dropWord_of_numeralChar (by decide) fun c h ↦ hs c (by simp [h])
      · rfl
  rw [scanMagnitude, hi, hi', hn, hx]
  rfl

theorem scanSign_signText (neg : Bool) (d : Fin 10) (s : List UInt8) :
    scanSign (signText neg ++ digitByte d :: s) = (neg, digitByte d :: s) := by
  have hminus : ∀ d : Fin 10, digitByte d ≠ ascii '-' := by decide
  have hplus : ∀ d : Fin 10, digitByte d ≠ ascii '+' := by decide
  cases neg with
  | false =>
    rw [signText, if_neg Bool.false_ne_true, List.nil_append, scanSign, if_neg (hminus d),
      if_neg (hplus d)]
  | true => rfl

/-- Digits and signs are not white space. -/
theorem dropWhile_isSpace_signText (neg : Bool) (d : Fin 10) (s : List UInt8) :
    (signText neg ++ digitByte d :: s).dropWhile isSpace = signText neg ++ digitByte d :: s := by
  have hd : ∀ d : Fin 10, isSpace (digitByte d) = false := by decide
  cases neg with
  | false => exact List.dropWhile_cons_of_neg (by rw [hd d]; decide)
  | true => rfl

/-- A numeral begins with a digit. -/
theorem IsNumeral.head {x : Numeral 10} {t : List UInt8} (h : IsNumeral x t) :
    ∃ d s, t = digitByte d :: s := by
  obtain ⟨hx, e, -, rfl⟩ := h
  obtain ⟨d, ds, hds⟩ := List.exists_cons_of_ne_nil hx
  exact ⟨d, _, by rw [hds]; rfl⟩

/-- `strtod` reads a numeral completely. -/
theorem strtod_isNumeral (neg : Bool) {x : Numeral 10} {t : List UInt8} (ht : IsNumeral x t) :
    strtod (signText neg ++ t) = some (x.toBinary64 10 1 neg, []) := by
  have hscan := scanNumeral_isNumeral ht
  have hchars := ht.numeralChar
  obtain ⟨d, s, hs⟩ := ht.head
  rw [strtod, hs, dropWhile_isSpace_signText, scanSign_signText, ← hs]
  simp only [scanMagnitude_numeralChars hchars, hscan, Option.map_some]

/-- `strtod` reads a printed numeral completely. -/
theorem strtod_numeralText (neg : Bool) (x : Numeral 10) (hx : x.intDigits ≠ []) :
    strtod (signText neg ++ numeralText x) = some (x.toBinary64 10 1 neg, []) :=
  strtod_isNumeral neg (isNumeral_numeralText hx)

/-- `atoi` reads back what `%d` writes. -/
theorem atoi_intText (n : Int32) (h : 0 ∉ intText n.toInt) : atoi ⟨intText n.toInt, h⟩ = n := by
  obtain ⟨d, ds, hds⟩ := List.exists_cons_of_ne_nil (decimalDigits_ne_nil n.toInt.natAbs)
  have hspan := spanDigits_digitText (d :: ds) [] (by simp)
  have hvalue := ofDigits_decimalDigits n.toInt.natAbs
  rw [hds] at hvalue
  have hlo := n.le_toInt
  have hhi := n.toInt_lt
  simp only [atoi, intText, hds]
  rw [List.append_nil] at hspan
  rw [digitText, List.map_cons] at hspan ⊢
  rw [dropWhile_isSpace_signText, scanSign_signText]
  simp only [hspan, hvalue, decide_eq_true_eq]
  have hsigned : (if n.toInt < 0 then -(n.toInt.natAbs : Int) else n.toInt.natAbs) = n.toInt := by
    split <;> omega
  rw [hsigned, longMax, min_eq_right (by omega), max_eq_right (by omega), Int32.ofInt_toInt]

/-- An `int` has at most ten digits. -/
theorem length_intText_le (n : Int32) : (intText n.toInt).length ≤ 11 := by
  have hlo := n.le_toInt
  have hhi := n.toInt_lt
  have hlog : Nat.log 10 n.toInt.natAbs < 10 := by
    rcases Nat.eq_zero_or_pos n.toInt.natAbs with h0 | hpos
    · rw [h0]
      decide
    · exact Nat.log_lt_of_lt_pow hpos.ne' (by omega)
  have hsign : (signText (n.toInt < 0)).length ≤ 1 := by
    by_cases h : n.toInt < 0 <;> simp [signText, h]
  rw [intText, List.length_append, digitText, List.length_map, decimalDigits, length_fixedDigits]
  omega

/-- Different integers have different decimal texts. -/
theorem intText_injective : Function.Injective intText := by
  have hread (n : Int) : scanSign (intText n) = (decide (n < 0), digitText (decimalDigits n.natAbs)) := by
    obtain ⟨d, ds, hds⟩ := List.exists_cons_of_ne_nil (decimalDigits_ne_nil n.natAbs)
    rw [intText, hds]
    exact scanSign_signText _ d _
  have hdigits (n : Int) : ofDigits (spanDigits 10 (digitText (decimalDigits n.natAbs))).1 =
      n.natAbs := by
    have hspan := spanDigits_digitText (decimalDigits n.natAbs) [] (by simp)
    rw [List.append_nil] at hspan
    rw [hspan, ofDigits_decimalDigits]
  intro n k h
  have hscan := congrArg scanSign h
  rw [hread, hread] at hscan
  obtain ⟨hneg, hmag⟩ := Prod.mk.inj hscan
  have habs : n.natAbs = k.natAbs := by rw [← hdigits n, hmag, hdigits k]
  have hsign := decide_eq_decide.mp hneg
  omega

theorem noNul_intText (n : Int) : 0 ∉ intText n := by
  intro h
  rcases List.mem_append.mp h with h | h
  · exact absurd (numeralChar_signText h) (by decide)
  · exact absurd (numeralChar_digitText h) (by decide)

/-- An integer printed by `%d`. -/
def intStr (n : Int) : CStr := ⟨intText n, noNul_intText n⟩

end LedaSdk.Base
