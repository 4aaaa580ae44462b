import LedaSdk.Base.Numeral

/-!
# Doubles as text

The conversions `%g` and `%lf` of `printf`: rounding to significant decimal digits, the
choice of notation and the text. Seventeen significant digits determine a double, and an
integer of at most fifteen digits is printed as it is.
-/

namespace LedaSdk.Base

/-- Position of the leading decimal digit of the quotient `p / q`. -/
def decimalExponent (p q : Nat) : Int :=
  if q ≤ p then Nat.log 10 (p / q) else -(Nat.clog 10 ((q + p - 1) / p) : Int)

/-- The quotient `p / q` in units of its `digits`-th significant digit. -/
def scaled (digits p q : Nat) : Nat × Nat :=
  let shift : Int := digits - 1 - decimalExponent p q
  (p * 10 ^ shift.toNat, q * 10 ^ (-shift).toNat)

/-- The quotient `p / q` rounded to significant digits, and the position of the first. -/
def significant (digits p q : Nat) : Nat × Int :=
  let s := roundDiv (scaled digits p q).1 (scaled digits p q).2
  if s = 10 ^ digits then (10 ^ (digits - 1), decimalExponent p q + 1)
  else (s, decimalExponent p q)

/-- Digits after the point without trailing zeros. -/
def stripZeros (ds : List (Fin 10)) : List (Fin 10) := ds.rdropWhile (· = 0)

/-- The notation that `%g` chooses for a number of `digits` significant digits. -/
def gNumeral (digits : Nat) (s : Nat) (x : Int) : Numeral 10 :=
  let ds := fixedDigits 10 digits s
  if x < -4 ∨ digits ≤ x then ⟨ds.take 1, stripZeros (ds.drop 1), some x⟩
  else if x < 0 then ⟨[0], stripZeros (List.replicate (-x - 1).toNat 0 ++ ds), none⟩
  else ⟨ds.take (x + 1).toNat, stripZeros (ds.drop (x + 1).toNat), none⟩

/-- The numeral that `%g` writes for a magnitude. -/
def Magnitude.gNumeral (digits : Nat) (m : Magnitude) : Numeral 10 :=
  if m.units = 0 then ⟨[0], [], none⟩
  else
    let (s, x) := significant digits m.units Binary64.unitsPerOne
    Base.gNumeral digits s x

/-- `%.<digits>g`; the sign of a NaN is not written. -/
def gText (digits : Nat) : Binary64 → List UInt8
  | .nan => text "nan"
  | .inf neg => signText neg ++ text "inf"
  | .finite neg m => signText neg ++ numeralText (m.gNumeral digits)

/-- `%lf`: six digits after the point. -/
def lfText : Binary64 → List UInt8
  | .nan => text "nan"
  | .inf neg => signText neg ++ text "inf"
  | .finite neg m =>
    let s := roundDiv (m.units * 10 ^ 6) Binary64.unitsPerOne
    signText neg ++ digitText (decimalDigits (s / 10 ^ 6)) ++ ascii '.' ::
      digitText (fixedDigits 10 6 s)

section Scaled
variable {p q : Nat}

/-- The leading digit of a quotient is where `decimalExponent` puts it. -/
theorem decimalExponent_spec (hp : 0 < p) (hq : 0 < q) :
    q * 10 ^ (decimalExponent p q).toNat ≤ p * 10 ^ (-decimalExponent p q).toNat ∧
      p * 10 ^ (-(decimalExponent p q + 1)).toNat < q * 10 ^ (decimalExponent p q + 1).toNat := by
  rw [decimalExponent]
  split
  · next hle =>
    have hdiv : p / q ≠ 0 := Nat.div_ne_zero_iff.mpr ⟨hq.ne', hle⟩
    have hlo := Nat.pow_log_le_self 10 hdiv
    have hhi := Nat.lt_pow_succ_log_self (b := 10) (by decide) (p / q)
    generalize Nat.log 10 (p / q) = k at *
    rw [Nat.le_div_iff_mul_le hq] at hlo
    rw [Nat.div_lt_iff_lt_mul hq] at hhi
    constructor
    · simpa [Nat.mul_comm] using hlo
    · rw [show (-((k : Int) + 1)).toNat = 0 by omega, show ((k : Int) + 1).toNat = k + 1 by omega,
        Nat.pow_zero, Nat.mul_one, Nat.mul_comm]
      exact hhi
  · next hlt =>
    have hceil : 1 < (q + p - 1) / p := by
      rw [Nat.lt_div_iff_mul_lt hp]
      omega
    have hle := Nat.le_pow_clog (b := 10) (by decide) ((q + p - 1) / p)
    have hlog : 0 < Nat.clog 10 ((q + p - 1) / p) := Nat.clog_pos (by decide) hceil
    have hgt := Nat.pow_pred_clog_lt_self (b := 10) (by decide) hceil
    rw [Nat.pred_eq_sub_one] at hgt
    generalize Nat.clog 10 ((q + p - 1) / p) = k at *
    constructor
    · rw [Nat.div_le_iff_le_mul_add_pred hp] at hle
      rw [show (-(k : Int)).toNat = 0 by omega, show (-(-(k : Int))).toNat = k by omega]
      omega
    · rw [Nat.lt_div_iff_mul_lt hp] at hgt
      rw [show (-(-(k : Int) + 1)).toNat = k - 1 by omega,
        show (-(k : Int) + 1).toNat = 0 by omega, Nat.pow_zero, Nat.mul_one]
      rw [Nat.mul_comm] at hgt
      omega

variable (digits : Nat)

theorem scaled_pos (hq : 0 < q) : 0 < (scaled digits p q).2 := Nat.mul_pos hq (by positivity)

/-- In units of its last significant digit a quotient has exactly `digits` digits. -/
theorem scaled_bounds (hd : 0 < digits) (hp : 0 < p) (hq : 0 < q) :
    10 ^ (digits - 1) * (scaled digits p q).2 ≤ (scaled digits p q).1 ∧
      (scaled digits p q).1 < 10 ^ digits * (scaled digits p q).2 := by
  obtain ⟨hlo, hhi⟩ := decimalExponent_spec hp hq
  simp only [scaled]
  generalize decimalExponent p q = x at *
  have hbal : digits - 1 + (-((digits : Int) - 1 - x)).toNat + (-x).toNat =
      x.toNat + ((digits : Int) - 1 - x).toNat := by omega
  have hbal' : digits + (-((digits : Int) - 1 - x)).toNat + (-(x + 1)).toNat =
      (x + 1).toNat + ((digits : Int) - 1 - x).toNat := by omega
  generalize ((digits : Int) - 1 - x).toNat = i at *
  generalize (-((digits : Int) - 1 - x)).toNat = j at *
  constructor
  · apply Nat.le_of_mul_le_mul_right _ (show 0 < 10 ^ (-x).toNat by positivity)
    calc 10 ^ (digits - 1) * (q * 10 ^ j) * 10 ^ (-x).toNat
        = q * 10 ^ (digits - 1 + j + (-x).toNat) := by rw [Nat.pow_add, Nat.pow_add]; ring
      _ = q * 10 ^ x.toNat * 10 ^ i := by rw [hbal, Nat.pow_add]; ring
      _ ≤ p * 10 ^ (-x).toNat * 10 ^ i := Nat.mul_le_mul_right _ hlo
      _ = p * 10 ^ i * 10 ^ (-x).toNat := by ring
  · apply Nat.lt_of_mul_lt_mul_right (a := 10 ^ (-(x + 1)).toNat)
    calc p * 10 ^ i * 10 ^ (-(x + 1)).toNat
        = p * 10 ^ (-(x + 1)).toNat * 10 ^ i := by ring
      _ < q * 10 ^ (x + 1).toNat * 10 ^ i := Nat.mul_lt_mul_of_pos_right hhi (by positivity)
      _ = q * 10 ^ (digits + j + (-(x + 1)).toNat) := by rw [hbal', Nat.pow_add]; ring
      _ = 10 ^ digits * (q * 10 ^ j) * 10 ^ (-(x + 1)).toNat := by
        rw [Nat.pow_add, Nat.pow_add]; ring

/-- Rounding to significant digits: the digits, and the value, which is the rounded quotient
also where rounding carries into a new digit. -/
theorem significant_spec (hd : 0 < digits) (hp : 0 < p) (hq : 0 < q) :
    10 ^ (digits - 1) ≤ (significant digits p q).1 ∧ (significant digits p q).1 < 10 ^ digits ∧
      ∃ c : Nat, (significant digits p q).2 = decimalExponent p q + c ∧
        (significant digits p q).1 * 10 ^ c =
          roundDiv (scaled digits p q).1 (scaled digits p q).2 := by
  have hpos := scaled_pos (p := p) digits hq
  obtain ⟨hlo, hhi⟩ := scaled_bounds digits hd hp hq
  have hge := le_roundDiv hpos hlo
  have hle := roundDiv_le hpos hhi.le
  have hpow : 10 ^ digits = 10 ^ (digits - 1) * 10 := by
    rw [← Nat.pow_succ, Nat.succ_eq_add_one, Nat.sub_add_cancel hd]
  simp only [significant]
  split
  · next heq =>
    have hten : 0 < 10 ^ (digits - 1) := by positivity
    refine ⟨Nat.le_refl _, by omega, 1, rfl, ?_⟩
    rw [heq, hpow, Nat.pow_one]
  · next hne => exact ⟨hge, by omega, 0, by simp, by simp⟩

end Scaled

theorem ofDigits_stripZeros (ds : List (Fin 10)) :
    ∃ t, ds.length = (stripZeros ds).length + t ∧
      ∀ front : List (Fin 10), ofDigits (front ++ stripZeros ds) * 10 ^ t = ofDigits (front ++ ds) := by
  induction ds using List.reverseRecOn with
  | nil => exact ⟨0, rfl, fun _ ↦ by simp [stripZeros]⟩
  | append_singleton ds d ih =>
    rw [stripZeros, List.rdropWhile_concat]
    by_cases hd : d = 0
    · obtain ⟨t, hlen, hval⟩ := ih
      rw [if_pos (by simpa using hd), ← stripZeros]
      refine ⟨t + 1, by rw [List.length_append, List.length_singleton, hlen, Nat.add_assoc],
        fun front ↦ ?_⟩
      rw [← List.append_assoc, ofDigits_append _ [d], ofDigits_singleton, ← hval, hd]
      simp [Nat.pow_succ, Nat.mul_assoc]
    · rw [if_neg (by simpa using hd)]
      exact ⟨0, by simp, fun front ↦ by simp⟩

/-- The notation does not change the value: the numeral is `s` in units of its last digit. -/
theorem gNumeral_value {digits s : Nat} {x : Int} (hd : 0 < digits) (hs : s < 10 ^ digits) :
    ∃ t : Nat, ofDigits ((gNumeral digits s x).intDigits ++ (gNumeral digits s x).fracDigits) *
        10 ^ t = s ∧
      (gNumeral digits s x).exponent.getD 0 - (gNumeral digits s x).fracDigits.length =
        x - (digits - 1) + t := by
  have hvalue := ofDigits_fixedDigits hs
  have hlen := length_fixedDigits (b := 10) digits s
  simp only [gNumeral]
  generalize fixedDigits 10 digits s = ds at *
  split
  · obtain ⟨t, hlen', hval⟩ := ofDigits_stripZeros (ds.drop 1)
    refine ⟨t, by rw [hval, List.take_append_drop, hvalue], ?_⟩
    rw [List.length_drop] at hlen'
    simp only [Option.getD_some]
    omega
  · split
    · obtain ⟨t, hlen', hval⟩ := ofDigits_stripZeros (List.replicate (-x - 1).toNat 0 ++ ds)
      rw [List.length_append, List.length_replicate] at hlen'
      refine ⟨t, ?_, ?_⟩
      · rw [hval, ← List.append_assoc, ofDigits_append _ ds, hvalue]
        have hzero := ofDigits_replicate_zero (b := 10) ((-x - 1).toNat + 1)
        rw [List.replicate_succ] at hzero
        rw [List.singleton_append, hzero, Nat.zero_mul, Nat.zero_add]
      · simp only [Option.getD_none]
        omega
    · obtain ⟨t, hlen', hval⟩ := ofDigits_stripZeros (ds.drop (x + 1).toNat)
      rw [List.length_drop] at hlen'
      refine ⟨t, by rw [hval, List.take_append_drop, hvalue], ?_⟩
      simp only [Option.getD_none]
      omega

theorem gNumeral_intDigits {digits s : Nat} {x : Int} (hd : 0 < digits) :
    (gNumeral digits s x).intDigits ≠ [] := by
  have hlen := length_fixedDigits (b := 10) digits s
  simp only [gNumeral]
  generalize fixedDigits 10 digits s = ds at *
  split
  · rw [ne_eq, List.take_eq_nil_iff, ← List.length_eq_zero_iff]
    omega
  · split
    · exact List.cons_ne_nil _ _
    · rw [ne_eq, List.take_eq_nil_iff, ← List.length_eq_zero_iff]
      omega

/-- A quotient rounded to seventeen significant digits is close to the quotient. -/
private theorem close_of_rounded {u U n t x' i j : Nat} {x : Int} (hU : 0 < U)
    (hi : (16 - x).toNat = i) (hj : (-(16 - x)).toNat = j)
    (hlo : 10 ^ 16 * (U * 10 ^ j) ≤ u * 10 ^ i)
    (hround : n * 10 ^ t = roundDiv (u * 10 ^ i) (U * 10 ^ j))
    {e : Int} (he : e = x - 16 + t) (hx' : (-e).toNat = x') :
    Close (n * 10 ^ e.toNat * U) (10 ^ x') u := by
  have hD : 0 < U * 10 ^ j := by positivity
  have hbal : e.toNat + i = t + j + x' := by omega
  obtain ⟨hup, hdown⟩ := roundDiv_error (a := u * 10 ^ i) hD
  rw [← hround] at hup hdown
  have hleft : n * 10 ^ e.toNat * U * 10 ^ i = n * 10 ^ t * (U * 10 ^ j) * 10 ^ x' := by
    calc n * 10 ^ e.toNat * U * 10 ^ i = n * U * 10 ^ (e.toNat + i) := by rw [Nat.pow_add]; ring
      _ = n * 10 ^ t * (U * 10 ^ j) * 10 ^ x' := by rw [hbal, Nat.pow_add, Nat.pow_add]; ring
  have hi0 : 0 < 10 ^ i := by positivity
  have hx0 : 0 < 10 ^ x' := by positivity
  constructor
  · apply Nat.lt_of_mul_lt_mul_right (a := 10 ^ i)
    calc n * 10 ^ e.toNat * U * 2 ^ 54 * 10 ^ i
        = n * 10 ^ t * (U * 10 ^ j) * 2 ^ 54 * 10 ^ x' := by
          rw [Nat.mul_right_comm, hleft, Nat.mul_right_comm]
      _ < u * 10 ^ i * (2 ^ 54 + 1) * 10 ^ x' := by
          apply Nat.mul_lt_mul_of_pos_right _ hx0
          omega
      _ = u * 10 ^ x' * (2 ^ 54 + 1) * 10 ^ i := by ring
  · apply Nat.lt_of_mul_lt_mul_right (a := 10 ^ i)
    calc u * 10 ^ x' * (2 ^ 54 - 1) * 10 ^ i
        = u * 10 ^ i * (2 ^ 54 - 1) * 10 ^ x' := by ring
      _ < n * 10 ^ t * (U * 10 ^ j) * 2 ^ 54 * 10 ^ x' := by
          apply Nat.mul_lt_mul_of_pos_right _ hx0
          omega
      _ = n * 10 ^ e.toNat * U * 2 ^ 54 * 10 ^ i := by
          rw [Nat.mul_right_comm, ← hleft, Nat.mul_right_comm]

theorem Magnitude.gNumeral_of_ne_zero {digits : Nat} {m : Magnitude} (hm : m.units ≠ 0) :
    m.gNumeral digits = Base.gNumeral digits (significant digits m.units Binary64.unitsPerOne).1
      (significant digits m.units Binary64.unitsPerOne).2 := by
  rw [Magnitude.gNumeral, if_neg hm]

theorem Magnitude.gNumeral_intDigits {digits : Nat} (hd : 0 < digits) (m : Magnitude) :
    (m.gNumeral digits).intDigits ≠ [] := by
  rw [Magnitude.gNumeral]
  split
  · exact List.cons_ne_nil _ _
  · exact Base.gNumeral_intDigits hd

/-- Seventeen significant digits determine a magnitude. -/
theorem Magnitude.toBinary64_gNumeral (neg : Bool) (m : Magnitude) :
    (m.gNumeral 17).toBinary64 10 1 neg = .finite neg m := by
  by_cases hm : m.units = 0
  · rw [Magnitude.gNumeral, if_pos hm]
    exact Binary64.ofRatio_zero (by decide) hm
  · rw [Magnitude.gNumeral_of_ne_zero hm]
    have hU := Binary64.unitsPerOne_pos
    have hu : 0 < m.units := Nat.pos_of_ne_zero hm
    obtain ⟨-, hs, c, hx, hround⟩ := significant_spec 17 (by decide) hu hU
    obtain ⟨t, hvalue, hexp⟩ := gNumeral_value
      (x := (significant 17 m.units Binary64.unitsPerOne).2) (by decide) hs
    have hlo := (scaled_bounds 17 (by decide) hu hU).1
    generalize Base.gNumeral 17 _ _ = numeral at *
    rw [hx] at hexp
    rw [Numeral.toBinary64, Numeral.quotient]
    apply Binary64.ofRatio_of_close (by positivity)
    apply close_of_rounded hU rfl rfl hlo (t := t + c) _ _ rfl
    · rw [Nat.pow_add, ← Nat.mul_assoc, hvalue, hround]
      rfl
    · push_cast at hexp ⊢
      omega

/-- Reading `%.17g` back gives the number. -/
theorem strtod_gText (neg : Bool) (m : Magnitude) :
    strtod (gText 17 (.finite neg m)) = some (.finite neg m, []) := by
  rw [gText, strtod_numeralText neg _ (m.gNumeral_intDigits (by decide)), m.toBinary64_gNumeral]

theorem two_pow_le_ten_pow {a k : Nat} (h : a ≤ 3 * k) : 2 ^ a ≤ 10 ^ k := by
  calc 2 ^ a ≤ 2 ^ (3 * k) := Nat.pow_le_pow_right (by decide) h
    _ = (2 ^ 3) ^ k := Nat.pow_mul 2 3 k
    _ ≤ 10 ^ k := Nat.pow_le_pow_left (by decide) k

/-- Decimal exponents of doubles have at most three digits. -/
theorem Magnitude.decimalExponent_bounds (m : Magnitude) (hm : m.units ≠ 0) :
    -999 ≤ decimalExponent m.units Binary64.unitsPerOne ∧
      decimalExponent m.units Binary64.unitsPerOne < 999 := by
  have hU := Binary64.unitsPerOne_pos
  obtain ⟨hlo, hhi⟩ := decimalExponent_spec (Nat.pos_of_ne_zero hm) hU
  obtain ⟨k, hk⟩ : ∃ k : Nat, k = 998 := ⟨998, rfl⟩
  have hmax : m.units < 10 ^ k := m.finite.trans_le (two_pow_le_ten_pow (by
    unfold magnitudeBits
    omega))
  have hmin : Binary64.unitsPerOne ≤ 10 ^ k := two_pow_le_ten_pow (by
    unfold fractionBits
    omega)
  generalize decimalExponent m.units Binary64.unitsPerOne = x at *
  constructor
  · by_contra hx
    have hpow : 10 ^ k ≤ 10 ^ (-(x + 1)).toNat := Nat.pow_le_pow_right (by decide) (by omega)
    rw [show (x + 1).toNat = 0 by omega, Nat.pow_zero, Nat.mul_one] at hhi
    have := Nat.le_mul_of_pos_left (10 ^ (-(x + 1)).toNat) (Nat.pos_of_ne_zero hm)
    omega
  · by_contra hx
    have hpow : 10 ^ k ≤ 10 ^ x.toNat := Nat.pow_le_pow_right (by decide) (by omega)
    rw [show (-x).toNat = 0 by omega, Nat.pow_zero, Nat.mul_one] at hlo
    have := Nat.le_mul_of_pos_left (10 ^ x.toNat) hU
    omega

private theorem length_stripZeros_le (ds : List (Fin 10)) : (stripZeros ds).length ≤ ds.length := by
  rw [stripZeros]
  exact (List.rdropWhile_prefix _ _).length_le

private theorem length_fractionText_le (ds : List (Fin 10)) :
    (fractionText ds).length ≤ ds.length + 1 := by
  rw [fractionText]
  split
  · exact Nat.zero_le _
  · rw [List.length_cons, digitText, List.length_map]

private theorem length_exponentText_le {e : Int} (h : e.natAbs < 10 ^ 3) :
    (exponentText (some e)).length ≤ 5 := by
  have hlog : Nat.log 10 e.natAbs < 3 := by
    rcases Nat.eq_zero_or_pos e.natAbs with h0 | hpos
    · rw [h0]
      decide
    · exact Nat.log_lt_of_lt_pow hpos.ne' h
  rw [exponentText, List.length_cons, List.length_cons, digitText, List.length_map,
    length_fixedDigits]
  omega

private theorem length_numeralText_gNumeral {digits s : Nat} {x : Int} (hd : 0 < digits)
    (hx : x.natAbs < 10 ^ 3) : (numeralText (gNumeral digits s x)).length ≤ digits + 6 := by
  have hlen := length_fixedDigits (b := 10) digits s
  rw [numeralText, digitText, List.length_append, List.length_map, List.length_append]
  simp only [gNumeral]
  generalize fixedDigits 10 digits s = ds at *
  split
  · have hfrac := length_fractionText_le (stripZeros (ds.drop 1))
    have hstrip := length_stripZeros_le (ds.drop 1)
    have hexp := length_exponentText_le hx
    rw [List.length_drop] at hstrip
    simp only [List.length_take]
    omega
  · have hnone : (exponentText none).length = 0 := rfl
    split
    · have hfrac := length_fractionText_le (stripZeros (List.replicate (-x - 1).toNat 0 ++ ds))
      have hstrip := length_stripZeros_le (List.replicate (-x - 1).toNat 0 ++ ds)
      rw [List.length_append, List.length_replicate] at hstrip
      simp only [List.length_singleton]
      omega
    · have hfrac := length_fractionText_le (stripZeros (ds.drop (x + 1).toNat))
      have hstrip := length_stripZeros_le (ds.drop (x + 1).toNat)
      rw [List.length_drop] at hstrip
      simp only [List.length_take]
      omega

/-- `%g` writes at most seven characters besides the significant digits. -/
theorem length_gText_le {digits : Nat} (hd : 0 < digits) (neg : Bool) (m : Magnitude) :
    (gText digits (.finite neg m)).length ≤ digits + 7 := by
  have hsign : (signText neg).length ≤ 1 := by cases neg <;> decide
  rw [gText, List.length_append]
  by_cases hm : m.units = 0
  · have hzero : (numeralText ⟨[0], [], none⟩).length = 1 := rfl
    rw [Magnitude.gNumeral, if_pos hm]
    omega
  · have hbounds := m.decimalExponent_bounds hm
    have hx : (significant digits m.units Binary64.unitsPerOne).2 =
        decimalExponent m.units Binary64.unitsPerOne + 1 ∨
        (significant digits m.units Binary64.unitsPerOne).2 =
          decimalExponent m.units Binary64.unitsPerOne := by
      simp only [significant]
      split
      · exact .inl rfl
      · exact .inr rfl
    have := length_numeralText_gNumeral (s := (significant digits m.units Binary64.unitsPerOne).1)
      (x := (significant digits m.units Binary64.unitsPerOne).2) hd (by omega)
    rw [Magnitude.gNumeral_of_ne_zero hm]
    omega

/-- The characters of a printed finite number. -/
theorem numeralChar_gText {digits : Nat} {neg : Bool} {m : Magnitude} {c : UInt8}
    (h : c ∈ gText digits (.finite neg m)) : numeralChar c = true := by
  rcases List.mem_append.mp h with h | h
  · exact numeralChar_signText h
  · exact numeralChar_numeralText h

/-- A printed finite number begins with a minus sign or a digit. -/
theorem gText_head {digits : Nat} (hd : 0 < digits) (neg : Bool) (m : Magnitude) :
    ∃ c rest, gText digits (.finite neg m) = c :: rest ∧
      (c = ascii '-' ∨ ∃ d, c = digitByte d) := by
  have hne := m.gNumeral_intDigits hd
  cases neg with
  | true => exact ⟨_, _, rfl, .inl rfl⟩
  | false =>
    cases hints : (m.gNumeral digits).intDigits with
    | nil => exact absurd hints hne
    | cons d ds => exact ⟨digitByte d, _, by rw [gText, numeralText, hints]; rfl, .inr ⟨d, rfl⟩⟩

end LedaSdk.Base
