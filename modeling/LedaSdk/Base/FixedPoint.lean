import LedaSdk.Base.FloatText
import Mathlib.Data.Nat.Prime.Basic

/-!
# Six digits after the point

`%lf` loses digits of a double, but only once: the double nearest to the text has the same
text. Where doubles are closer to each other than the decimals, the nearest double is within
one half of a decimal; where they are not, the text already determines the double.
-/

namespace LedaSdk.Base

/-- What is within half of `U` of a ratio has as many places as the ratio, if half of the last
place is more than that. -/
theorem two_pow_le_of_near {U q u p k : Nat} (hu : Precise u) (hk : 0 < k)
    (hcoarse : U < q * 2 ^ k) (hp : 2 ^ (52 + k) * q ≤ p) (hnear : 2 * p ≤ 2 * (u * q) + U) :
    2 ^ (52 + k) ≤ u := by
  by_contra hlt
  have hgap := hu.add_le_two_pow (by omega) (Nat.lt_of_not_le hlt)
  rw [show 52 + k - 53 = k - 1 by omega] at hgap
  have hmul := Nat.mul_le_mul_right q hgap
  rw [Nat.add_mul] at hmul
  have hhalf : q * 2 ^ k = 2 * (2 ^ (k - 1) * q) := by
    rw [show k = k - 1 + 1 by omega, Nat.pow_succ, Nat.add_sub_cancel]
    ring
  omega

/-- A double is a multiple of the last place that it can have at its size. -/
theorem Precise.two_pow_dvd {u k : Nat} (hu : Precise u) (hle : 2 ^ (52 + k) ≤ u) : 2 ^ k ∣ u := by
  have hpos : 0 < 2 ^ (52 + k) := by positivity
  have hlog : 52 + k ≤ u.log2 := (Nat.le_log2 (by omega)).mpr hle
  exact (Nat.pow_dvd_pow 2 (by omega)).trans hu

section Rounding
variable {U q u : Nat} (hU : 0 < U) (hq : 0 < q) (hle : q ≤ U) (hne : ∀ k, q * 2 ^ k ≠ U)
  (hu : Precise u)
include hU hq hle hne hu

/-- The double nearest to a decimal that a double was rounded to is that double, or the last
place of the decimal is above its own. -/
theorem roundUnits_roundDiv :
    roundUnits (roundDiv (u * q) U * U) q = u ∨
      q * 2 ^ ulpExponent (roundDiv (u * q) U * U) q < U := by
  obtain ⟨hlo, hhi⟩ := roundDiv_error (a := u * q) hU
  generalize roundDiv (u * q) U * U = p at *
  by_cases hfine : q * 2 ^ ulpExponent p q < U
  · exact .inr hfine
  left
  have hcoarse : U < q * 2 ^ ulpExponent p q :=
    Nat.lt_of_le_of_ne (Nat.le_of_not_lt hfine) (hne _).symm
  have hk : 0 < ulpExponent p q := by
    by_contra hzero
    rw [Nat.eq_zero_of_not_pos hzero, Nat.pow_zero, Nat.mul_one] at hcoarse
    omega
  have hp := le_of_ulpExponent hq hk
  rw [roundUnits]
  generalize ulpExponent p q = k at *
  obtain ⟨m, rfl⟩ := hu.two_pow_dvd (two_pow_le_of_near hu hk hcoarse hp hhi)
  have hround : roundDiv p (q * 2 ^ k) = m := by
    have hm : m * (q * 2 ^ k) = 2 ^ k * m * q := by ring
    apply roundDiv_eq <;> omega
  rw [hround, Nat.mul_comm]

/-- Rounding to a decimal forgets nothing more the second time. -/
theorem roundDiv_roundUnits :
    roundDiv (roundUnits (roundDiv (u * q) U * U) q * q) U = roundDiv (u * q) U := by
  obtain hsame | hfine := roundUnits_roundDiv hU hq hle hne hu
  · rw [hsame]
  · have hpos : 0 < q * 2 ^ ulpExponent (roundDiv (u * q) U * U) q := by positivity
    obtain ⟨hlo, hhi⟩ := roundDiv_error (a := roundDiv (u * q) U * U) hpos
    rw [roundUnits]
    generalize roundDiv (u * q) U = s at *
    generalize ulpExponent (s * U) q = k at *
    generalize roundDiv (s * U) (q * 2 ^ k) = r at *
    have hr : r * 2 ^ k * q = r * (q * 2 ^ k) := by ring
    apply roundDiv_eq <;> rw [hr] <;> omega

end Rounding

theorem roundUnits_le {p q : Nat} (hq : 0 < q) : roundUnits p q ≤ 2 ^ 53 * 2 ^ ulpExponent p q := by
  have hlt := lt_of_ulpExponent (p := p) hq
  rw [Nat.pow_add] at hlt
  rw [roundUnits]
  apply Nat.mul_le_mul_right
  apply roundDiv_le (by positivity)
  rw [show 2 ^ 53 * (q * 2 ^ ulpExponent p q) = 2 ^ 53 * 2 ^ ulpExponent p q * q by ring]
  exact hlt.le

theorem ofDigits_fixedDigits_mod {b : Nat} [NeZero b] (n s : Nat) :
    ofDigits (fixedDigits b n s) = s % b ^ n := by
  induction n generalizing s with
  | zero => rw [Nat.pow_zero, Nat.mod_one]; rfl
  | succ n ih =>
    rw [fixedDigits, ofDigits_append, ih, ofDigits_singleton, List.length_singleton, Nat.pow_one,
      Nat.pow_succ', Nat.mod_mul, Fin.val_ofNat]
    ring

section SixDigits
open Binary64

/-- The double in units of `10 ^ -6`. -/
def Magnitude.millionths (m : Magnitude) : Nat := roundDiv (m.units * 10 ^ 6) unitsPerOne

/-- The numeral that `%lf` writes for a magnitude. -/
def Magnitude.lfNumeral (m : Magnitude) : Numeral 10 :=
  ⟨decimalDigits (m.millionths / 10 ^ 6), fixedDigits 10 6 m.millionths, none⟩

theorem lfText_finite (neg : Bool) (m : Magnitude) :
    lfText (.finite neg m) = signText neg ++ numeralText m.lfNumeral := by
  have hne : fixedDigits 10 6 m.millionths ≠ [] := by
    rw [← List.length_pos_iff, length_fixedDigits]
    decide
  rw [lfText, numeralText, Magnitude.lfNumeral, fractionText, if_neg hne, exponentText,
    List.append_nil, List.append_assoc]
  rfl

theorem million_ne (k : Nat) : 10 ^ 6 * 2 ^ k ≠ unitsPerOne := by
  intro h
  have hdvd : 5 ∣ 2 ^ fractionBits := by
    rw [unitsPerOne] at h
    rw [← h]
    exact Dvd.dvd.mul_right (by decide) _
  exact absurd (Nat.prime_five.dvd_of_dvd_pow hdvd) (by decide)

theorem million_le : 10 ^ 6 ≤ unitsPerOne := by
  rw [unitsPerOne]
  calc 10 ^ 6 ≤ 2 ^ 20 := by decide
    _ ≤ 2 ^ fractionBits := Nat.pow_le_pow_right (by decide) (by unfold fractionBits; omega)

theorem Magnitude.toBinary64_lfNumeral (neg : Bool) (m : Magnitude) :
    m.lfNumeral.toBinary64 10 1 neg = .ofRatio neg m.millionths (10 ^ 6) := by
  have hdigits : ofDigits (decimalDigits (m.millionths / 10 ^ 6) ++
      fixedDigits 10 6 m.millionths) = m.millionths := by
    rw [ofDigits_append, length_fixedDigits, ofDigits_decimalDigits, ofDigits_fixedDigits_mod]
    exact Nat.div_add_mod' _ _
  rw [Numeral.toBinary64, Numeral.quotient, Magnitude.lfNumeral]
  have hexp : (none : Option Int).getD 0 - (1 : Nat) * (6 : Nat) = -6 := rfl
  simp only [hdigits, length_fixedDigits, hexp]
  rw [show (-6 : Int).toNat = 0 from rfl, show (- -6 : Int).toNat = 6 from rfl, Nat.pow_zero,
    Nat.mul_one]

/-- The double nearest to the text of a double does not overflow. -/
theorem Magnitude.roundUnits_millionths_lt (m : Magnitude) :
    roundUnits (m.millionths * unitsPerOne) (10 ^ 6) < 2 ^ magnitudeBits := by
  obtain hsame | hfine := roundUnits_roundDiv unitsPerOne_pos (show 0 < 10 ^ 6 by decide)
    million_le million_ne m.precise
  · rw [Magnitude.millionths, hsame]
    exact m.finite
  · rw [← Magnitude.millionths] at hfine
    have hle := roundUnits_le (p := m.millionths * unitsPerOne) (show 0 < 10 ^ 6 by decide)
    generalize ulpExponent (m.millionths * unitsPerOne) (10 ^ 6) = k at *
    have hplace : 2 ^ k < unitsPerOne := by omega
    calc roundUnits (m.millionths * unitsPerOne) (10 ^ 6) ≤ 2 ^ 53 * 2 ^ k := hle
      _ < 2 ^ 53 * 2 ^ fractionBits := Nat.mul_lt_mul_of_pos_left hplace (by decide)
      _ = 2 ^ (53 + fractionBits) := (Nat.pow_add ..).symm
      _ ≤ 2 ^ magnitudeBits := Nat.pow_le_pow_right (by decide) (by
        unfold magnitudeBits fractionBits
        omega)

/-- The double nearest to the text of a double is finite and has that text. -/
theorem strtod_lfText (neg : Bool) (m : Magnitude) :
    ∃ m', strtod (lfText (.finite neg m)) = some (.finite neg m', []) ∧
      lfText (.finite neg m') = lfText (.finite neg m) := by
  have hlt := m.roundUnits_millionths_lt
  refine ⟨⟨_, hlt, roundUnits_precise _ _⟩, ?_, ?_⟩
  · rw [lfText_finite, strtod_numeralText neg _ (decimalDigits_ne_nil _),
      m.toBinary64_lfNumeral, ofRatio, dif_pos hlt]
  · have hsame := roundDiv_roundUnits unitsPerOne_pos (show 0 < 10 ^ 6 by decide) million_le
      million_ne m.precise
    rw [← Magnitude.millionths] at hsame
    rw [lfText_finite, lfText_finite, Magnitude.lfNumeral, Magnitude.lfNumeral,
      Magnitude.millionths, hsame]

theorem lfText_noNul (neg : Bool) (m : Magnitude) : 0 ∉ lfText (.finite neg m) := by
  rw [lfText_finite]
  intro h
  have hchar : numeralChar 0 = true := by
    rcases List.mem_append.mp h with h | h
    · exact numeralChar_signText h
    · exact numeralChar_numeralText h
  exact absurd hchar (by decide)

theorem length_decimalDigits_le {n k : Nat} (hk : 0 < k) (h : n < 10 ^ k) :
    (decimalDigits n).length ≤ k := by
  rw [decimalDigits, length_fixedDigits]
  rcases Nat.eq_zero_or_pos n with rfl | hpos
  · rw [Nat.log_zero_right]
    exact hk
  · exact Nat.log_lt_of_lt_pow hpos.ne' h

/-- The whole part of the text of a double is less than the double counted in its units. -/
theorem Magnitude.millionths_div_le (m : Magnitude) : m.millionths / 10 ^ 6 ≤ m.units := by
  apply Nat.div_le_of_le_mul
  rw [Nat.mul_comm]
  exact roundDiv_le unitsPerOne_pos (Nat.le_mul_of_pos_right _ unitsPerOne_pos)

theorem length_lfText_le (neg : Bool) (m : Magnitude) : (lfText (.finite neg m)).length ≤ 708 := by
  have hsign : (signText neg).length ≤ 1 := by cases neg <;> decide
  have hlt : m.millionths / 10 ^ 6 < 2 ^ magnitudeBits := m.millionths_div_le.trans_lt m.finite
  have hdigits : (decimalDigits (m.millionths / 10 ^ 6)).length ≤ 700 :=
    length_decimalDigits_le (by decide) (hlt.trans_le (two_pow_le_ten_pow (by
      unfold magnitudeBits
      omega)))
  rw [lfText]
  change (signText neg ++ digitText (decimalDigits (m.millionths / 10 ^ 6)) ++ ascii '.' ::
    digitText (fixedDigits 10 6 m.millionths)).length ≤ 708
  simp only [List.length_append, List.length_cons, digitText, List.length_map, length_fixedDigits]
  omega

/-- `atof` of the text of a double. -/
theorem atof_lfText {s : CStr} {neg : Bool} {m : Magnitude} (h : s.bytes = lfText (.finite neg m)) :
    ∃ m', atof s = .finite neg m' ∧ lfText (.finite neg m') = lfText (.finite neg m) := by
  obtain ⟨m', hread, htext⟩ := strtod_lfText neg m
  exact ⟨m', by rw [atof, h, hread]; rfl, htext⟩

end SixDigits

end LedaSdk.Base
