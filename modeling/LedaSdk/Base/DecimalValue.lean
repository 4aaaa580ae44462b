import LedaSdk.Base.Numeral
import Mathlib.Algebra.Order.Field.Rat
import Mathlib.Algebra.Order.Ring.Abs
import Mathlib.Data.Rat.Cast.Order
import Mathlib.Tactic.FieldSimp
import Mathlib.Tactic.Positivity

/-!
# The value of a decimal numeral

Rational numbers as the values of numerals, and the double nearest to a rational number. What
`strtod` makes of a numeral is nearest to its value.
-/

namespace LedaSdk.Base

/-- A common factor does not matter for rounding. -/
theorem roundDiv_mul_left {a b k : Nat} (hk : 0 < k) : roundDiv (k * a) (k * b) = roundDiv a b := by
  have hlt (m n : Nat) : k * m < k * n ↔ m < n := Nat.mul_lt_mul_left hk
  rw [roundDiv, roundDiv, Nat.mul_mod_mul_left, Nat.mul_div_mul_left _ _ hk, Nat.mul_left_comm]
  simp only [hlt]

theorem roundUnits_mul_left {p q k : Nat} (hk : 0 < k) :
    roundUnits (k * p) (k * q) = roundUnits p q := by
  have hulp : ulpExponent (k * p) (k * q) = ulpExponent p q := by
    rw [ulpExponent, ulpExponent, Nat.mul_div_mul_left _ _ hk]
  rw [roundUnits, roundUnits, hulp, Nat.mul_assoc, roundDiv_mul_left hk]

namespace Binary64

/-- The nearest double depends on the quotient only. -/
theorem ofRatio_congr {neg : Bool} {p q p' q' : Nat} (hq : 0 < q) (hq' : 0 < q')
    (h : p * q' = p' * q) : ofRatio neg p q = ofRatio neg p' q' := by
  have hround : roundUnits (p * unitsPerOne) q = roundUnits (p' * unitsPerOne) q' := by
    have hleft := roundUnits_mul_left (p := p * unitsPerOne) (q := q) hq'
    have hright := roundUnits_mul_left (p := p' * unitsPerOne) (q := q') hq
    have hsame : q' * (p * unitsPerOne) = q * (p' * unitsPerOne) := by
      rw [← Nat.mul_assoc, ← Nat.mul_assoc, Nat.mul_comm q', Nat.mul_comm q, h]
    rw [← hleft, ← hright, hsame, Nat.mul_comm q' q]
  simp only [ofRatio, hround]

/-- The double nearest to a rational number, an infinity if that is too large. -/
def ofRat (r : ℚ) : Binary64 := ofRatio (r < 0) r.num.natAbs r.den

/-- A finite number that C compares equal to the double nearest to `r`. -/
def NearestTo (d : Binary64) (r : ℚ) : Prop := d.IsFinite ∧ d.eq (ofRat r) = true

theorem NearestTo.isFinite_ofRat {d : Binary64} {r : ℚ} (h : d.NearestTo r) :
    (ofRat r).IsFinite := by
  obtain ⟨hd, heq⟩ := h
  cases d with
  | nan | inf neg => exact hd.elim
  | finite neg m =>
    cases hr : ofRat r with
    | nan | inf neg' =>
      rw [hr] at heq
      cases heq
    | finite neg' n => trivial

/-- The nearest double of a signed quotient. -/
theorem nearestTo_ofRatio {neg : Bool} {p q : Nat} {r : ℚ} (hq : 0 < q)
    (hr : r = (if neg then -1 else 1) * (p / q)) (hfinite : (ofRat r).IsFinite) :
    (ofRatio neg p q).NearestTo r := by
  have hq0 : (q : ℚ) ≠ 0 := Nat.cast_ne_zero.mpr hq.ne'
  have habs : |r| = p / q := by
    have hpos : |(p / q : ℚ)| = p / q := abs_of_nonneg (by positivity)
    cases neg with
    | false => rw [hr, if_neg Bool.false_ne_true, one_mul, hpos]
    | true => rw [hr, if_pos rfl, neg_one_mul, abs_neg, hpos]
  have hratio : p * r.den = r.num.natAbs * q := by
    have hnum : (r.num.natAbs : ℚ) = |r| * r.den := by
      rw [Nat.cast_natAbs, Int.cast_abs, ← Rat.mul_den_eq_num, abs_mul, Nat.abs_cast]
    have hcast : ((p * r.den : Nat) : ℚ) = (r.num.natAbs * q : Nat) := by
      rw [Nat.cast_mul, Nat.cast_mul, hnum, habs]
      field_simp
    exact Nat.cast_injective hcast
  have hsame : ofRatio (r < 0) p q = ofRat r := ofRatio_congr hq r.den_pos hratio
  have hself : ∀ d : Binary64, d.IsFinite → d.eq d = true := by
    intro d hd
    cases d with
    | nan | inf neg => exact hd.elim
    | finite neg m => exact beq_self_eq_true _
  rcases Nat.eq_zero_or_pos p with rfl | hp
  · have hzero (b : Bool) : ofRatio b 0 q = .finite b ⟨0, Nat.two_pow_pos _, Precise.zero⟩ :=
      ofRatio_zero hq rfl
    rw [NearestTo, ← hsame, hzero, hzero]
    refine ⟨trivial, ?_⟩
    rw [eq, beq_iff_eq]
    simp [signedUnits]
  · have hsign : decide (r < 0) = neg := by
      have hpos : (0 : ℚ) < p / q := by positivity
      cases neg with
      | false => exact decide_eq_false (by rw [hr]; simpa using hpos.le)
      | true => exact decide_eq_true (by rw [hr]; simpa using hpos)
    rw [hsign] at hsame
    rw [NearestTo, hsame]
    exact ⟨hfinite, hself _ hfinite⟩

end Binary64

/-- The value of a decimal numeral with a sign. -/
def Numeral.toRat (neg : Bool) (x : Numeral 10) : ℚ :=
  (if neg then -1 else 1) * (ofDigits (x.intDigits ++ x.fracDigits) *
    10 ^ (x.exponent.getD 0 - (x.fracDigits.length : ℤ)))

/-- A numeral whose value is not too large is read as a double nearest to it. -/
theorem Numeral.nearestTo_toBinary64 (neg : Bool) (x : Numeral 10)
    (hfinite : (Binary64.ofRat (x.toRat neg)).IsFinite) :
    (x.toBinary64 10 1 neg).NearestTo (x.toRat neg) := by
  have hpow (e : ℤ) : (10 : ℚ) ^ e = 10 ^ e.toNat / 10 ^ (-e).toNat := by
    rw [← zpow_natCast, ← zpow_natCast, ← zpow_sub₀ (by norm_num)]
    congr 1
    omega
  refine Binary64.nearestTo_ofRatio (by rw [quotient]; positivity) ?_ hfinite
  rw [toRat, hpow, quotient]
  push_cast
  rw [one_mul, mul_div_assoc]

end LedaSdk.Base
