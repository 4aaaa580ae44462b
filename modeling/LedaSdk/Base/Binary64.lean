import Mathlib.Data.Nat.Log
import Mathlib.Tactic.Ring
import Mathlib.Tactic.Linarith

/-!
# Binary floating-point numbers of 64 bits

The C type `double`. A finite magnitude is a whole number of units of `2 ^ -1074`, the
smallest positive double, with at most 53 significant bits. Rounding to the nearest
magnitude, ties to even, is exact on representable values and recovers a magnitude from
every quotient that is within `2 ^ -54` of it.
-/

namespace LedaSdk.Base

/-- The quotient `a / b` rounded to the nearest integer, ties to even. -/
def roundDiv (a b : Nat) : Nat :=
  if 2 * (a % b) < b then a / b
  else if b < 2 * (a % b) then a / b + 1
  else a / b + a / b % 2

/-- A quotient strictly within one half of an integer rounds to it. -/
theorem roundDiv_eq {a b m : Nat} (hlo : 2 * (m * b) < 2 * a + b)
    (hhi : 2 * a < 2 * (m * b) + b) : roundDiv a b = m := by
  have hb : 0 < b := by omega
  have hsum : a / b * b + a % b = a := Nat.div_add_mod' a b
  have hmod : a % b < b := Nat.mod_lt a hb
  have hle : a / b ≤ m := by
    by_contra h
    have := Nat.mul_le_mul_right b (show m + 1 ≤ a / b by omega)
    rw [Nat.succ_mul] at this
    omega
  have hge : m ≤ a / b + 1 := by
    by_contra h
    have := Nat.mul_le_mul_right b (show a / b + 2 ≤ m by omega)
    rw [Nat.add_mul] at this
    omega
  rw [roundDiv]
  rcases Nat.eq_or_lt_of_le hle with heq | hlt
  · rw [heq] at hsum ⊢
    rw [if_pos (by omega)]
  · obtain rfl : m = a / b + 1 := by omega
    rw [Nat.add_one_mul (a / b) b] at hlo hhi
    rw [if_neg (by omega), if_pos (by omega)]

/-- Rounding moves a quotient by at most one half. -/
theorem roundDiv_error {a b : Nat} (hb : 0 < b) :
    2 * a ≤ 2 * (roundDiv a b * b) + b ∧ 2 * (roundDiv a b * b) ≤ 2 * a + b := by
  have hsum : a / b * b + a % b = a := Nat.div_add_mod' a b
  have hmod : a % b < b := Nat.mod_lt a hb
  rw [roundDiv]
  split
  · omega
  · split
    · rw [Nat.add_one_mul (a / b) b]
      omega
    · rcases Nat.mod_two_eq_zero_or_one (a / b) with h | h <;> rw [h]
      · rw [Nat.add_zero]
        omega
      · rw [Nat.add_one_mul (a / b) b]
        omega

/-- Rounding does not cross an integer from below. -/
theorem roundDiv_le {a b m : Nat} (hb : 0 < b) (h : a ≤ m * b) : roundDiv a b ≤ m := by
  by_contra hgt
  have hmul := Nat.mul_le_mul_right b (show m + 1 ≤ roundDiv a b by omega)
  rw [Nat.succ_mul] at hmul
  have := (roundDiv_error (a := a) hb).2
  omega

/-- Rounding does not cross an integer from above. -/
theorem le_roundDiv {a b m : Nat} (hb : 0 < b) (h : m * b ≤ a) : m ≤ roundDiv a b := by
  by_contra hlt
  have hmul := Nat.mul_le_mul_right b (show roundDiv a b + 1 ≤ m by omega)
  rw [Nat.succ_mul] at hmul
  have := (roundDiv_error (a := a) hb).1
  omega

/-- At most 53 significant bits, counted from the top bit down to the unit. -/
def Precise (u : Nat) : Prop := 2 ^ (u.log2 - 52) ∣ u

instance (u : Nat) : Decidable (Precise u) := inferInstanceAs (Decidable (_ ∣ _))

theorem Precise.zero : Precise 0 := ⟨0, rfl⟩

/-- A multiple of a power of two by at most `2 ^ 53`. -/
theorem Precise.mul_two_pow {m k : Nat} (hm : m ≤ 2 ^ 53) : Precise (m * 2 ^ k) := by
  rcases Nat.eq_zero_or_pos m with rfl | hpos
  · rw [Nat.zero_mul]
    exact Precise.zero
  have hne : m * 2 ^ k ≠ 0 := by positivity
  rcases Nat.eq_or_lt_of_le hm with rfl | hlt
  · rw [Precise, ← Nat.pow_add, Nat.log2_two_pow]
    exact Nat.pow_dvd_pow 2 (by omega)
  · have hlog : (m * 2 ^ k).log2 < 53 + k := by
      rw [Nat.log2_lt hne, Nat.pow_add]
      exact Nat.mul_lt_mul_of_pos_right hlt (by positivity)
    exact Dvd.dvd.mul_left (Nat.pow_dvd_pow 2 (by omega)) m

/-- Below a power of two a precise number keeps a gap of 53 bits. -/
theorem Precise.add_le_two_pow {u e : Nat} (hu : Precise u) (he : 53 ≤ e) (hlt : u < 2 ^ e) :
    u + 2 ^ (e - 53) ≤ 2 ^ e := by
  rcases Nat.eq_zero_or_pos u with rfl | hpos
  · rw [Nat.zero_add]
    exact Nat.pow_le_pow_right (by decide) (by omega)
  have hlog : u.log2 < e := (Nat.log2_lt hpos.ne').mpr hlt
  rcases Nat.eq_or_lt_of_le (show u.log2 + 1 ≤ e by omega) with htop | hbelow
  · have hdvd : 2 ^ (e - 53) ∣ u := by
      have := hu
      rwa [Precise, show u.log2 - 52 = e - 53 by omega] at this
    have hdvd' : 2 ^ (e - 53) ∣ 2 ^ e := Nat.pow_dvd_pow 2 (by omega)
    have := Nat.le_of_dvd (by omega) (Nat.dvd_sub hdvd' hdvd)
    omega
  · have hhalf : u < 2 ^ (e - 1) := by
      rw [← Nat.log2_lt hpos.ne']
      omega
    have hgap : 2 ^ (e - 53) ≤ 2 ^ (e - 1) := Nat.pow_le_pow_right (by decide) (by omega)
    have hsplit : 2 ^ e = 2 * 2 ^ (e - 1) := by
      rw [← Nat.pow_succ', Nat.succ_eq_add_one, Nat.sub_add_cancel (by omega)]
    omega

/-- Above a power of two a precise number keeps a gap of 52 bits. -/
theorem Precise.two_pow_add_le {u e : Nat} (hu : Precise u) (he : 52 ≤ e) (hgt : 2 ^ e < u) :
    2 ^ e + 2 ^ (e - 52) ≤ u := by
  have hlog : e ≤ u.log2 := (Nat.le_log2 (Nat.ne_zero_of_lt hgt)).mpr hgt.le
  have hdvd : 2 ^ (e - 52) ∣ u := (Nat.pow_dvd_pow 2 (by omega)).trans hu
  have hdvd' : 2 ^ (e - 52) ∣ 2 ^ e := Nat.pow_dvd_pow 2 (by omega)
  have := Nat.le_of_dvd (by omega) (Nat.dvd_sub hdvd hdvd')
  omega

/-- Position of the unit in the last place of the quotient `p / q`. -/
def ulpExponent (p q : Nat) : Nat := (p / q).log2 - 52

/-- The quotient `p / q` rounded to 53 significant bits, or to the unit if it is small. -/
def roundUnits (p q : Nat) : Nat :=
  roundDiv p (q * 2 ^ ulpExponent p q) * 2 ^ ulpExponent p q

theorem lt_of_ulpExponent {p q : Nat} (hq : 0 < q) : p < 2 ^ (53 + ulpExponent p q) * q := by
  have hlog : p / q < 2 ^ ((p / q).log2 + 1) := Nat.lt_log2_self
  have hle : 2 ^ ((p / q).log2 + 1) ≤ 2 ^ (53 + ulpExponent p q) :=
    Nat.pow_le_pow_right (by decide) (by rw [ulpExponent]; omega)
  exact (Nat.div_lt_iff_lt_mul hq).mp (hlog.trans_le hle)

theorem le_of_ulpExponent {p q : Nat} (hq : 0 < q) (hk : 0 < ulpExponent p q) :
    2 ^ (52 + ulpExponent p q) * q ≤ p := by
  rw [ulpExponent] at hk ⊢
  rw [show 52 + ((p / q).log2 - 52) = (p / q).log2 by omega]
  have hne : p / q ≠ 0 := by
    intro h
    rw [h, Nat.log2_zero] at hk
    omega
  exact (Nat.le_div_iff_mul_le hq).mp (Nat.log2_self_le hne)

theorem roundUnits_precise (p q : Nat) : Precise (roundUnits p q) := by
  apply Precise.mul_two_pow
  rcases Nat.eq_zero_or_pos q with rfl | hq
  · rw [roundDiv, Nat.zero_mul, Nat.div_zero]
    split
    · omega
    · split <;> omega
  · apply roundDiv_le (by positivity)
    have := lt_of_ulpExponent (p := p) hq
    rw [Nat.pow_add] at this
    linarith

section Recovery
variable {p q u : Nat}

/-- The quotient `p / q` lies within `u * 2 ^ -54` of `u`. -/
def Close (p q u : Nat) : Prop :=
  p * 2 ^ 54 < u * q * (2 ^ 54 + 1) ∧ u * q * (2 ^ 54 - 1) < p * 2 ^ 54

/-- The last place of a quotient close to a precise number is not above its own. -/
private theorem ulpExponent_dvd (hq : 0 < q) (hu : Precise u) (hc : Close p q u) :
    2 ^ ulpExponent p q ∣ u := by
  rcases Nat.eq_zero_or_pos (ulpExponent p q) with hk | hk
  · rw [hk]
    exact one_dvd u
  generalize hke : ulpExponent p q = k at hk
  have hp : 2 ^ (52 + k) * q ≤ p := by
    rw [← hke]
    exact le_of_ulpExponent hq (by omega)
  have hlog : 2 ^ (52 + k) ≤ u := by
    by_contra hlt
    have hgap := hu.add_le_two_pow (by omega) (Nat.lt_of_not_le hlt)
    rw [show 52 + k - 53 = k - 1 by omega] at hgap
    have hpow : 2 ^ (52 + k) = 2 ^ 53 * 2 ^ (k - 1) := by
      rw [← Nat.pow_add]
      congr 1
      omega
    have hupper := hc.1
    -- The quotient is at least `u` and a gap of `2 ^ (k - 1)`, more than it may exceed `u`.
    have hmul : (u + 2 ^ (k - 1)) * q ≤ p := (Nat.mul_le_mul_right q hgap).trans hp
    have hlt' : u * q < 2 ^ 53 * 2 ^ (k - 1) * q := by
      rw [← hpow]
      exact Nat.mul_lt_mul_of_pos_right (Nat.lt_of_not_le hlt) hq
    rw [Nat.add_mul] at hmul
    generalize u * q = a at *
    have hassoc : 2 ^ 53 * 2 ^ (k - 1) * q = 2 ^ 53 * (2 ^ (k - 1) * q) := by ring
    rw [hassoc] at hlt'
    generalize 2 ^ (k - 1) * q = b at *
    omega
  have hne : u ≠ 0 := by
    have : 0 < 2 ^ (52 + k) := by positivity
    omega
  have hle : 52 + k ≤ u.log2 := (Nat.le_log2 hne).mpr hlog
  exact (Nat.pow_dvd_pow 2 (by omega)).trans hu

/-- A precise number close to a quotient has at most 53 bits above the quotient's last
place. -/
private theorem le_two_pow_of_close (hq : 0 < q) (hu : Precise u) (hc : Close p q u) :
    u ≤ 2 ^ 53 * 2 ^ ulpExponent p q := by
  have hp := lt_of_ulpExponent (p := p) hq
  generalize ulpExponent p q = k at *
  by_contra hgt
  have hgap := hu.two_pow_add_le (e := 53 + k) (by omega) (by rw [Nat.pow_add]; omega)
  rw [show 53 + k - 52 = k + 1 by omega, Nat.pow_add] at hgap
  have hlower := hc.2
  have hmul := Nat.mul_le_mul_right q hgap
  rw [Nat.pow_add] at hp
  have h1 : (2 ^ 53 * 2 ^ k + 2 ^ (k + 1)) * q = (2 ^ 53 + 2) * (2 ^ k * q) := by ring
  have h2 : 2 ^ 53 * 2 ^ k * q = 2 ^ 53 * (2 ^ k * q) := by ring
  rw [h1] at hmul
  rw [h2] at hp
  generalize u * q = a at *
  generalize 2 ^ k * q = b at *
  omega

/-- Rounding recovers a precise number from every quotient close to it. -/
theorem roundUnits_of_close (hq : 0 < q) (hu : Precise u) (hc : Close p q u) :
    roundUnits p q = u := by
  obtain ⟨m, hm⟩ := ulpExponent_dvd hq hu hc
  have hbound := le_two_pow_of_close hq hu hc
  rw [roundUnits]
  generalize ulpExponent p q = k at *
  have hround : roundDiv p (q * 2 ^ k) = m := by
    obtain ⟨hupper, hlower⟩ := hc
    have hmul := Nat.mul_le_mul_right q hbound
    have h1 : m * (q * 2 ^ k) = u * q := by
      rw [hm]
      ring
    have h2 : 2 ^ 53 * 2 ^ k * q = 2 ^ 53 * (q * 2 ^ k) := by ring
    rw [h2] at hmul
    apply roundDiv_eq <;> rw [h1]
    · generalize u * q = a at *
      generalize q * 2 ^ k = b at *
      omega
    · generalize u * q = a at *
      generalize q * 2 ^ k = b at *
      omega
  rw [hround, hm, Nat.mul_comm]

/-- Rounding is exact on a precise number. -/
theorem roundUnits_exact (hq : 0 < q) (hu : Precise u) : roundUnits (u * q) q = u := by
  rcases Nat.eq_zero_or_pos u with rfl | hpos
  · have h : roundDiv 0 (q * 2 ^ ulpExponent 0 q) ≤ 0 := roundDiv_le (by positivity) (by omega)
    rw [Nat.zero_mul, roundUnits, Nat.le_zero.mp h, Nat.zero_mul]
  · have huq : 0 < u * q := by positivity
    apply roundUnits_of_close hq hu
    constructor <;> omega

end Recovery

/-- The unit is `2 ^ -1074`. -/
@[irreducible] def fractionBits : Nat := 1074

/-- Magnitudes are below `2 ^ 1024`. -/
@[irreducible] def magnitudeBits : Nat := 1024 + 1074

/-- A finite magnitude in units of `2 ^ -1074`. -/
structure Magnitude where
  units : Nat
  finite : units < 2 ^ magnitudeBits
  precise : Precise units
  deriving DecidableEq

/-- The C type `double`; the payload and the sign of a NaN are not represented. -/
inductive Binary64 where
  | nan
  | inf (neg : Bool)
  | finite (neg : Bool) (m : Magnitude)
  deriving DecidableEq

namespace Binary64

/-- Number of units in `1.0`. -/
def unitsPerOne : Nat := 2 ^ fractionBits

theorem unitsPerOne_pos : 0 < unitsPerOne := Nat.two_pow_pos _

/-- The double nearest to `p / q`, with the given sign. -/
def ofRatio (neg : Bool) (p q : Nat) : Binary64 :=
  if h : roundUnits (p * unitsPerOne) q < 2 ^ magnitudeBits then
    .finite neg ⟨roundUnits (p * unitsPerOne) q, h, roundUnits_precise _ _⟩
  else .inf neg

/-- Every quotient close to a magnitude rounds to it. -/
theorem ofRatio_of_close {neg : Bool} {p q : Nat} {m : Magnitude} (hq : 0 < q)
    (hc : Close (p * unitsPerOne) q m.units) : ofRatio neg p q = .finite neg m := by
  have hr := roundUnits_of_close hq m.precise hc
  have hlt := m.finite
  rw [← hr] at hlt
  rw [ofRatio, dif_pos hlt]
  congr 1
  cases m
  exact (Magnitude.mk.injEq ..).mpr hr

/-- Zero is exact. -/
theorem ofRatio_zero {neg : Bool} {q : Nat} {m : Magnitude} (hq : 0 < q) (hm : m.units = 0) :
    ofRatio neg 0 q = .finite neg m := by
  have hr : roundUnits (0 * unitsPerOne) q = m.units := by
    rw [hm, Nat.zero_mul]
    simpa using roundUnits_exact hq Precise.zero
  have hlt := m.finite
  rw [← hr] at hlt
  rw [ofRatio, dif_pos hlt]
  congr 1
  cases m
  exact (Magnitude.mk.injEq ..).mpr hr

/-- C conversion of an integer to `double`. -/
def ofInt (n : Int) : Binary64 := ofRatio (n < 0) n.natAbs 1

/-- Neither a NaN nor an infinity. -/
def IsFinite : Binary64 → Prop
  | .finite _ _ => True
  | _ => False

/-- The value of a finite number in units of `2 ^ -1074`. -/
def signedUnits (neg : Bool) (m : Magnitude) : Int :=
  if neg then -(m.units : Int) else m.units

/-- C comparison `d >= n` with an integer. -/
def geInt : Binary64 → Int → Bool
  | .nan, _ => false
  | .inf neg, _ => !neg
  | .finite neg m, n => n * unitsPerOne ≤ signedUnits neg m

/-- C comparison `d <= n` with an integer. -/
def leInt : Binary64 → Int → Bool
  | .nan, _ => false
  | .inf neg, _ => neg
  | .finite neg m, n => signedUnits neg m ≤ n * unitsPerOne

/-- C comparison `a == b`. -/
def eq : Binary64 → Binary64 → Bool
  | .inf a, .inf b => a == b
  | .finite a m, .finite b n => signedUnits a m == signedUnits b n
  | _, _ => false

/-- The integer part of a finite number, towards zero. -/
def trunc : Binary64 → Int
  | .finite neg m =>
    if neg then -((m.units / unitsPerOne : Nat) : Int) else (m.units / unitsPerOne : Nat)
  | _ => 0

/-- Integers of at most 53 bits are doubles. -/
def ofNatMagnitude (n : Nat) (h : n ≤ 2 ^ 53) : Magnitude where
  units := n * unitsPerOne
  finite := by
    have hle : n * unitsPerOne ≤ 2 ^ 53 * unitsPerOne := Nat.mul_le_mul_right _ h
    rw [unitsPerOne, ← Nat.pow_add] at hle
    have hbits : 53 + fractionBits < magnitudeBits := by
      unfold fractionBits magnitudeBits
      decide
    exact hle.trans_lt (Nat.pow_lt_pow_right (by decide) hbits)
  precise := Precise.mul_two_pow h

/-- The conversion of an integer of at most 53 bits is exact. -/
theorem ofInt_eq {n : Int} (h : n.natAbs ≤ 2 ^ 53) :
    ofInt n = .finite (n < 0) (ofNatMagnitude n.natAbs h) := by
  have hr := roundUnits_exact Nat.one_pos (ofNatMagnitude n.natAbs h).precise
  rw [Nat.mul_one] at hr
  have hlt := (ofNatMagnitude n.natAbs h).finite
  rw [ofInt, ofRatio, dif_pos (by rw [← hr] at hlt; exact hlt)]
  congr 1
  exact (Magnitude.mk.injEq ..).mpr hr

section Integers
variable {n : Int}

/-- The units of an exact integer. -/
theorem signedUnits_ofNat (h : n.natAbs ≤ 2 ^ 53) :
    signedUnits (n < 0) (ofNatMagnitude n.natAbs h) = n * unitsPerOne := by
  simp only [signedUnits, ofNatMagnitude, decide_eq_true_eq, Nat.cast_mul]
  split
  · next hn =>
    rw [← Int.neg_mul]
    congr 1
    omega
  · next hn =>
    congr 1
    omega

theorem geInt_ofInt (h : n.natAbs ≤ 2 ^ 53) (k : Int) : geInt (ofInt n) k = decide (k ≤ n) := by
  rw [ofInt_eq h, geInt, signedUnits_ofNat h]
  have := unitsPerOne_pos
  exact decide_eq_decide.mpr ⟨fun h ↦ Int.le_of_mul_le_mul_right h (by omega),
    fun h ↦ Int.mul_le_mul_of_nonneg_right h (by omega)⟩

theorem leInt_ofInt (h : n.natAbs ≤ 2 ^ 53) (k : Int) : leInt (ofInt n) k = decide (n ≤ k) := by
  rw [ofInt_eq h, leInt, signedUnits_ofNat h]
  have := unitsPerOne_pos
  exact decide_eq_decide.mpr ⟨fun h ↦ Int.le_of_mul_le_mul_right h (by omega),
    fun h ↦ Int.mul_le_mul_of_nonneg_right h (by omega)⟩

/-- A number of whole units of `1.0` is truncated to their count. -/
theorem trunc_of_signedUnits {neg : Bool} {m : Magnitude}
    (h : signedUnits neg m = n * unitsPerOne) : trunc (.finite neg m) = n := by
  have hU : (unitsPerOne : Int) ≠ 0 := by
    have := unitsPerOne_pos
    omega
  cases neg with
  | true =>
    have hunits : (m.units : Int) = -n * unitsPerOne := by
      rw [Int.neg_mul, ← h]
      simp [signedUnits]
    simp only [trunc, if_true, Int.natCast_ediv]
    rw [hunits, Int.mul_ediv_cancel _ hU, Int.neg_neg]
  | false =>
    have hunits : (m.units : Int) = n * unitsPerOne := by
      rw [← h]
      simp [signedUnits]
    simp only [trunc, Bool.false_eq_true, if_false, Int.natCast_ediv]
    rw [hunits, Int.mul_ediv_cancel _ hU]

/-- Truncation undoes an exact conversion. -/
theorem trunc_ofInt (h : n.natAbs ≤ 2 ^ 53) : trunc (ofInt n) = n := by
  rw [ofInt_eq h]
  exact trunc_of_signedUnits (signedUnits_ofNat h)

/-- A number between an integer and itself equals it. -/
theorem eq_ofInt_of_bounds {d : Binary64} (h : n.natAbs ≤ 2 ^ 53) (hge : d.geInt n = true)
    (hle : d.leInt n = true) : d.eq (ofInt n) = true := by
  rw [ofInt_eq h]
  cases d with
  | nan => cases hge
  | inf neg =>
    cases neg with
    | true => cases hge
    | false => cases hle
  | finite neg m =>
    rw [eq, signedUnits_ofNat h, beq_iff_eq]
    exact Int.le_antisymm (of_decide_eq_true hle) (of_decide_eq_true hge)

/-- Numbers that C compares equal compare equally with integers. -/
theorem compare_of_eq {a b : Binary64} (h : a.eq b = true) (k : Int) :
    geInt a k = geInt b k ∧ leInt a k = leInt b k := by
  cases a <;> cases b <;> simp_all [eq, geInt, leInt]

/-- Numbers that C compares equal have one integer part. -/
theorem trunc_of_eq {a b : Binary64} (h : a.eq b = true) : a.trunc = b.trunc := by
  have hfinite : ∀ neg m, trunc (.finite neg m) = (signedUnits neg m).tdiv unitsPerOne := by
    intro neg m
    cases neg with
    | true =>
      rw [trunc, signedUnits, if_pos rfl, if_pos rfl, Int.neg_tdiv]
      rfl
    | false => rfl
  cases a <;> cases b
  case finite.finite a m b n => rw [hfinite, hfinite, beq_iff_eq.mp h]
  all_goals first | rfl | cases h

end Integers

end Binary64

end LedaSdk.Base
