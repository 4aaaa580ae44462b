import Mathlib.Algebra.Group.Int.Defs
import Mathlib.Algebra.Group.Nat.Defs
import Mathlib.Data.Int.Basic

/-!
# C integer conversions

`int` is a 32-bit two's complement integer (`Int32`), `unsigned int` is `UInt32` and
`size_t` is a natural number below `2 ^ 64`. Conversions between them are the modular
ones of C; arithmetic on `size_t` values is reduced explicitly where it can wrap.
-/

namespace LedaSdk.Base

/-- Number of values of `size_t`. -/
def sizeMod : Nat := 2 ^ 64

/-- C conversion of an integer value to `size_t`. -/
def toSize (x : Int) : Nat := (x % (sizeMod : Int)).toNat

/-- Addition of `size_t` values. -/
def sizeAdd (a b : Nat) : Nat := (a + b) % sizeMod

/-- Subtraction of `size_t` values. -/
def sizeSub (a b : Nat) : Nat := (a + (sizeMod - b)) % sizeMod

/-- Multiplication of `size_t` values. -/
def sizeMul (a b : Nat) : Nat := (a * b) % sizeMod

/-- `INT_MAX`. -/
def intMax : Int := 2 ^ 31 - 1

/-- `INT_MIN`. -/
def intMin : Int := -2 ^ 31

/-- The result of signed arithmetic in a type of `bits` bits; overflow is undefined. -/
def signedResult (bits : Nat) (x : Int) : Option Int :=
  if -2 ^ (bits - 1) ≤ x ∧ x < 2 ^ (bits - 1) then some x else none

theorem signedResult_of_bounds {bits : Nat} {x : Int} (hlo : -2 ^ (bits - 1) ≤ x)
    (hhi : x < 2 ^ (bits - 1)) : signedResult bits x = some x := if_pos ⟨hlo, hhi⟩

theorem eq_of_signedResult {bits : Nat} {x y : Int} (h : signedResult bits x = some y) :
    y = x := by
  rw [signedResult] at h
  split at h
  · exact (Option.some.inj h).symm
  · cases h

theorem sizeAdd_lt (a b : Nat) : sizeAdd a b < sizeMod := Nat.mod_lt _ (by decide)

/-- A sum below `2 ^ 64` does not wrap. -/
theorem sizeAdd_of_lt {a b : Nat} (h : a + b < sizeMod) : sizeAdd a b = a + b :=
  Nat.mod_eq_of_lt h

/-- A sum of exactly `2 ^ 64` wraps to zero. -/
theorem sizeAdd_of_eq {a b : Nat} (h : a + b = sizeMod) : sizeAdd a b = 0 := by
  rw [sizeAdd, h, Nat.mod_self]

/-- A difference that is not negative does not wrap. -/
theorem sizeSub_of_le {a b : Nat} (hb : b ≤ a) (ha : a - b < sizeMod) (hs : b ≤ sizeMod) :
    sizeSub a b = a - b := by
  have he : a + (sizeMod - b) = a - b + sizeMod := by omega
  rw [sizeSub, he, Nat.add_mod_right, Nat.mod_eq_of_lt ha]

/-- Conversion keeps a value that `size_t` can represent. -/
theorem toSize_of_nonneg {x : Int} (h0 : 0 ≤ x) (h1 : x < 2 ^ 64) : toSize x = x.toNat := by
  rw [toSize, Int.emod_eq_of_lt h0 (by simpa [sizeMod] using h1)]

/-- Conversion of a negative value wraps once. -/
theorem toSize_of_neg {x : Int} (h0 : x < 0) (h1 : -2 ^ 64 ≤ x) :
    (toSize x : Int) = x + 2 ^ 64 := by
  have hm : x % (sizeMod : Int) = x + 2 ^ 64 := by
    simp only [sizeMod]
    omega
  rw [toSize, hm]
  omega

/-- A nonnegative `int` converts to itself. -/
theorem toSize_int32 {x : Int32} (h : 0 ≤ x.toInt) : toSize x.toInt = x.toInt.toNat :=
  toSize_of_nonneg h (by have := x.toInt_lt; omega)

/-- What a value loses when it is cut to an `int`. -/
theorem toInt_int32_ofNat (n : Nat) :
    (Int32.ofNat n).toInt = n - 2 ^ 32 * ((n + 2 ^ 31) / 2 ^ 32 : Nat) := by
  rw [Int32.toInt_ofNat', Int.bmod_def]
  have hsize : Int32.size = 2 ^ 32 := rfl
  rw [hsize]
  split <;> omega

/-- A value and what it loses as an `int` make up the value, modulo `2 ^ 64`. -/
theorem toSize_int32_ofNat (n : Nat) :
    (toSize (Int32.ofNat n).toInt + 2 ^ 32 * ((n + 2 ^ 31) / 2 ^ 32)) % sizeMod = n % sizeMod := by
  have hint := toInt_int32_ofNat n
  rw [toSize, hint]
  simp only [sizeMod]
  omega
end LedaSdk.Base
