import Mathlib.Algebra.GroupWithZero.Nat
import Mathlib.Data.List.TakeWhile

/-!
# C strings

Bytes without a NUL, as `char *` values are read, the contents of `char[n]` buffers and
the functions of `string.h`, `ctype.h` and `stdio.h` on them that need no locale.
-/

namespace LedaSdk.Base

/-- The code of an ASCII character. -/
def ascii (c : Char) : UInt8 := c.toNat.toUInt8

/-- The bytes of a string literal. -/
def text (s : String) : List UInt8 := s.toList.map ascii

/-- The bytes before the terminating NUL of a string. -/
structure CStr where
  bytes : List UInt8
  noNul : 0 ∉ bytes
  deriving DecidableEq

namespace CStr

@[ext] theorem ext {s t : CStr} (h : s.bytes = t.bytes) : s = t := by
  cases s
  cases t
  cases h
  rfl

/-- `strlen`. -/
def length (s : CStr) : Nat := s.bytes.length

/-- What a `char *` into a buffer reads: the bytes before the first NUL. -/
def ofBuffer (l : List UInt8) : CStr where
  bytes := l.takeWhile (· ≠ 0)
  noNul h := by simpa using List.mem_takeWhile_imp h

/-- Text without a NUL is read completely. -/
theorem ofBuffer_of_noNul {l : List UInt8} (h : 0 ∉ l) : (ofBuffer l).bytes = l := by
  apply List.takeWhile_eq_self_iff.mpr
  intro b hb
  simp only [ne_eq, decide_eq_true_eq]
  intro hb0
  exact h (hb0 ▸ hb)

@[simp] theorem ofBuffer_bytes (s : CStr) : ofBuffer s.bytes = s := ext (ofBuffer_of_noNul s.noNul)

/-- A string literal. -/
def lit (s : String) : CStr := ofBuffer (text s)

/-- The first `n` bytes. -/
def take (n : Nat) (s : CStr) : CStr := ⟨s.bytes.take n, fun h ↦ s.noNul (List.mem_of_mem_take h)⟩

theorem take_of_length_le {n : Nat} {s : CStr} (h : s.length ≤ n) : s.take n = s :=
  ext (List.take_of_length_le h)

end CStr

/-- `tolower` in the C locale. -/
def toLower (c : UInt8) : UInt8 := if 65 ≤ c ∧ c ≤ 90 then c + 32 else c

/-- `isspace` in the C locale. -/
def isSpace (c : UInt8) : Bool := c == 32 || (9 ≤ c && c ≤ 13)

/-- The string in a buffer of type `char[n]`, terminated within it. -/
structure CharBuf (n : Nat) where
  str : CStr
  fits : str.length < n
  deriving DecidableEq

namespace CharBuf
variable {n : Nat}

@[ext] theorem ext {a b : CharBuf n} (h : a.str = b.str) : a = b := by
  cases a
  cases b
  cases h
  rfl

/-- `snprintf(buf, n, "%s", s)`. -/
def snprintf (n : Nat) [NeZero n] (s : CStr) : CharBuf n where
  str := s.take (n - 1)
  fits := by
    have := Nat.pos_of_ne_zero (NeZero.ne n)
    rw [CStr.take, CStr.length, List.length_take]
    omega

/-- A string shorter than the buffer is copied completely. -/
theorem snprintf_str [NeZero n] {s : CStr} (h : s.length < n) : (snprintf n s).str = s :=
  CStr.take_of_length_le (by omega)

/-- A string is copied completely only into a longer buffer. -/
theorem snprintf_str_eq_self_iff [NeZero n] {s : CStr} :
    (snprintf n s).str = s ↔ s.length < n :=
  ⟨fun h ↦ h ▸ (snprintf n s).fits, snprintf_str⟩

/-- A copy equals a string that leaves room in the buffer only if the original does. -/
theorem snprintf_str_eq_iff [NeZero n] {s t : CStr} (h : t.length + 1 < n) :
    (snprintf n s).str = t ↔ s = t := by
  constructor
  · intro hst
    have hlen : (s.take (n - 1)).length = t.length := congrArg CStr.length hst
    rw [CStr.take, CStr.length, List.length_take] at hlen
    have hs : s.length < n := by
      rw [CStr.length]
      omega
    rw [← hst, snprintf_str hs]
  · rintro rfl
    exact snprintf_str (by omega)

@[simp] theorem snprintf_self [NeZero n] (b : CharBuf n) : snprintf n b.str = b :=
  ext (snprintf_str b.fits)

end CharBuf

end LedaSdk.Base
