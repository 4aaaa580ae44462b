import Mathlib.Algebra.Group.Nat.Defs
import Mathlib.Data.List.Basic

/-!
# Heap blocks with checked accesses

A block is the list of its bytes; its length is the size last requested for it from
the allocator. An access outside the block has no result.
-/

namespace LedaSdk.Base.Block

/-- Read `n` bytes from offset `off`. -/
def read (b : List UInt8) (off n : Nat) : Option (List UInt8) :=
  if off + n ≤ b.length then some ((b.drop off).take n) else none

/-- Copy `src` to offset `off`. -/
def memcpy (b : List UInt8) (off : Nat) (src : List UInt8) : Option (List UInt8) :=
  if off + src.length ≤ b.length then
    some (b.take off ++ src ++ b.drop (off + src.length))
  else none

/-- Set the first `n` bytes to zero. -/
def memset0 (b : List UInt8) (n : Nat) : Option (List UInt8) :=
  memcpy b 0 (List.replicate n 0)

/-- Resize to `n` bytes, keeping the common prefix. The allocator leaves the bytes of a
grown block unspecified; `fresh` stands for them. -/
def resize (b : List UInt8) (n : Nat) (fresh : UInt8) : List UInt8 :=
  b.take n ++ List.replicate (n - b.length) fresh

/-- `PTRDIFF_MAX`: no object is larger, and the allocator refuses to make one. -/
def maxSize : Nat := 2 ^ 63 - 1

/-- Resizing gives exactly the requested size. -/
theorem length_resize (b : List UInt8) (n : Nat) (fresh : UInt8) :
    (resize b n fresh).length = n := by
  simp only [resize, List.length_append, List.length_take, List.length_replicate]
  omega

/-- A copy succeeds exactly when its range lies inside the block. -/
theorem memcpy_isSome_iff (b : List UInt8) (off : Nat) (src : List UInt8) :
    (memcpy b off src).isSome ↔ off + src.length ≤ b.length := by
  unfold memcpy
  split <;> simp [*]

/-- Copying keeps the block's size. -/
theorem length_memcpy {b b' src : List UInt8} {off : Nat} (h : memcpy b off src = some b') :
    b'.length = b.length := by
  unfold memcpy at h
  split at h
  · next hb =>
    rw [← Option.some.inj h]
    simp only [List.length_append, List.length_take, List.length_drop]
    omega
  · cases h

/-- The bytes just copied are read back. -/
theorem read_memcpy {b b' src : List UInt8} {off : Nat} (h : memcpy b off src = some b') :
    read b' off src.length = some src := by
  have hl := length_memcpy h
  unfold memcpy at h
  split at h
  · next hb =>
    have ht : (b.take off).length = off := by rw [List.length_take]; omega
    rw [read, ite_cond_eq_true _ _ (by simp only [hl, hb]), ← Option.some.inj h,
      List.append_assoc, List.drop_left' ht, List.take_left]
  · cases h

/-- A read that ends before the copied range sees the old bytes. -/
theorem read_memcpy_before {b b' src : List UInt8} {off i n : Nat}
    (h : memcpy b off src = some b') (hn : i + n ≤ off) : read b' i n = read b i n := by
  have hl := length_memcpy h
  unfold memcpy at h
  split at h
  · next hb =>
    have ht : (b.take off).length = off := by rw [List.length_take]; omega
    have he : (b'.drop i).take n = (b.drop i).take n := by
      rw [← Option.some.inj h, List.append_assoc, List.drop_append_of_le_length (by omega),
        List.take_append_of_le_length (by rw [List.length_drop]; omega), List.drop_take,
        List.take_take, Nat.min_eq_left (by omega)]
    simp only [read, hl, he]
  · cases h

/-- Adjacent reads concatenate. -/
theorem read_append {b x y : List UInt8} {off n m : Nat} (hx : read b off n = some x)
    (hy : read b (off + n) m = some y) : read b off (n + m) = some (x ++ y) := by
  unfold read at hx hy
  split at hx
  · split at hy
    · next hb =>
      rw [read, ite_cond_eq_true _ _ (by simp only [← Nat.add_assoc, hb]), ← Option.some.inj hx,
        ← Option.some.inj hy, List.take_add, List.drop_drop]
    · cases hy
  · cases hx

/-- Everything from an offset on is overwritten, the last byte on its own. -/
theorem memcpy_terminate {b src : List UInt8} {n : Nat} {c : UInt8}
    (h : b.length = n + src.length + 1) :
    (memcpy b n src).bind (fun b' ↦ memcpy b' (n + src.length) [c]) =
      some (b.take n ++ src ++ [c]) := by
  have hfront : (b.take n ++ src).length = n + src.length := by
    rw [List.length_append, List.length_take]
    omega
  obtain ⟨last, hlast⟩ : ∃ last, b.drop (n + src.length) = [last] := by
    apply List.length_eq_one_iff.mp
    rw [List.length_drop]
    omega
  rw [memcpy, if_pos (by omega), Option.bind_some, memcpy, hlast]
  rw [if_pos (by simp only [List.length_append, List.length_singleton, hfront]; omega)]
  rw [List.take_append_of_le_length (by omega), List.take_of_length_le (by omega),
    List.drop_eq_nil_of_le (by simp only [List.length_append, List.length_singleton, hfront]; omega),
    List.append_nil]

/-- Resizing to a larger block keeps a prefix. -/
theorem take_resize {b : List UInt8} {n k : Nat} {fresh : UInt8} (hk : k ≤ b.length) (hn : k ≤ n) :
    (resize b n fresh).take k = b.take k := by
  rw [resize, List.take_append_of_le_length (by rw [List.length_take]; omega), List.take_take,
    Nat.min_eq_left hn]

end LedaSdk.Base.Block
