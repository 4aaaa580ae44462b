import LedaSdk.Base.Block
import LedaSdk.Base.CStr

/-!
# Writing a block from front to back

A block that begins with a text is extended at the end of that text. `strlen` looks for a
NUL inside the block.
-/

namespace LedaSdk.Base.Block

/-- `strlen` of the string at offset `off`; there is none if no NUL follows in the block. -/
def strlen (b : List UInt8) (off : Nat) : Option Nat :=
  if 0 ∈ b.drop off then some (CStr.ofBuffer (b.drop off)).length else none

/-- A new block of `n` bytes, with what the allocator left in it. -/
def fresh (n : Nat) (content : Nat → UInt8) : List UInt8 := (List.range n).map content

/-- `realloc` of a block to `n` bytes; the bytes behind the old ones are what the allocator
left there. -/
def realloc (b : List UInt8) (n : Nat) (content : Nat → UInt8) : List UInt8 :=
  b.take n ++ (fresh n content).drop b.length

@[simp] theorem length_fresh (n : Nat) (content : Nat → UInt8) : (fresh n content).length = n := by
  rw [fresh, List.length_map, List.length_range]

@[simp] theorem length_realloc (b : List UInt8) (n : Nat) (content : Nat → UInt8) :
    (realloc b n content).length = n := by
  rw [realloc, List.length_append, List.length_take, List.length_drop, length_fresh]
  omega

section Prefix
variable {b w t : List UInt8}

/-- A copy to the end of what is written. -/
theorem memcpy_append (hw : w <+: b) (hfit : w.length + t.length ≤ b.length) :
    ∃ b', memcpy b w.length t = some b' ∧ b'.length = b.length ∧ (w ++ t) <+: b' := by
  obtain ⟨rest, rfl⟩ := hw
  rw [memcpy, if_pos hfit]
  refine ⟨_, rfl, ?_, ?_⟩
  · simp only [List.length_append, List.length_take, List.length_drop] at hfit ⊢
    omega
  · rw [List.take_left]
    exact List.prefix_append _ _

/-- Moving a block to a larger one keeps what is written. -/
theorem prefix_realloc (hw : w <+: b) {n : Nat} (hn : w.length ≤ n) (content : Nat → UInt8) :
    w <+: realloc b n content := by
  rw [realloc]
  exact (List.prefix_take_iff.mpr ⟨hw, hn⟩).trans (List.prefix_append _ _)

theorem read_prefix (hw : w <+: b) : read b 0 w.length = some w := by
  obtain ⟨rest, rfl⟩ := hw
  rw [read, if_pos (by rw [List.length_append]; omega), List.drop_zero, List.take_left]

/-- A block cut to what is written. -/
theorem realloc_prefix (hw : w <+: b) (content : Nat → UInt8) : realloc b w.length content = w := by
  have hle := hw.length_le
  obtain ⟨rest, rfl⟩ := hw
  rw [realloc, List.take_left, List.drop_eq_nil_of_le (by rwa [length_fresh]), List.append_nil]

/-- A copy to the whole of a block. -/
theorem memcpy_whole (h : b.length = t.length) : memcpy b 0 t = some t := by
  rw [memcpy, if_pos (by omega), List.take_zero, List.nil_append,
    List.drop_eq_nil_of_le (by omega), List.append_nil]

/-- The last byte written again. -/
theorem memcpy_last (c : UInt8) : memcpy (w ++ [c]) w.length [c] = some (w ++ [c]) := by
  rw [memcpy, if_pos (by simp), List.take_left, List.drop_eq_nil_of_le (by simp), List.append_nil]

/-- The string of a block that begins with a text and a NUL. -/
theorem ofBuffer_of_prefix (hw : (w ++ [0]) <+: b) : CStr.ofBuffer b = CStr.ofBuffer w := by
  obtain ⟨rest, rfl⟩ := hw
  apply CStr.ext
  change (w ++ [0] ++ rest).takeWhile _ = w.takeWhile _
  rw [List.append_assoc, List.takeWhile_append]
  split
  · next hall =>
    rw [(List.takeWhile_prefix _).eq_of_length hall]
    exact List.append_nil w
  · rfl

/-- The string at the end of what is written. -/
theorem strlen_of_prefix {u : List UInt8} (h : (u ++ (t ++ [0])) <+: b) (ht : 0 ∉ t) :
    strlen b u.length = some t.length := by
  obtain ⟨rest, rfl⟩ := h
  have hdrop : (u ++ (t ++ [0]) ++ rest).drop u.length = t ++ 0 :: rest := by
    rw [List.append_assoc, List.drop_left, List.append_assoc]
    rfl
  have hpos : ∀ c ∈ t, decide (c ≠ 0) = true := by
    intro c hc
    rw [decide_eq_true_eq]
    rintro rfl
    exact ht hc
  have htake : (CStr.ofBuffer (t ++ 0 :: rest)).bytes = t := by
    change (t ++ 0 :: rest).takeWhile (· ≠ 0) = t
    rw [List.takeWhile_append_of_pos hpos, List.takeWhile_cons_of_neg (by simp), List.append_nil]
  rw [strlen, hdrop, if_pos (by simp), CStr.length, htake]

end Prefix

end LedaSdk.Base.Block
