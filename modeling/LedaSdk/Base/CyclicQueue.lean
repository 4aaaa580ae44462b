import Mathlib.Data.List.Basic

/-!
# Cyclic queues told full from empty by their cells

A cyclic queue is a fixed row of optional cells with a read and a write index. There
is no occupancy counter: a cell is occupied exactly when it holds a value, and an index
that has run past the last cell stands for the first one until it is used again.
`Holds` relates such a queue to the list of its values in delivery order.
-/

namespace LedaSdk.Base

universe u

/-- A row of optional cells with lazily wrapped read and write indices. -/
structure CyclicQueue (α : Type u) where
  cells : List (Option α)
  rd : Nat
  wr : Nat

namespace CyclicQueue

variable {α : Type u}

/-- Number of cells. -/
def capacity (c : CyclicQueue α) : Nat := c.cells.length

/-- An index past the last of `n` cells stands for the first one. -/
def norm (n i : Nat) : Nat := if n ≤ i then 0 else i

/-- Cell the next value is read from. -/
def rdPos (c : CyclicQueue α) : Nat := norm c.capacity c.rd

/-- Cell the next value is written to. -/
def wrPos (c : CyclicQueue α) : Nat := norm c.capacity c.wr

/-- Content of the cell `j` places after the read position. -/
def ahead (c : CyclicQueue α) (j : Nat) : Option α :=
  (c.cells[(c.rdPos + j) % c.capacity]?).join

/-- Store a value at the write position and advance the write index. -/
def put (c : CyclicQueue α) (a : α) : CyclicQueue α :=
  { c with cells := c.cells.set c.wrPos (some a), wr := c.wrPos + 1 }

/-- Empty the cell at the read position and advance the read index. -/
def drop (c : CyclicQueue α) : CyclicQueue α :=
  { c with cells := c.cells.set c.rdPos none, rd := c.rdPos + 1 }

/-- Replace the write index by the cell it stands for. -/
def wrapWr (c : CyclicQueue α) : CyclicQueue α := { c with wr := c.wrPos }

/-- Replace the read index by the cell it stands for. -/
def wrapRd (c : CyclicQueue α) : CyclicQueue α := { c with rd := c.rdPos }

/-- Occupied cells in cyclic order from the read position. -/
def contents (c : CyclicQueue α) : List α := (List.range c.capacity).filterMap c.ahead

/-- `c` holds exactly the values of `q`, in that order from the read position on. -/
structure Holds (c : CyclicQueue α) (q : List α) : Prop where
  rd_le : c.rd ≤ c.capacity
  wr_le : c.wr ≤ c.capacity
  length_le : q.length ≤ c.capacity
  wrPos_eq : c.wrPos = (c.rdPos + q.length) % c.capacity
  ahead_eq : ∀ j, j < c.capacity → c.ahead j = q[j]?

private theorem norm_lt {n i : Nat} (hn : 0 < n) : norm n i < n := by
  unfold norm
  split <;> omega

private theorem norm_norm (n i : Nat) : norm n (norm n i) = norm n i := by
  unfold norm
  split
  · split <;> omega
  · rfl

/-- Wrapping an index that has run past the last cell at most once is reduction. -/
theorem norm_eq_mod {n i : Nat} (h : i ≤ n) : norm n i = i % n := by
  unfold norm
  split
  · next hn =>
    have hi : i = n := Nat.le_antisymm h hn
    rw [hi, Nat.mod_self]
  · next hn => rw [Nat.mod_eq_of_lt (by omega)]

private theorem add_mod_wrap {n r j : Nat} (hr : r < n) (hj : j ≤ n) :
    (r + j) % n = if r + j < n then r + j else r + j - n := by
  split
  · next h => exact Nat.mod_eq_of_lt h
  · next h =>
    rw [Nat.mod_eq_sub_mod (by omega)]
    exact Nat.mod_eq_of_lt (by omega)

/-- Within one revolution, cyclic offsets name distinct cells. -/
theorem add_mod_inj {n r j k : Nat} (hr : r < n) (hj : j < n) (hk : k < n) :
    (r + j) % n = (r + k) % n ↔ j = k := by
  rw [add_mod_wrap hr (by omega), add_mod_wrap hr (by omega)]
  split <;> split <;> omega

/-- Every cell lies within one revolution of the read position. -/
theorem exists_offset {n r i : Nat} (hr : r < n) (hi : i < n) :
    ∃ j, j < n ∧ i = (r + j) % n := by
  by_cases h : r ≤ i
  · refine ⟨i - r, by omega, ?_⟩
    rw [add_mod_wrap hr (by omega)]
    split <;> omega
  · refine ⟨i + n - r, by omega, ?_⟩
    rw [add_mod_wrap hr (by omega)]
    split <;> omega

theorem rdPos_lt {c : CyclicQueue α} (h : 0 < c.capacity) : c.rdPos < c.capacity := norm_lt h

theorem wrPos_lt {c : CyclicQueue α} (h : 0 < c.capacity) : c.wrPos < c.capacity := norm_lt h

@[simp] theorem capacity_put (c : CyclicQueue α) (a : α) : (c.put a).capacity = c.capacity := by
  simp [put, capacity]

@[simp] theorem capacity_drop (c : CyclicQueue α) : c.drop.capacity = c.capacity := by
  simp [drop, capacity]

@[simp] theorem capacity_wrapWr (c : CyclicQueue α) : c.wrapWr.capacity = c.capacity := rfl

@[simp] theorem capacity_wrapRd (c : CyclicQueue α) : c.wrapRd.capacity = c.capacity := rfl

@[simp] theorem rdPos_put (c : CyclicQueue α) (a : α) : (c.put a).rdPos = c.rdPos := by
  simp [rdPos, put, capacity]

@[simp] theorem rdPos_wrapWr (c : CyclicQueue α) : c.wrapWr.rdPos = c.rdPos := rfl

@[simp] theorem rdPos_wrapRd (c : CyclicQueue α) : c.wrapRd.rdPos = c.rdPos := by
  simp only [rdPos, wrapRd, capacity, norm_norm]

private theorem join_getElem?_set (l : List (Option α)) (i k : Nat) (v : Option α)
    (hi : i < l.length) :
    ((l.set i v)[k]?).join = if k = i then v else (l[k]?).join := by
  rw [List.getElem?_set]
  by_cases h : i = k
  · rw [if_pos h, if_pos hi, if_pos h.symm]
    rfl
  · rw [if_neg h, if_neg (Ne.symm h)]

/-- Storing fills the cell at the write position and keeps the others. -/
theorem cell_put (c : CyclicQueue α) (a : α) {k : Nat} (hw : c.wrPos < c.capacity) :
    ((c.put a).cells[k]?).join = if k = c.wrPos then some a else (c.cells[k]?).join :=
  join_getElem?_set _ _ _ _ hw

/-- Removing empties the cell at the read position and keeps the others. -/
theorem cell_drop (c : CyclicQueue α) {k : Nat} (hr : c.rdPos < c.capacity) :
    (c.drop.cells[k]?).join = if k = c.rdPos then none else (c.cells[k]?).join :=
  join_getElem?_set _ _ _ _ hr

/-- The write position moves to the next cell. -/
theorem wrPos_put (c : CyclicQueue α) (a : α) (hw : c.wrPos < c.capacity) :
    (c.put a).wrPos = (c.wrPos + 1) % c.capacity := by
  change norm (c.put a).capacity (c.wrPos + 1) = _
  rw [capacity_put, norm_eq_mod hw]

/-- The read position moves to the next cell. -/
theorem rdPos_drop (c : CyclicQueue α) (hr : c.rdPos < c.capacity) :
    c.drop.rdPos = (c.rdPos + 1) % c.capacity := by
  change norm c.drop.capacity (c.rdPos + 1) = _
  rw [capacity_drop, norm_eq_mod hr]

/-- Storing brings in no value but the one stored. -/
theorem cell_of_put {c : CyclicQueue α} {a b : α} {i : Nat}
    (h : ((c.put a).cells[i]?).join = some b) : (c.cells[i]?).join = some b ∨ b = a := by
  by_cases hw : c.wrPos < c.capacity
  · rw [cell_put c a hw] at h
    split at h
    · exact .inr (Option.some.inj h).symm
    · exact .inl h
  · rw [put, List.set_eq_of_length_le (Nat.le_of_not_lt hw)] at h
    exact .inl h

/-- Removing brings in no value. -/
theorem cell_of_drop {c : CyclicQueue α} {b : α} {i : Nat}
    (h : (c.drop.cells[i]?).join = some b) : (c.cells[i]?).join = some b := by
  by_cases hr : c.rdPos < c.capacity
  · rw [cell_drop c hr] at h
    split at h
    · cases h
    · exact h
  · rw [drop, List.set_eq_of_length_le (Nat.le_of_not_lt hr)] at h
    exact h

/-- Apply a function to every value. -/
def map {β : Type*} (f : α → β) (c : CyclicQueue α) : CyclicQueue β :=
  ⟨c.cells.map (Option.map f), c.rd, c.wr⟩

section Map
variable {β : Type*} (f : α → β) (c : CyclicQueue α)

@[simp] theorem capacity_map : (c.map f).capacity = c.capacity := by simp [map, capacity]

@[simp] theorem rdPos_map : (c.map f).rdPos = c.rdPos := by simp [rdPos, map, capacity]

theorem map_put (a : α) : (c.put a).map f = (c.map f).put (f a) := by
  simp [map, put, wrPos, capacity, List.map_set]

theorem map_drop : c.drop.map f = (c.map f).drop := by
  simp [map, drop, rdPos, capacity, List.map_set]

theorem map_wrapWr : c.wrapWr.map f = (c.map f).wrapWr := by
  simp [map, wrapWr, wrPos, capacity]

theorem map_wrapRd : c.wrapRd.map f = (c.map f).wrapRd := by
  simp [map, wrapRd, rdPos, capacity]

theorem cell_map (i : Nat) : ((c.map f).cells[i]?).join = ((c.cells[i]?).join).map f := by
  simp only [map, List.getElem?_map]
  cases c.cells[i]? <;> rfl

end Map

theorem filterMap_getElem?_range (q : List α) {n : Nat} (h : q.length ≤ n) :
    (List.range n).filterMap (fun j ↦ q[j]?) = q := by
  induction q generalizing n with
  | nil => simp
  | cons a q ih =>
    obtain ⟨m, rfl⟩ : ∃ m, n = m + 1 := ⟨n - 1, by rw [List.length_cons] at h; omega⟩
    rw [List.range_succ_eq_map, List.filterMap_cons, List.filterMap_map]
    simp only [List.getElem?_cons_zero, Function.comp_def, List.getElem?_cons_succ]
    rw [ih (by simpa using h)]

/-- With every cell empty and both indices at the first cell, no value is held. -/
theorem holds_nil {c : CyclicQueue α} (hc : ∀ x ∈ c.cells, x = none) (hr : c.rd = 0)
    (hw : c.wr = 0) : c.Holds [] where
  rd_le := by omega
  wr_le := by omega
  length_le := Nat.zero_le _
  wrPos_eq := by
    have h0 : norm c.capacity 0 = 0 := by unfold norm; split <;> rfl
    simp [rdPos, wrPos, hr, hw, h0]
  ahead_eq j hj := by
    unfold ahead
    cases h : c.cells[(c.rdPos + j) % c.capacity]? with
    | none => rfl
    | some x => simp [hc x (List.mem_of_getElem? h)]

namespace Holds

variable {c : CyclicQueue α} {q : List α} {a : α}

/-- The next value to be read is the head of the list. -/
theorem head_eq (h : c.Holds q) : (c.cells[c.rdPos]?).join = q.head? := by
  by_cases hn : 0 < c.capacity
  · have := h.ahead_eq 0 hn
    rwa [ahead, Nat.add_zero, Nat.mod_eq_of_lt (rdPos_lt hn), ← List.head?_eq_getElem?] at this
  · have hl := h.length_le
    have hc : c.cells.length = 0 := Nat.eq_zero_of_not_pos hn
    have hq : q = [] := List.eq_nil_of_length_eq_zero (by omega)
    rw [hq, List.getElem?_eq_none (by omega)]
    rfl

/-- The cell at the write position of a queue that is not full is empty. -/
theorem wrPos_free (h : c.Holds q) (hq : q.length < c.capacity) :
    (c.cells[c.wrPos]?).join = none := by
  rw [h.wrPos_eq]
  exact (h.ahead_eq _ hq).trans (List.getElem?_eq_none (Nat.le_refl _))

/-- Wrapping the write index keeps what is held. -/
theorem wrapWr (h : c.Holds q) : c.wrapWr.Holds q where
  rd_le := h.rd_le
  wr_le := by
    change norm c.capacity c.wr ≤ c.capacity
    unfold norm
    split <;> omega
  length_le := h.length_le
  wrPos_eq := by
    change norm c.capacity (norm c.capacity c.wr) = _
    rw [norm_norm]
    exact h.wrPos_eq
  ahead_eq := h.ahead_eq

/-- Wrapping the read index keeps what is held. -/
theorem wrapRd (h : c.Holds q) : c.wrapRd.Holds q where
  rd_le := by
    change norm c.capacity c.rd ≤ c.capacity
    unfold norm
    split <;> omega
  wr_le := h.wr_le
  length_le := h.length_le
  wrPos_eq := by
    rw [rdPos_wrapRd]
    exact h.wrPos_eq
  ahead_eq j hj := by
    rw [ahead, rdPos_wrapRd]
    exact h.ahead_eq j hj

/-- Storing into a queue that is not full appends to the list. -/
theorem put (h : c.Holds q) (hq : q.length < c.capacity) (a : α) :
    (c.put a).Holds (q ++ [a]) := by
  have hn : 0 < c.capacity := by omega
  have hr := rdPos_lt hn
  have hw := wrPos_lt hn
  refine ⟨by rw [capacity_put]; exact h.rd_le, by rw [capacity_put]; exact hw, ?_, ?_, ?_⟩
  · rw [capacity_put, List.length_append, List.length_singleton]
    exact hq
  · rw [wrPos_put c a hw, capacity_put, rdPos_put, h.wrPos_eq, List.length_append,
      List.length_singleton, ← Nat.add_assoc, Nat.mod_add_mod]
  · intro j hj
    rw [capacity_put] at hj
    have hset : (c.put a).ahead j =
        if (c.rdPos + j) % c.capacity = c.wrPos then some a else c.ahead j := by
      rw [ahead, rdPos_put, capacity_put, cell_put c a hw]
      rfl
    rw [hset, h.wrPos_eq]
    by_cases he : j = q.length
    · rw [if_pos (by rw [he]), he, List.getElem?_concat_length]
    · rw [if_neg (fun hm ↦ he ((add_mod_inj hr hj hq).mp hm)), h.ahead_eq j hj]
      by_cases hl : j < q.length
      · rw [List.getElem?_append_left hl]
      · rw [List.getElem?_eq_none (by omega), List.getElem?_eq_none (by simp; omega)]

/-- Emptying the cell at the read position removes the head of the list. -/
theorem drop (h : c.Holds (a :: q)) : c.drop.Holds q := by
  have hl := h.length_le
  rw [List.length_cons] at hl
  have hn : 0 < c.capacity := by omega
  have hr := rdPos_lt hn
  have hpos := rdPos_drop c hr
  refine ⟨by rw [capacity_drop]; exact hr, by rw [capacity_drop]; exact h.wr_le,
    by rw [capacity_drop]; omega, ?_, ?_⟩
  · have hw : c.drop.wrPos = c.wrPos := by simp [wrPos, CyclicQueue.drop, capacity]
    rw [hw, hpos, capacity_drop, h.wrPos_eq, List.length_cons, Nat.mod_add_mod]
    congr 1
    omega
  · intro j hj
    rw [capacity_drop] at hj
    have hidx : (c.drop.rdPos + j) % c.drop.capacity = (c.rdPos + (j + 1)) % c.capacity := by
      rw [hpos, capacity_drop, Nat.mod_add_mod]
      congr 1
      omega
    have hset : c.drop.ahead j =
        if (c.rdPos + (j + 1)) % c.capacity = c.rdPos then none else c.ahead (j + 1) := by
      rw [ahead, hidx, cell_drop c hr]
      rfl
    rw [hset]
    -- Only a full revolution comes back to the cell just emptied.
    by_cases hj1 : j + 1 < c.capacity
    · have hne : (c.rdPos + (j + 1)) % c.capacity ≠ c.rdPos := by
        rw [add_mod_wrap hr (by omega)]
        split <;> omega
      rw [if_neg hne, h.ahead_eq _ hj1, List.getElem?_cons_succ]
    · have heq : (c.rdPos + (j + 1)) % c.capacity = c.rdPos := by
        rw [add_mod_wrap hr (by omega)]
        split <;> omega
      rw [if_pos heq, List.getElem?_eq_none (by omega)]

/-- The occupied cells are exactly the cyclic interval of the list's length that starts
at the read position. -/
theorem isSome_iff (h : c.Holds q) {i : Nat} (hi : i < c.capacity) :
    ((c.cells[i]?).join).isSome ↔ ∃ j, j < q.length ∧ i = (c.rdPos + j) % c.capacity := by
  have hr := rdPos_lt (c := c) (by omega)
  obtain ⟨k, hk, rfl⟩ := exists_offset hr hi
  have hg := h.ahead_eq k hk
  rw [ahead] at hg
  rw [hg]
  constructor
  · intro hs
    refine ⟨k, ?_, rfl⟩
    by_contra hc
    rw [List.getElem?_eq_none (by omega)] at hs
    cases hs
  · rintro ⟨j, hj, he⟩
    have hl := h.length_le
    obtain rfl := (add_mod_inj hr hk (by omega)).mp he
    rw [List.getElem?_eq_getElem hj]
    rfl

/-- The list is shorter than the row exactly when some cell is empty. -/
theorem length_lt_iff (h : c.Holds q) :
    q.length < c.capacity ↔ ∃ i, i < c.capacity ∧ (c.cells[i]?).join = none := by
  constructor
  · intro hq
    have hn : 0 < c.capacity := by omega
    exact ⟨c.wrPos, wrPos_lt hn, h.wrPos_free hq⟩
  · rintro ⟨i, hi, he⟩
    by_contra hc
    have hlen : q.length = c.capacity := Nat.le_antisymm h.length_le (by omega)
    obtain ⟨k, hk, hik⟩ := exists_offset (rdPos_lt (c := c) (by omega)) hi
    have hs := (h.isSome_iff hi).mpr ⟨k, by omega, hik⟩
    rw [he] at hs
    cases hs

/-- Reading the cells off in cyclic order gives the list. -/
theorem contents_eq (h : c.Holds q) : c.contents = q := by
  have hmap : (List.range c.capacity).filterMap c.ahead =
      (List.range c.capacity).filterMap (fun j ↦ q[j]?) :=
    List.filterMap_congr fun j hj ↦ h.ahead_eq j (List.mem_range.mp hj)
  rw [contents, hmap, filterMap_getElem?_range _ h.length_le]

end Holds
end CyclicQueue
end LedaSdk.Base
