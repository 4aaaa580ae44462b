import LedaSdk.Base.CyclicQueue

/-!
# Ring queues with a counter

A row of cells with the index of the first value, the index of the next one and the number
of values. Cells outside of the counted stretch may hold anything. `Holds` relates such a
queue to the list of its values in delivery order.
-/

namespace LedaSdk.Base

universe u

/-- A row of cells with indices and a counter. -/
structure RingQueue (α : Type u) where
  cells : List α
  head : Nat
  tail : Nat
  count : Nat

namespace RingQueue

variable {α : Type u}

/-- Number of cells. -/
def size (r : RingQueue α) : Nat := r.cells.length

/-- A queue without values over cells that hold anything. -/
def empty (cells : List α) : RingQueue α := ⟨cells, 0, 0, 0⟩

/-- Store a value at the tail. -/
def push (r : RingQueue α) (a : α) : RingQueue α :=
  { r with cells := r.cells.set r.tail a, tail := (r.tail + 1) % r.size, count := r.count + 1 }

/-- The value at the head. -/
def front? (r : RingQueue α) : Option α := r.cells[r.head]?

/-- Leave out the value at the head. -/
def pop (r : RingQueue α) : RingQueue α :=
  { r with head := (r.head + 1) % r.size, count := r.count - 1 }

/-- The counted values from the head on. -/
def toList (r : RingQueue α) : List α :=
  (List.range r.count).filterMap fun j ↦ r.cells[(r.head + j) % r.size]?

/-- `r` holds exactly the values of `q`, in that order from the head on. -/
structure Holds (r : RingQueue α) (q : List α) : Prop where
  head_lt : r.head < r.size
  length_le : q.length ≤ r.size
  count_eq : r.count = q.length
  tail_eq : r.tail = (r.head + q.length) % r.size
  cell_eq : ∀ j, j < q.length → r.cells[(r.head + j) % r.size]? = q[j]?

@[simp] theorem size_empty (cells : List α) : (empty cells).size = cells.length := rfl

@[simp] theorem size_push (r : RingQueue α) (a : α) : (r.push a).size = r.size := by
  simp [push, size]

@[simp] theorem size_pop (r : RingQueue α) : r.pop.size = r.size := rfl

theorem holds_empty {cells : List α} (h : cells ≠ []) : (empty cells).Holds [] where
  head_lt := List.length_pos_iff.mpr h
  length_le := Nat.zero_le _
  count_eq := rfl
  tail_eq := (Nat.zero_mod _).symm
  cell_eq j hj := absurd hj (Nat.not_lt_zero j)

namespace Holds

variable {r : RingQueue α} {q : List α} {a : α}

/-- The values are those of the list. -/
theorem toList_eq (h : r.Holds q) : r.toList = q := by
  have hcells : r.toList = (List.range q.length).filterMap fun j ↦ q[j]? := by
    rw [toList, h.count_eq]
    exact List.filterMap_congr fun j hj ↦ h.cell_eq j (List.mem_range.mp hj)
  rw [hcells, CyclicQueue.filterMap_getElem?_range q (Nat.le_refl _)]

/-- The value at the head is that of the list. -/
theorem front?_eq (h : r.Holds (a :: q)) : r.front? = some a := by
  have hcell := h.cell_eq 0 (Nat.zero_lt_succ _)
  rwa [Nat.add_zero, Nat.mod_eq_of_lt h.head_lt] at hcell

/-- Storing into a queue that is not full appends to the list. -/
theorem push (h : r.Holds q) (hq : q.length < r.size) (a : α) : (r.push a).Holds (q ++ [a]) where
  head_lt := by
    rw [size_push]
    exact h.head_lt
  length_le := by
    rw [size_push, List.length_append]
    exact hq
  count_eq := by
    rw [List.length_append, ← h.count_eq]
    rfl
  tail_eq := by
    rw [size_push, List.length_append, ← Nat.add_assoc]
    change (r.tail + 1) % r.size = _
    rw [h.tail_eq, Nat.mod_add_mod]
    rfl
  cell_eq j hj := by
    have htail : r.tail < r.cells.length := by
      rw [h.tail_eq]
      exact Nat.mod_lt _ (by omega)
    rw [List.length_append, List.length_singleton] at hj
    rw [size_push]
    change (r.cells.set r.tail a)[(r.head + j) % r.size]? = _
    rcases Nat.lt_or_eq_of_le (Nat.le_of_lt_succ hj) with hlt | rfl
    · -- Within one revolution an older value is in another cell.
      have hne : r.tail ≠ (r.head + j) % r.size := by
        rw [h.tail_eq]
        exact fun he ↦ Nat.ne_of_gt hlt
          ((CyclicQueue.add_mod_inj h.head_lt hq (by omega)).mp he)
      rw [List.getElem?_set_ne hne, h.cell_eq j hlt, List.getElem?_append_left hlt]
    · rw [← h.tail_eq, List.getElem?_set_self htail, List.getElem?_concat_length]

/-- Leaving out the value at the head removes the head of the list. -/
theorem pop (h : r.Holds (a :: q)) : r.pop.Holds q where
  head_lt := Nat.mod_lt _ (Nat.lt_of_le_of_lt (Nat.zero_le _) h.head_lt)
  length_le := Nat.le_of_succ_le h.length_le
  count_eq := by
    change r.count - 1 = q.length
    rw [h.count_eq]
    rfl
  tail_eq := by
    change r.tail = ((r.head + 1) % r.size + q.length) % r.size
    rw [h.tail_eq, Nat.mod_add_mod, List.length_cons]
    congr 1
    omega
  cell_eq j hj := by
    have hcell := h.cell_eq (j + 1) (Nat.succ_lt_succ hj)
    change r.cells[((r.head + 1) % r.size + j) % r.size]? = _
    rw [Nat.mod_add_mod, Nat.add_assoc, Nat.add_comm 1 j, hcell, List.getElem?_cons_succ]

end Holds
end RingQueue
end LedaSdk.Base
