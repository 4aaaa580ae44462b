import Mathlib.Data.List.Basic

/-!
# Lists searched by key

A list whose elements carry a key, searched from the front as a linked list is: find,
change or remove the first element with a given key. The laws about removal need the keys
to be pairwise distinct.
-/

namespace LedaSdk.Base.KeyedList

universe u v

variable {α : Type u} {κ : Type v} [DecidableEq κ] (key : α → κ)

/-- First element with key `k`. -/
def find (k : κ) (l : List α) : Option α := l.find? fun a ↦ key a = k

/-- Remove the first element with key `k`. -/
def erase (k : κ) (l : List α) : List α := l.eraseP fun a ↦ key a = k

/-- Change the first element with key `k`. -/
def modify (k : κ) (f : α → α) : List α → List α
  | [] => []
  | a :: l => if key a = k then f a :: l else a :: modify k f l

variable {key} {k k' : κ} {l : List α} {a : α} {f : α → α}

@[simp] theorem find_nil : find key k [] = none := rfl

theorem find_cons : find key k (a :: l) = if key a = k then some a else find key k l := by
  rw [find, List.find?_cons]
  by_cases h : key a = k
  · simp [h]
  · simp [h, find]

theorem erase_cons : erase key k (a :: l) = if key a = k then l else a :: erase key k l := by
  rw [erase, List.eraseP_cons]
  by_cases h : key a = k
  · simp [h]
  · simp [h, erase]

/-- A found element has the key it was searched by. -/
theorem key_of_find (h : find key k l = some a) : key a = k := by
  simpa using List.find?_some h

/-- A found element is in the list. -/
theorem mem_of_find (h : find key k l = some a) : a ∈ l := List.mem_of_find?_eq_some h

/-- With distinct keys, an element of the list is found by its key. -/
theorem find_of_mem (hl : (l.map key).Nodup) (ha : a ∈ l) : find key (key a) l = some a := by
  induction l with
  | nil => cases ha
  | cons b l ih =>
    rw [List.map_cons, List.nodup_cons] at hl
    rw [find_cons]
    rcases List.mem_cons.mp ha with rfl | ha
    · rw [if_pos rfl]
    · have hne : key b ≠ key a := fun he ↦ hl.1 (he ▸ List.mem_map_of_mem ha)
      rw [if_neg hne, ih hl.2 ha]

/-- Nothing is found exactly when the key does not occur. -/
theorem find_eq_none_iff : find key k l = none ↔ k ∉ l.map key := by
  simp only [find, List.find?_eq_none, decide_eq_true_eq, List.mem_map, not_exists, not_and]

/-- Something is found exactly when the key occurs. -/
theorem find_isSome_iff : (find key k l).isSome ↔ k ∈ l.map key := by
  rw [Option.isSome_iff_ne_none, Ne, find_eq_none_iff, not_not]

/-- Removing keeps the other keys' elements. -/
theorem find_erase_ne (hne : k' ≠ k) : find key k' (erase key k l) = find key k' l := by
  induction l with
  | nil => rfl
  | cons a l ih =>
    rw [erase_cons, find_cons]
    by_cases h : key a = k
    · rw [if_pos h, if_neg (fun hk ↦ hne (hk.symm.trans h))]
    · rw [if_neg h, find_cons, ih]

/-- With distinct keys, removing leaves no element with the removed key. -/
theorem find_erase_self (hl : (l.map key).Nodup) : find key k (erase key k l) = none := by
  induction l with
  | nil => rfl
  | cons a l ih =>
    rw [List.map_cons, List.nodup_cons] at hl
    rw [erase_cons]
    by_cases h : key a = k
    · rw [if_pos h, find_eq_none_iff, ← h]
      exact hl.1
    · rw [if_neg h, find_cons, if_neg h, ih hl.2]

/-- Removing keeps keys distinct. -/
theorem nodup_keys_erase (hl : (l.map key).Nodup) : ((erase key k l).map key).Nodup :=
  hl.sublist ((List.eraseP_sublist).map key)

/-- With distinct keys, removing removes its key and no other. -/
theorem mem_keys_erase (hl : (l.map key).Nodup) :
    k' ∈ (erase key k l).map key ↔ k' ∈ l.map key ∧ k' ≠ k := by
  by_cases h : k' = k
  · subst h
    simp only [ne_eq, not_true_eq_false, and_false, iff_false]
    exact find_eq_none_iff.mp (find_erase_self hl)
  · rw [← find_isSome_iff, find_erase_ne h, find_isSome_iff]
    simp [h]

/-- Removing an element removes its key. -/
theorem map_erase : (erase key k l).map key = (l.map key).erase k := by
  induction l with
  | nil => rfl
  | cons a l ih =>
    rw [erase_cons, List.map_cons, List.erase_cons]
    by_cases h : key a = k
    · rw [if_pos h, if_pos (beq_iff_eq.mpr h)]
    · rw [if_neg h, if_neg (fun he ↦ h (beq_iff_eq.mp he)), List.map_cons, ih]

/-- With distinct keys, a changed list has the old elements with other keys and the changed
one. -/
theorem mem_modify (hl : (l.map key).Nodup) (ha : a ∈ modify key k f l) :
    a ∈ l ∧ key a ≠ k ∨ ∃ b ∈ l, key b = k ∧ a = f b := by
  induction l with
  | nil => cases ha
  | cons b l ih =>
    rw [List.map_cons, List.nodup_cons] at hl
    rw [modify] at ha
    split at ha
    · next h =>
      rcases List.mem_cons.mp ha with rfl | ha
      · exact .inr ⟨b, List.mem_cons_self, h, rfl⟩
      · refine .inl ⟨List.mem_cons_of_mem b ha, fun hk ↦ hl.1 ?_⟩
        rw [h, ← hk]
        exact List.mem_map_of_mem ha
    · next h =>
      rcases List.mem_cons.mp ha with rfl | ha
      · exact .inl ⟨List.mem_cons_self, h⟩
      · rcases ih hl.2 ha with ⟨hmem, hne⟩ | ⟨c, hc, hk, rfl⟩
        · exact .inl ⟨List.mem_cons_of_mem b hmem, hne⟩
        · exact .inr ⟨c, List.mem_cons_of_mem b hc, hk, rfl⟩

/-- A change that keeps `g` of every element keeps it of the list. -/
theorem map_modify {β : Type*} {g : α → β} (hg : ∀ a, g (f a) = g a) :
    (modify key k f l).map g = l.map g := by
  induction l with
  | nil => rfl
  | cons a l ih =>
    rw [modify]
    split
    · simp [hg]
    · simp [ih]

/-- Changes that agree under `g` agree on the list under `g`. -/
theorem map_modify_congr {β : Type*} {g : α → β} {f' : α → α} (hg : ∀ a, g (f a) = g (f' a)) :
    (modify key k f l).map g = (modify key k f' l).map g := by
  induction l with
  | nil => rfl
  | cons a l ih =>
    rw [modify, modify]
    split
    · simp [hg]
    · simp [ih]

section modify

variable (hf : ∀ a, key (f a) = key a)
include hf

/-- A change is what is found afterwards under its key. -/
theorem find_modify_self : find key k (modify key k f l) = (find key k l).map f := by
  induction l with
  | nil => rfl
  | cons a l ih =>
    rw [modify, find_cons]
    by_cases h : key a = k
    · rw [if_pos h, if_pos h, find_cons, if_pos ((hf a).trans h)]
      rfl
    · rw [if_neg h, if_neg h, find_cons, if_neg h, ih]

/-- A change keeps the other keys' elements. -/
theorem find_modify_ne (hne : k' ≠ k) : find key k' (modify key k f l) = find key k' l := by
  induction l with
  | nil => rfl
  | cons a l ih =>
    rw [modify, find_cons]
    by_cases h : key a = k
    · have hk : key a ≠ k' := fun hk ↦ hne (hk.symm.trans h)
      rw [if_pos h, if_neg hk, find_cons, if_neg (fun he ↦ hk ((hf a).symm.trans he))]
    · rw [if_neg h, find_cons, ih]

end modify

end LedaSdk.Base.KeyedList
