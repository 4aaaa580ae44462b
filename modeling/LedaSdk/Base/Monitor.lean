import Mathlib.Data.List.Basic

/-!
# Threads under one lock

Program points of threads, each of which holds the lock or not. The lock names the thread
that holds it, and a thread takes and leaves it as its program point changes. Sums over the
threads count those at certain points; replacing one thread's point changes one summand.
-/

namespace LedaSdk.Base

universe u v

/-- How a step of the thread `t` changes the lock, given whether its program points before and
after the step hold it. -/
inductive LockStep {ι : Type u} (t : ι) : Bool → Bool → Option ι → Option ι → Prop
  | stay (b : Bool) (l : Option ι) : LockStep t b b l l
  | acquire : LockStep t false true none (some t)
  | release (l : Option ι) : LockStep t true false l none

/-- The lock names exactly the thread that is at a point that holds it. -/
def Exclusive {ι : Type u} (inside : ι → Bool) (lock : Option ι) : Prop :=
  ∀ t, inside t = true ↔ lock = some t

namespace Exclusive
variable {ι : Type u} {inside inside' : ι → Bool} {lock lock' : Option ι} {t : ι}

/-- A lock that nobody holds is free. -/
theorem of_free (h : ∀ t, inside t = false) : Exclusive inside none := by
  intro t
  simp [h t]

/-- At most one thread is inside. -/
theorem unique (h : Exclusive inside lock) {u : ι} (ht : inside t = true) (hu : inside u = true) :
    t = u := Option.some.inj (((h t).mp ht).symm.trans ((h u).mp hu))

/-- A step of one thread that changes the lock along with its own point keeps exclusion. -/
theorem step (h : Exclusive inside lock) (hother : ∀ u, u ≠ t → inside' u = inside u)
    (hlock : LockStep t (inside t) (inside' t) lock lock') : Exclusive inside' lock' := by
  intro u
  rcases eq_or_ne u t with rfl | hne
  · have hu := h u
    generalize inside u = b at hlock hu
    generalize inside' u = b' at hlock
    cases hlock with
    | stay => exact hu
    | acquire => simp
    | release => simp
  · rw [hother u hne]
    have hu := h u
    have ht := h t
    generalize inside t = b at hlock ht
    generalize inside' t = b' at hlock
    cases hlock with
    | stay => exact hu
    | acquire =>
      rw [hu]
      simp [Ne.symm hne]
    | release =>
      rw [hu, ht.mp rfl]
      simp [Ne.symm hne]

end Exclusive

/-- A new thread at a point outside of the lock. -/
theorem any_getElem?_concat {π : Type v} {inside : π → Bool} {p : π} (hp : inside p = false)
    (l : List π) (i : Nat) : ((l ++ [p])[i]?).any inside = (l[i]?).any inside := by
  rcases Nat.lt_trichotomy i l.length with hlt | rfl | hgt
  · rw [List.getElem?_append_left hlt]
  · rw [List.getElem?_concat_length, List.getElem?_eq_none (Nat.le_refl _)]
    exact hp
  · rw [List.getElem?_eq_none (by rw [List.length_append, List.length_singleton]; omega),
      List.getElem?_eq_none (by omega)]

section Totals
variable {π : Type v} {f : π → Nat} {l : List π} {i : Nat} {p p' : π}

/-- The sum of a weight over all threads. -/
def total (f : π → Nat) : List π → Nat
  | [] => 0
  | p :: l => f p + total f l

@[simp] theorem total_nil (f : π → Nat) : total f [] = 0 := rfl

@[simp] theorem total_cons (f : π → Nat) (p : π) (l : List π) :
    total f (p :: l) = f p + total f l := rfl

@[simp] theorem total_concat (f : π → Nat) (l : List π) (p : π) :
    total f (l ++ [p]) = total f l + f p := by
  induction l with
  | nil => simp
  | cons q l ih =>
    rw [List.cons_append, total_cons, total_cons, ih]
    omega

/-- Replacing one point replaces its summand. -/
theorem total_set (f : π → Nat) (hi : l[i]? = some p) (p' : π) :
    total f (l.set i p') + f p = total f l + f p' := by
  induction l generalizing i with
  | nil => cases hi
  | cons q l ih =>
    cases i with
    | zero =>
      obtain rfl := Option.some.inj hi
      rw [List.set_cons_zero, total_cons, total_cons]
      omega
    | succ i =>
      have := ih hi
      rw [List.set_cons_succ, total_cons, total_cons]
      omega

/-- One summand is part of the sum. -/
theorem le_total (f : π → Nat) (hi : l[i]? = some p) : f p ≤ total f l := by
  induction l generalizing i with
  | nil => cases hi
  | cons q l ih =>
    rw [total_cons]
    cases i with
    | zero =>
      obtain rfl := Option.some.inj hi
      omega
    | succ i =>
      have := ih hi
      omega

/-- A sum is zero only if every summand is. -/
theorem eq_zero_of_total (h : total f l = 0) (hp : p ∈ l) : f p = 0 := by
  obtain ⟨i, hi⟩ := List.mem_iff_getElem?.mp hp
  have := le_total f hi
  omega

/-- A sum of zeros is zero. -/
theorem total_eq_zero (h : ∀ p ∈ l, f p = 0) : total f l = 0 := by
  induction l with
  | nil => rfl
  | cons q l ih =>
    rw [total_cons, h q List.mem_cons_self, ih fun p hp ↦ h p (List.mem_cons_of_mem _ hp)]

end Totals

end LedaSdk.Base
