import Mathlib.Data.List.Nodup
import Mathlib.Logic.Function.Basic

/-!
# Circular doubly linked lists

Nodes with links to the next and to the previous one, and a head that belongs to no entry.
`Ring` says which entries a head has, in the order of the links. The operations write the
links one after another, so that they may be applied to nodes that coincide.
-/

namespace LedaSdk.Base

universe u

/-- The links of all nodes. -/
structure Links (α : Type u) where
  next : α → α
  prev : α → α

namespace Links
variable {α : Type u} [DecidableEq α]

def setNext (l : Links α) (a b : α) : Links α := { l with next := Function.update l.next a b }

def setPrev (l : Links α) (a b : α) : Links α := { l with prev := Function.update l.prev a b }

/-- An empty list. -/
def init (l : Links α) (head : α) : Links α := (l.setNext head head).setPrev head head

/-- Insert a node between two known consecutive ones. -/
def insert (l : Links α) (item before after : α) : Links α :=
  (((l.setPrev after item).setNext item after).setPrev item before).setNext before item

/-- Insert a node behind the head. -/
def add (l : Links α) (item head : α) : Links α := l.insert item head (l.next head)

/-- Let two nodes point to each other. -/
def join (l : Links α) (before after : α) : Links α := (l.setPrev after before).setNext before after

/-- Take a node out. -/
def del (l : Links α) (item : α) : Links α := l.join (l.prev item) (l.next item)

/-- The first node from `pos` on that meets a test, before the head is reached; a test may have
no result. At most `fuel` nodes are visited. -/
def find (l : Links α) (head : α) (test : α → Option Bool) : Nat → α → Option (Option α)
  | 0, _ => none
  | fuel + 1, pos =>
    if pos = head then some none
    else (test pos).bind fun found ↦
      if found then some (some pos) else l.find head test fuel (l.next pos)

/-- The list of `head` consists of the nodes `xs`, in that order. -/
structure Ring (l : Links α) (head : α) (xs : List α) : Prop where
  nodup : (head :: xs).Nodup
  next : (head :: xs).map l.next = xs ++ [head]
  prev : (xs ++ [head]).map l.prev = head :: xs

omit [DecidableEq α] in
/-- A node that is in the list of a head, or is the head. -/
theorem Ring.nodup_concat {l : Links α} {head : α} {xs : List α} (h : l.Ring head xs) :
    (xs ++ [head]).Nodup :=
  List.nodup_append_comm.mp h.nodup

variable {l : Links α} {head item : α} {xs ys : List α}

omit [DecidableEq α] in
theorem Ring.next_mem (h : l.Ring head xs) (hitem : item ∈ head :: xs) : l.next item ∈ head :: xs := by
  have hmem := List.mem_map_of_mem (f := l.next) hitem
  rw [h.next, List.mem_append, List.mem_singleton] at hmem
  exact List.mem_cons.mpr hmem.symm

omit [DecidableEq α] in
theorem Ring.prev_mem (h : l.Ring head xs) (hitem : item ∈ head :: xs) : l.prev item ∈ head :: xs := by
  have hmem : item ∈ xs ++ [head] := by
    rw [List.mem_append, List.mem_singleton]
    exact (List.mem_cons.mp hitem).symm
  rw [← h.prev]
  exact List.mem_map_of_mem hmem

theorem ring_init (l : Links α) {head : α} : (l.init head).Ring head [] where
  nodup := List.nodup_singleton head
  next := by simp [init, setNext, setPrev]
  prev := by simp [init, setPrev]

/-- A map changed at a value that does not occur. -/
private theorem map_update {f : α → α} {a b : α} {ys : List α} (h : a ∉ ys) :
    ys.map (Function.update f a b) = ys.map f := by
  apply List.map_congr_left
  intro y hy
  apply Function.update_of_ne
  rintro rfl
  exact h hy

omit [DecidableEq α] in
/-- An element in the middle of a list without repetitions. -/
private theorem not_mem_of_nodup_middle {a : α} (h : (xs ++ a :: ys).Nodup) : a ∉ xs ∧ a ∉ ys := by
  rw [List.nodup_middle, List.nodup_cons, List.mem_append, not_or] at h
  exact h.1

section Cut
variable {front back : List α} {before after : α}

omit [DecidableEq α] in
/-- A list cut between two consecutive nodes. -/
theorem ring_cut_iff (hfront : head :: xs = front ++ [before]) (hback : ys ++ [head] = after :: back) :
    l.Ring head (xs ++ ys) ↔ (front ++ before :: ys).Nodup ∧
      (front.map l.next = xs ∧ l.next before = after ∧ ys.map l.next = back) ∧
      (xs.map l.prev = front ∧ l.prev after = before ∧ back.map l.prev = ys) := by
  have hlen : front.length = xs.length := by
    have := congrArg List.length hfront
    simp only [List.length_append, List.length_cons, List.length_nil] at this
    omega
  have hall : head :: (xs ++ ys) = front ++ before :: ys := by
    rw [← List.cons_append, hfront, List.append_assoc]
    rfl
  have hnext : (head :: (xs ++ ys)).map l.next = (xs ++ ys) ++ [head] ↔
      front.map l.next = xs ∧ l.next before = after ∧ ys.map l.next = back := by
    rw [hall, List.append_assoc, hback, List.map_append, List.map_cons]
    constructor
    · intro h
      obtain ⟨h1, h2⟩ := List.append_inj h (by rw [List.length_map, hlen])
      exact ⟨h1, List.cons.inj h2⟩
    · rintro ⟨h1, h2, h3⟩
      rw [h1, h2, h3]
  have hprev : ((xs ++ ys) ++ [head]).map l.prev = head :: (xs ++ ys) ↔
      xs.map l.prev = front ∧ l.prev after = before ∧ back.map l.prev = ys := by
    rw [hall, List.append_assoc, hback, List.map_append, List.map_cons]
    constructor
    · intro h
      obtain ⟨h1, h2⟩ := List.append_inj h (by rw [List.length_map, hlen])
      exact ⟨h1, List.cons.inj h2⟩
    · rintro ⟨h1, h2, h3⟩
      rw [h1, h2, h3]
  rw [← hnext, ← hprev, ← hall]
  exact ⟨fun h ↦ ⟨h.nodup, h.next, h.prev⟩, fun ⟨h1, h2, h3⟩ ↦ ⟨h1, h2, h3⟩⟩

/-- A node inserted between two consecutive ones. -/
theorem Ring.insert (h : l.Ring head (xs ++ ys)) (hitem : item ∉ head :: (xs ++ ys))
    (hfront : head :: xs = front ++ [before]) (hback : ys ++ [head] = after :: back) :
    (l.insert item before after).Ring head (xs ++ item :: ys) := by
  obtain ⟨hnodup, ⟨hn1, hn2, hn3⟩, hp1, hp2, hp3⟩ := (ring_cut_iff hfront hback).mp h
  have hall : head :: (xs ++ ys) = front ++ before :: ys := by
    rw [← List.cons_append, hfront, List.append_assoc]
    rfl
  have hends : xs ++ after :: back = xs ++ ys ++ [head] := by rw [← hback, List.append_assoc]
  have hnodup' : (xs ++ after :: back).Nodup := hends ▸ h.nodup_concat
  have hitem' : item ∉ xs ++ after :: back := by
    intro hmem
    rw [hends, List.mem_append, List.mem_singleton] at hmem
    exact hitem (List.mem_cons.mpr hmem.symm)
  rw [hall, List.mem_append, List.mem_cons, not_or, not_or] at hitem
  rw [List.mem_append, List.mem_cons, not_or, not_or] at hitem'
  obtain ⟨hif, hib, hiy⟩ := hitem
  obtain ⟨hix, hia, hik⟩ := hitem'
  obtain ⟨hbf, hby⟩ := not_mem_of_nodup_middle hnodup
  obtain ⟨hax, hak⟩ := not_mem_of_nodup_middle hnodup'
  have hback' : item :: ys ++ [head] = item :: (after :: back) := congrArg _ hback
  refine (ring_cut_iff hfront hback').mpr
    ⟨?_, ⟨?_, ?_, ?_⟩, ?_, ?_, ?_⟩
  · rw [← List.singleton_append, ← List.append_assoc, List.nodup_middle, List.nodup_cons,
      List.append_assoc, List.singleton_append]
    exact ⟨by simp [hif, hib, hiy], hnodup⟩
  · change front.map (Function.update (Function.update l.next item after) before item) = xs
    rw [map_update hbf, map_update hif, hn1]
  · exact Function.update_self (β := fun _ ↦ α) before item _
  · change (item :: ys).map (Function.update (Function.update l.next item after) before item) = _
    rw [map_update (by simp [Ne.symm hib, hby]), List.map_cons, Function.update_self, map_update hiy,
      hn3]
  · change xs.map (Function.update (Function.update l.prev after item) item before) = front
    rw [map_update hix, map_update hax, hp1]
  · exact Function.update_self (β := fun _ ↦ α) item before _
  · change (after :: back).map (Function.update (Function.update l.prev after item) item before) = _
    rw [map_update (by simp [hia, hik]), List.map_cons, Function.update_self, map_update hak, hp3]

/-- A node taken out between its neighbours. -/
theorem Ring.remove (h : l.Ring head (xs ++ item :: ys)) : (l.del item).Ring head (xs ++ ys) := by
  obtain ⟨front, before, hfront⟩ := List.eq_nil_or_concat (head :: xs) |>.resolve_left (by simp)
  obtain ⟨after, back, hback⟩ := List.exists_cons_of_ne_nil (show ys ++ [head] ≠ [] by simp)
  rw [List.concat_eq_append] at hfront
  -- The list is cut before the node and behind it.
  have hback' : item :: ys ++ [head] = item :: (ys ++ [head]) := rfl
  have hcut := (ring_cut_iff hfront hback').mp h
  have h' : l.Ring head (xs ++ [item] ++ ys) := by rwa [List.append_assoc]
  have hfront' : head :: (xs ++ [item]) = (head :: xs) ++ [item] := rfl
  have hcut' := (ring_cut_iff hfront' hback).mp h'
  obtain ⟨hnodup, ⟨hn1, -, -⟩, hp1, hprev, -⟩ := hcut
  obtain ⟨-, ⟨-, hnext, hn3⟩, -, -, hp3⟩ := hcut'
  have hends : xs ++ item :: after :: back = xs ++ item :: ys ++ [head] := by
    rw [List.append_assoc, List.cons_append, hback]
  have hnodup' : (xs ++ item :: after :: back).Nodup := hends ▸ h.nodup_concat
  -- Without the node nothing occurs twice either.
  have hskip : ∀ {as bs : List α} {a : α}, (as ++ item :: a :: bs).Nodup → (as ++ a :: bs).Nodup :=
    fun hl ↦ (List.nodup_cons.mp (List.nodup_middle.mp hl)).2
  have hmid : (front ++ before :: ys).Nodup := by
    rw [← List.singleton_append, ← List.append_assoc] at hnodup ⊢
    exact (List.nodup_cons.mp (List.nodup_middle.mp hnodup)).2
  obtain ⟨hbf, hby⟩ := not_mem_of_nodup_middle hmid
  obtain ⟨hax, hak⟩ := not_mem_of_nodup_middle (hskip hnodup')
  refine (ring_cut_iff hfront hback).mpr ⟨hmid, ⟨?_, ?_, ?_⟩, ?_, ?_, ?_⟩
  · change front.map (Function.update l.next (l.prev item) (l.next item)) = xs
    rw [hprev, map_update hbf, hn1]
  · change Function.update l.next (l.prev item) (l.next item) before = after
    rw [hprev, Function.update_self, hnext]
  · change ys.map (Function.update l.next (l.prev item) (l.next item)) = back
    rw [hprev, map_update hby, hn3]
  · change xs.map (Function.update l.prev (l.next item) (l.prev item)) = front
    rw [hnext, map_update hax, hp1]
  · change Function.update l.prev (l.next item) (l.prev item) after = before
    rw [hnext, Function.update_self, hprev]
  · change back.map (Function.update l.prev (l.next item) (l.prev item)) = ys
    rw [hnext, map_update hak, hp3]

end Cut

/-- `add` puts a node in front. -/
theorem Ring.add (h : l.Ring head xs) (hitem : item ∉ head :: xs) :
    (l.add item head).Ring head (item :: xs) := by
  obtain ⟨after, back, hback⟩ := List.exists_cons_of_ne_nil (show xs ++ [head] ≠ [] by simp)
  have hnext : l.next head = after := by
    have h1 := h.next
    rw [hback, List.map_cons] at h1
    exact (List.cons.inj h1).1
  rw [Links.add, hnext]
  have hfront : [head] = [] ++ [head] := rfl
  exact Ring.insert (show l.Ring head ([] ++ xs) from h) hitem hfront hback

/-- `del` takes a node out wherever it is. -/
theorem Ring.del (h : l.Ring head xs) (hitem : item ∈ xs) : (l.del item).Ring head (xs.erase item) := by
  obtain ⟨as, bs, rfl⟩ := List.append_of_mem hitem
  have hnot : item ∉ as := (not_mem_of_nodup_middle (List.nodup_cons.mp h.nodup).2).1
  rw [List.erase_append_right _ hnot, List.erase_cons_head]
  exact h.remove

omit [DecidableEq α] in
/-- The node that is linked behind one of the list. -/
theorem Ring.next_of_split {as bs : List α} {a b : α} (h : l.Ring head (as ++ bs))
    (ha : ∃ front, head :: as = front ++ [a]) (hb : ∃ back, bs ++ [head] = b :: back) :
    l.next a = b := by
  obtain ⟨front, hfront⟩ := ha
  obtain ⟨back, hback⟩ := hb
  exact ((ring_cut_iff hfront hback).mp h).2.1.2.1

/-- A search from a node of the list on. -/
private theorem find_suffix {test : α → Option Bool} {p : α → Bool} {as bs : List α} {pos : α}
    (h : l.Ring head (as ++ bs)) (htest : ∀ x ∈ bs, test x = some (p x))
    (hpos : ∃ back, bs ++ [head] = pos :: back) {fuel : Nat} (hfuel : bs.length < fuel) :
    l.find head test fuel pos = some (bs.find? p) := by
  induction bs generalizing as pos fuel with
  | nil =>
    obtain ⟨back, hback⟩ := hpos
    obtain ⟨n, rfl⟩ := Nat.exists_eq_add_of_lt hfuel
    rw [Links.find, if_pos (List.cons.inj hback).1.symm]
    rfl
  | cons b bs ih =>
    obtain ⟨back, hback⟩ := hpos
    obtain rfl : b = pos := (List.cons.inj hback).1
    obtain ⟨n, rfl⟩ := Nat.exists_eq_add_of_lt hfuel
    have hne : b ≠ head := by
      rintro rfl
      exact (List.nodup_cons.mp h.nodup).1 (by simp)
    rw [Links.find, if_neg hne, htest b List.mem_cons_self, Option.bind_some, List.find?_cons]
    cases hp : p b with
    | true => rfl
    | false =>
      have h' : l.Ring head ((as ++ [b]) ++ bs) := by rwa [List.append_assoc]
      obtain ⟨after, back', hback'⟩ := List.exists_cons_of_ne_nil (show bs ++ [head] ≠ [] by simp)
      have hnext : l.next b = after := h'.next_of_split ⟨head :: as, rfl⟩ ⟨back', hback'⟩
      rw [hnext]
      exact ih h' (fun x hx ↦ htest x (List.mem_cons_of_mem b hx)) ⟨back', hback'⟩
        (by simp only [List.length_cons] at hfuel ⊢; omega)

/-- A search through the list. -/
theorem Ring.find (h : l.Ring head xs) {test : α → Option Bool} {p : α → Bool}
    (htest : ∀ x ∈ xs, test x = some (p x)) {fuel : Nat} (hfuel : xs.length < fuel) :
    l.find head test fuel (l.next head) = some (xs.find? p) := by
  obtain ⟨after, back, hback⟩ := List.exists_cons_of_ne_nil (show xs ++ [head] ≠ [] by simp)
  have hall : l.Ring head ([] ++ xs) := h
  rw [hall.next_of_split ⟨[], rfl⟩ ⟨back, hback⟩]
  exact find_suffix hall htest ⟨back, hback⟩ hfuel

end Links

end LedaSdk.Base
