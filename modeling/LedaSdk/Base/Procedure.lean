import Mathlib.Init

/-!
# C functions that report failure

A function on a state returns a value or reports that it failed; the state is left as it
was at that point. An access to memory outside the blocks of the state has no result.
`Gives` is the rule of such functions: from a state, the function has a result, a value
and the state with it meet `Q`, and the state after a failure meets `E`.
-/

namespace LedaSdk.Base

/-- A C function with a state of type `σ`. -/
abbrev Procedure (σ α : Type) := OptionT (StateT σ Option) α

namespace Procedure
variable {σ α β : Type}

/-- Return with a failure. -/
def fail : Procedure σ α := fun s ↦ some (none, s)

/-- A statement that changes the state, without result where it accesses memory that it must
not. -/
def access (f : σ → Option σ) : Procedure σ Unit := fun s ↦ (f s).map fun s' ↦ (some (), s')

/-- A statement that changes the state. -/
def update (f : σ → σ) : Procedure σ Unit := fun s ↦ some (some (), f s)

/-- From `s` the function has a result; a value meets `Q` with the state, and the state of
a failure meets `E`. -/
def Gives (m : Procedure σ α) (s : σ) (Q : α → σ → Prop) (E : σ → Prop) : Prop :=
  ∃ r s', m s = some (r, s') ∧ match r with
    | some a => Q a s'
    | none => E s'

section Rules
variable {m : Procedure σ α} {f : α → Procedure σ β} {s : σ} {Q Q' : α → σ → Prop}
  {R : β → σ → Prop} {E E' : σ → Prop}

theorem Gives.mono (h : Gives m s Q E) (hQ : ∀ a s', Q a s' → Q' a s')
    (hE : ∀ s', E s' → E' s') : Gives m s Q' E' := by
  obtain ⟨r, s', hm, h⟩ := h
  refine ⟨r, s', hm, ?_⟩
  cases r with
  | none => exact hE s' h
  | some a => exact hQ a s' h

/-- A function that does the same from `s`. -/
theorem Gives.congr {m' : Procedure σ α} (h : Gives m s Q E) (hm : m' s = m s) : Gives m' s Q E := by
  rwa [Gives, hm]

theorem gives_pure {a : α} (h : Q a s) : Gives (pure a) s Q E := ⟨some a, s, rfl, h⟩

theorem gives_update {g : σ → σ} {Q : Unit → σ → Prop} (h : Q () (g s)) :
    Gives (update g) s Q E :=
  ⟨some (), g s, rfl, h⟩

theorem gives_access {g : σ → Option σ} {s' : σ} {Q : Unit → σ → Prop} (hg : g s = some s')
    (h : Q () s') : Gives (access g) s Q E := by
  refine ⟨some (), s', ?_, h⟩
  rw [access, hg]
  rfl

theorem bind_of_value {a : α} {s' : σ} (h : m s = some (some a, s')) : (m >>= f) s = f a s' := by
  change (m s).bind _ = _
  rw [h]
  rfl

theorem bind_of_fail {s' : σ} (h : m s = some (none, s')) : (m >>= f) s = some (none, s') := by
  change (m s).bind _ = _
  rw [h]
  rfl

theorem bind_of_fault (h : m s = none) : (m >>= f) s = none := by
  change (m s).bind _ = _
  rw [h]
  rfl

/-- One function after another. -/
theorem Gives.bind (h : Gives m s Q E) (hf : ∀ a s', Q a s' → Gives (f a) s' R E) :
    Gives (m >>= f) s R E := by
  obtain ⟨r, s', hm, h⟩ := h
  cases r with
  | none => exact ⟨none, s', bind_of_fail hm, h⟩
  | some a =>
    obtain ⟨r, s'', hr, h⟩ := hf a s' h
    exact ⟨r, s'', (bind_of_value hm).trans hr, h⟩

/-- After a statement that changes the state. -/
theorem Gives.after_update {g : σ → σ} {f : Unit → Procedure σ β} (h : Gives (f ()) (g s) R E) :
    Gives (update g >>= f) s R E := by
  obtain ⟨r, s', hf, h⟩ := h
  exact ⟨r, s', (bind_of_value rfl).trans hf, h⟩

end Rules

end Procedure

end LedaSdk.Base
