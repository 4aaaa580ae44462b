import Mathlib.Data.List.Induction

/-!
# Finite runs of a labelled step relation

A step relation reads a state and a label and yields an output and a next state.
Runs keep the whole history of labels with their outputs, newest last, so that an
invariant may relate the current state to everything that led to it.
-/

namespace LedaSdk.Base

universe u v w

variable {σ τ : Type u} {α : Type v} {β : Type w}

/-- A labelled step relation: state before, label, output, state after. -/
abbrev StepRel (σ : Type u) (α : Type v) (β : Type w) := σ → α → β → σ → Prop

/-- `Run R s tr t`: the steps recorded in `tr` lead from `s` to `t`. -/
inductive Run (R : StepRel σ α β) (s : σ) : List (α × β) → σ → Prop
  | nil : Run R s [] s
  | snoc {tr : List (α × β)} {t u : σ} {a : α} {b : β}
      (prior : Run R s tr t) (step : R t a b u) : Run R s (tr ++ [(a, b)]) u

namespace Run

variable {R R' : StepRel σ α β} {s t u : σ} {tr tr' : List (α × β)}

/-- Runs that meet compose. -/
theorem append (h : Run R s tr t) (h' : Run R t tr' u) : Run R s (tr ++ tr') u := by
  induction h' with
  | nil => simpa using h
  | snoc _ step ih =>
    rw [← List.append_assoc]
    exact .snoc ih step

/-- One step is a run. -/
theorem single {a : α} {b : β} (h : R s a b t) : Run R s [(a, b)] t := .snoc .nil h

/-- A larger step relation has every run of a smaller one. -/
theorem mono (hR : ∀ s a b t, R s a b t → R' s a b t) (h : Run R s tr t) : Run R' s tr t := by
  induction h with
  | nil => exact .nil
  | snoc _ step ih => exact .snoc ih (hR _ _ _ _ step)

/-- A relation between history and state that every step keeps holds after every run. -/
theorem history_invariant {I : List (α × β) → σ → Prop} (h0 : I [] s)
    (hstep : ∀ tr t a b u, Run R s tr t → I tr t → R t a b u → I (tr ++ [(a, b)]) u)
    (h : Run R s tr t) : I tr t := by
  induction h with
  | nil => exact h0
  | snoc prior step ih => exact hstep _ _ _ _ _ prior ih step

/-- A state predicate that every step keeps holds after every run. -/
theorem invariant {I : σ → Prop} (h0 : I s)
    (hstep : ∀ t a b u, I t → R t a b u → I u) (h : Run R s tr t) : I t :=
  h.history_invariant (I := fun _ t ↦ I t) h0 fun _ _ _ _ _ _ hi hr ↦ hstep _ _ _ _ hi hr

/-- Forward simulation: matched steps turn a run into one with the same history. -/
theorem simulate {Q : StepRel τ α β} {I : List (α × β) → σ → τ → Prop} {q : τ}
    (h0 : I [] s q)
    (hstep : ∀ tr t a b u q, I tr t q → R t a b u →
      ∃ q', Q q a b q' ∧ I (tr ++ [(a, b)]) u q')
    (h : Run R s tr t) : ∃ q', Run Q q tr q' ∧ I tr t q' := by
  induction h with
  | nil => exact ⟨q, .nil, h0⟩
  | snoc _ step ih =>
    obtain ⟨q', hq, hrel⟩ := ih
    obtain ⟨q'', hstep', hrel'⟩ := hstep _ _ _ _ _ _ hrel step
    exact ⟨q'', .snoc hq hstep', hrel'⟩

end Run

/-- The step relation of a partial step function. -/
def StepRel.ofFn (step : σ → α → Option (β × σ)) : StepRel σ α β :=
  fun s a b t ↦ step s a = some (b, t)

/-- Steps that also meet a condition on the state before them. -/
def StepRel.guard (ok : σ → α → Prop) (R : StepRel σ α β) : StepRel σ α β :=
  fun s a b t ↦ ok s a ∧ R s a b t

/-- Each element of a list meets `P` together with the elements before it. -/
def EachAfter {γ : Type*} (P : List γ → γ → Prop) (l : List γ) : Prop :=
  ∀ before c after, l = before ++ c :: after → P before c

theorem EachAfter.nil {γ : Type*} {P : List γ → γ → Prop} : EachAfter P [] := by
  intro before c after he
  simp at he

/-- A longer list adds one condition. -/
theorem EachAfter.concat_iff {γ : Type*} {P : List γ → γ → Prop} {l : List γ} {c : γ} :
    EachAfter P (l ++ [c]) ↔ EachAfter P l ∧ P l c := by
  constructor
  · intro h
    refine ⟨fun before c' after he ↦ h before c' (after ++ [c]) ?_, h l c [] rfl⟩
    rw [he, List.append_assoc]
    rfl
  · rintro ⟨h, hc⟩ before c' after he
    rcases List.eq_nil_or_concat after with rfl | ⟨init, last, rfl⟩
    · obtain ⟨rfl, hl⟩ := List.append_inj' he rfl
      obtain rfl := List.singleton_inj.mp hl
      exact hc
    · rw [List.concat_eq_append, ← List.cons_append, ← List.append_assoc] at he
      exact h before c' init (List.append_inj' he rfl).1

/-- Each label of a history meets `P` together with the history before it. -/
def Along (P : List (α × β) → α → Prop) (tr : List (α × β)) : Prop :=
  ∀ before a b after, tr = before ++ (a, b) :: after → P before a

theorem along_iff_eachAfter {P : List (α × β) → α → Prop} {tr : List (α × β)} :
    Along P tr ↔ EachAfter (fun before e ↦ P before e.1) tr :=
  ⟨fun h before e after ↦ h before e.1 e.2 after, fun h before a b ↦ h before (a, b)⟩

/-- A longer history adds one condition. -/
theorem Along.concat_iff {P : List (α × β) → α → Prop} {tr : List (α × β)} {a : α} {b : β} :
    Along P (tr ++ [(a, b)]) ↔ Along P tr ∧ P tr a := by
  rw [along_iff_eachAfter, along_iff_eachAfter, EachAfter.concat_iff]

theorem Along.concat {P : List (α × β) → α → Prop} {tr : List (α × β)} {a : α} (b : β)
    (h : Along P tr) (ha : P tr a) : Along P (tr ++ [(a, b)]) := concat_iff.mpr ⟨h, ha⟩

theorem Along.nil {P : List (α × β) → α → Prop} : Along P [] :=
  along_iff_eachAfter.mpr EachAfter.nil

/-- Execute a list of labels with a partial step function, recording the history. -/
def exec (step : σ → α → Option (β × σ)) (s : σ) : List α → Option (List (α × β) × σ)
  | [] => some ([], s)
  | a :: as =>
    match step s a with
    | none => none
    | some (b, t) =>
      match exec step t as with
      | none => none
      | some (tr, u) => some ((a, b) :: tr, u)

/-- Every execution is a run. -/
theorem Run.of_exec (step : σ → α → Option (β × σ)) {s t : σ} {as : List α}
    {tr : List (α × β)} (h : exec step s as = some (tr, t)) :
    Run (StepRel.ofFn step) s tr t := by
  induction as generalizing s tr with
  | nil =>
    obtain ⟨rfl, rfl⟩ := Prod.mk.inj (Option.some.inj h)
    exact .nil
  | cons a as ih =>
    unfold exec at h
    split at h
    · cases h
    · next b v hv =>
      split at h
      · cases h
      · next tr' w hw =>
        obtain ⟨rfl, rfl⟩ := Prod.mk.inj (Option.some.inj h)
        exact (Run.single (R := StepRel.ofFn step) hv).append (ih hw)

end LedaSdk.Base
