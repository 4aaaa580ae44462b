import LedaSdk.Base.Run

/-!
# Refinement with silent steps, and runs that end

A system whose steps are either silent or visible refines another one whose steps are the
visible ones. A system whose steps lower a measure has only runs of bounded length, and
each of them leads on to a state without a next step.
-/

namespace LedaSdk.Base

universe u v w

variable {σ τ : Type u} {α : Type v} {ε : Type w}

/-- The events of a history, without the silent steps. -/
def visible (tr : List (α × Option ε)) : List ε := tr.filterMap (·.2)

@[simp] theorem visible_nil : visible ([] : List (α × Option ε)) = [] := rfl

@[simp] theorem visible_concat_none (tr : List (α × Option ε)) (a : α) :
    visible (tr ++ [(a, none)]) = visible tr := by
  simp [visible]

@[simp] theorem visible_concat_some (tr : List (α × Option ε)) (a : α) (e : ε) :
    visible (tr ++ [(a, some e)]) = visible tr ++ [e] := by
  simp [visible]

/-- A step relation whose labels are the events. -/
abbrev EventRel (τ : Type u) (ε : Type w) := StepRel τ ε Unit

/-- `EventRun Q q es q'`: the events `es` lead from `q` to `q'`. -/
def EventRun (Q : EventRel τ ε) (q : τ) (es : List ε) (q' : τ) : Prop :=
  Run Q q (es.map (·, ())) q'

/-- What a step with an optional event does to an abstract state: nothing if it is silent. -/
def Visibly (Q : EventRel τ ε) (q : τ) : Option ε → τ → Prop
  | none, q' => q' = q
  | some e, q' => Q q e () q'

namespace EventRun
variable {Q : EventRel τ ε} {q q' q'' : τ} {es : List ε}

theorem nil : EventRun Q q [] q := Run.nil

theorem snoc {e : ε} (h : EventRun Q q es q') (he : Q q' e () q'') :
    EventRun Q q (es ++ [e]) q'' := by
  rw [EventRun, List.map_append]
  exact Run.snoc h he

/-- A relation between the events and the state that every event keeps. -/
theorem history_invariant {I : List ε → τ → Prop} (h0 : I [] q)
    (hstep : ∀ es t e u, I es t → Q t e () u → I (es ++ [e]) u) (h : EventRun Q q es q') :
    I es q' := by
  have key : I ((es.map (·, ())).map Prod.fst) q' := by
    apply Run.history_invariant (I := fun tr t ↦ I (tr.map Prod.fst) t) h0 _ h
    intro tr t e b u _ hi hr
    rw [List.map_append]
    exact hstep _ _ _ _ hi hr
  rwa [List.map_map, show Prod.fst ∘ (fun e : ε ↦ (e, ())) = id from rfl, List.map_id] at key

end EventRun

namespace Run
variable {R : StepRel σ α (Option ε)} {Q : EventRel τ ε} {s t : σ} {f : σ → τ} {I : σ → Prop}
  {tr : List (α × Option ε)}

/-- Refinement: a mapping that makes each step an event of the abstract system, or nothing,
maps runs to runs with the same events. -/
theorem refine (h0 : I s) (hstep : ∀ t a b u, I t → R t a b u → I u ∧ Visibly Q (f t) b (f u))
    (h : Run R s tr t) : I t ∧ EventRun Q (f s) (visible tr) (f t) := by
  induction h with
  | nil => exact ⟨h0, .nil⟩
  | @snoc tr t u a b prior step ih =>
    obtain ⟨hi, hrun⟩ := ih
    obtain ⟨hu, hvis⟩ := hstep _ _ _ _ hi step
    refine ⟨hu, ?_⟩
    cases b with
    | none =>
      rw [visible_concat_none, show f u = f t from hvis]
      exact hrun
    | some e =>
      rw [visible_concat_some]
      exact hrun.snoc hvis

end Run

/-- A run whose labels all meet a condition, wherever they stand. -/
theorem Run.guarded {β : Type w} {R : StepRel σ α β} {s t : σ} {tr : List (α × β)}
    {allowed : σ → α → Prop} (h : Run R s tr t) (hall : ∀ e ∈ tr, ∀ s, allowed s e.1) :
    Run (StepRel.guard allowed R) s tr t := by
  induction h with
  | nil => exact .nil
  | snoc _ step ih =>
    refine .snoc (ih fun e he ↦ hall e (List.mem_append_left _ he)) ⟨?_, step⟩
    exact hall _ (List.mem_append_right _ (List.mem_singleton_self _)) _

section Bounded
variable {β : Type w} {R : StepRel σ α β} {s t : σ} {tr : List (α × β)} {I : σ → Prop} {μ : σ → Nat}

/-- A state in which no step is possible. -/
def Halted (R : StepRel σ α β) (s : σ) : Prop := ∀ a b t, ¬ R s a b t

/-- Each step lowers the measure: a run is not longer than the measure of its start. -/
theorem Run.length_add_le (h0 : I s) (hstep : ∀ t a b u, I t → R t a b u → I u ∧ μ u < μ t)
    (h : Run R s tr t) : I t ∧ tr.length + μ t ≤ μ s := by
  induction h with
  | nil =>
    refine ⟨h0, ?_⟩
    simp
  | snoc _ step ih =>
    obtain ⟨hi, hle⟩ := ih
    obtain ⟨hu, hlt⟩ := hstep _ _ _ _ hi step
    refine ⟨hu, ?_⟩
    rw [List.length_append, List.length_singleton]
    omega

/-- Where each step lowers a measure, every run can be continued to its end. -/
theorem Run.exists_halted (h0 : I s) (hstep : ∀ t a b u, I t → R t a b u → I u ∧ μ u < μ t) :
    ∃ tr t, Run R s tr t ∧ Halted R t := by
  induction hn : μ s using Nat.strongRecOn generalizing s with
  | _ n ih =>
    by_cases hhalt : Halted R s
    · exact ⟨[], s, .nil, hhalt⟩
    · simp only [Halted, not_forall, not_not] at hhalt
      obtain ⟨a, b, u, hr⟩ := hhalt
      obtain ⟨hu, hlt⟩ := hstep _ _ _ _ h0 hr
      obtain ⟨tr, t, hrun, ht⟩ := ih (μ u) (hn ▸ hlt) hu rfl
      exact ⟨(a, b) :: tr, t, (Run.single hr).append hrun, ht⟩

end Bounded

end LedaSdk.Base
