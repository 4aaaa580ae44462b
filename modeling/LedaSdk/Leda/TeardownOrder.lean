import LedaSdk.Leda.Teardown

/-!
# Stopping in order

When the steps of `Teardown` use nothing that is gone: a condition on the state before each
step, the invariant that it keeps, and what can follow a step that does not meet it.
-/

namespace LedaSdk.Leda
open LedaSdk.Base LedaSdk.AliWs

/-- A network thread handles a received frame. -/
def NetThread.Handling (t : NetThread) : Prop :=
  ∃ leaving, t = .running leaving (.calling .receive) ∨ t = .running leaving .adding

/-- Starting and stopping in order: no push tests `g_ws_buf` while the slots are allocated, the
pool is destroyed while no frame is handled and none is received until the client is stopped
too, `g_cbs` is freed when no network thread is left, and the slots are freed while no push is
about to access one. -/
def Orderly (s : LifeState) : LifeOp → Prop
  | .testBuf => s.app ≠ .initSlots
  | .exit => ∀ i, ¬ (s.threads i).Handling
  | .thread _ (.callback .receive) => s.app ≠ .exitFlag ∧ s.app ≠ .exitCbs
  | .next _ =>
    (s.app = .exitCbs → ∀ i, s.threads i = .gone) ∧
      (s.app = .exitBuf ∨ s.app = .undo → s.pushes = 0)
  | _ => True

/-! ### The invariant -/

/-- What there is at each point of the application. -/
def LifeState.Shape (s : LifeState) : Prop :=
  match s.app with
  | .idle => if s.hasInit then s.cbs = true ∧ s.buf = true ∧ s.pool = .opened else s.buf = false
  | .initCbs => s.hasInit = false ∧ s.buf = false ∧ s.pool = .opened
  | .initFlag | .initBuf =>
    s.hasInit = false ∧ s.buf = false ∧ s.pool = .opened ∧ s.cbs = true
  | .initSlots | .initThread => s.hasInit = false ∧ s.buf = true ∧ s.pool = .opened ∧ s.cbs = true
  | .undo => s.hasInit = false
  | .exitFlag | .exitCbs => s.hasInit = true → s.cbs = true ∧ s.buf = true ∧ s.pool = .closed
  | .exitBuf => True
  | .exitRest => s.buf = false

/-- The slots are there whenever `g_ws_buf` is set, except while they are allocated. At most one
network thread is left, and only between the end of a start and the release of `g_cbs`; it
handles frames only while no call runs; and pushes that passed their test find the slots. -/
structure LifeState.LifeInv (s : LifeState) : Prop where
  shape : s.Shape
  slots_eq : s.slots = if s.app = .initSlots then false else s.buf
  alive : ∀ i, s.threads i ≠ .gone →
    s.hasInit = true ∧ (s.app = .idle ∨ s.app = .exitFlag ∨ s.app = .exitCbs)
  unique : ∀ i j, s.threads i ≠ .gone → s.threads j ≠ .gone → i = j
  handling : ∀ i, (s.threads i).Handling → s.app = .idle
  pushes_slots : 0 < s.pushes → s.slots = true

section Steps
variable {s s' : LifeState} {op : LifeOp} {use : Use} {t t' : NetThread} {threadOp : ThreadOp}
  {i : Nat}

theorem LifeState.lifeInv_start : LifeState.start.LifeInv where
  shape := rfl
  slots_eq := rfl
  alive i h := absurd rfl h
  unique i j h := absurd rfl h
  handling i h := by
    obtain ⟨leaving, h | h⟩ := h <;> cases h
  pushes_slots h := absurd h (by decide)

private theorem NetThread.Handling.ne_gone (h : t.Handling) : t ≠ .gone := by
  obtain ⟨leaving, rfl | rfl⟩ := h <;> exact NetThread.noConfusion

private theorem not_handling_outside (leaving : Bool) :
    ¬ (NetThread.running leaving .outside).Handling := by
  rintro ⟨_, h | h⟩ <;> cases h

private theorem not_handling_clearing (leaving : Bool) :
    ¬ (NetThread.running leaving .clearing).Handling := by
  rintro ⟨_, h | h⟩ <;> cases h

/-- After the call, or the test that finds `g_cbs` null, a frame is handled only if it was
received and the call was made. -/
private theorem handling_after {leaving called : Bool} {reason : WsReason}
    (h : (NetThread.running leaving (reason.after called)).Handling) :
    reason = .receive ∧ called = true := by
  cases reason with
  | receive =>
    cases called with
    | true => exact ⟨rfl, rfl⟩
    | false => exact absurd h (not_handling_outside leaving)
  | closed => exact absurd h (not_handling_clearing leaving)
  | established => exact absurd h (not_handling_outside leaving)
  | writeable => exact absurd h (not_handling_outside leaving)
  | connectionError => exact absurd h (not_handling_outside leaving)

/-- A step of a network thread that is not gone: it begins to handle a frame only when one is
received, and uses the pool only while it handles one. -/
theorem threadStep_cases (h : threadStep s t threadOp = some (use, t')) :
    t ≠ .gone ∧ (t'.Handling → t.Handling ∨ threadOp = .callback .receive) ∧
      ∀ r live, use = some (r, live) →
        (r = .slots ∧ live = s.slots) ∨ (r = .callbacks ∧ live = s.cbs) ∨
          (r = .pool ∧ t.Handling ∧ live = decide (s.pool ≠ .closed)) := by
  unfold threadStep at h
  split at h
  · obtain ⟨rfl, rfl⟩ := Prod.mk.inj (Option.some.inj h)
    exact ⟨by simp, fun hh ↦ absurd hh (not_handling_outside _), by simp⟩
  · next leaving reason =>
    split at h
    · cases h
    · split at h
      · obtain ⟨rfl, rfl⟩ := Prod.mk.inj (Option.some.inj h)
        refine ⟨by simp, fun hh ↦ absurd hh (not_handling_outside _), ?_⟩
        rintro r live ⟨⟩
        exact .inl ⟨rfl, rfl⟩
      · split at h
        · obtain ⟨rfl, rfl⟩ := Prod.mk.inj (Option.some.inj h)
          refine ⟨by simp, ?_, by simp⟩
          rintro ⟨_, hh | hh⟩
          · cases hh
            exact .inr rfl
          · cases hh
        · obtain ⟨rfl, rfl⟩ := Prod.mk.inj (Option.some.inj h)
          refine ⟨by simp, fun hh ↦ ?_, by simp⟩
          cases (handling_after hh).2
  · next leaving reason =>
    obtain ⟨rfl, rfl⟩ := Prod.mk.inj (Option.some.inj h)
    refine ⟨by simp, fun hh ↦ ?_, ?_⟩
    · obtain ⟨rfl, -⟩ := handling_after hh
      exact .inl ⟨leaving, .inl rfl⟩
    · rintro r live ⟨⟩
      exact .inr (.inl ⟨rfl, rfl⟩)
  · next leaving valid =>
    obtain ⟨rfl, rfl⟩ := Prod.mk.inj (Option.some.inj h)
    refine ⟨by simp, fun hh ↦ absurd hh (not_handling_outside _), fun r live hu ↦ ?_⟩
    cases valid with
    | true =>
      cases hu
      exact .inr (.inr ⟨rfl, ⟨leaving, .inr rfl⟩, rfl⟩)
    | false => cases hu
  · obtain ⟨rfl, rfl⟩ := Prod.mk.inj (Option.some.inj h)
    refine ⟨by simp, fun hh ↦ absurd hh (not_handling_outside _), ?_⟩
    rintro r live ⟨⟩
    exact .inl ⟨rfl, rfl⟩
  · next failed =>
    obtain ⟨rfl, rfl⟩ := Prod.mk.inj (Option.some.inj h)
    refine ⟨by simp, fun hh ↦ ?_, by simp⟩
    cases failed with
    | true => exact absurd hh (not_handling_outside _)
    | false => obtain ⟨_, hh | hh⟩ := hh <;> cases hh
  · obtain ⟨rfl, rfl⟩ := Prod.mk.inj (Option.some.inj h)
    exact ⟨by simp, fun hh ↦ absurd rfl hh.ne_gone, by simp⟩
  · cases h

@[simp] theorem LifeState.threads_setThread_self (s : LifeState) (i : Nat) (t : NetThread) :
    (s.setThread i t).threads i = t := if_pos rfl

theorem LifeState.threads_setThread_ne (s : LifeState) {i j : Nat} (t : NetThread) (h : j ≠ i) :
    (s.setThread i t).threads j = s.threads j := if_neg h

namespace LifeState.LifeInv

/-- A network thread that is left finds `g_cbs` and the slots. -/
theorem resources (hinv : s.LifeInv) (hi : s.threads i ≠ .gone) :
    s.cbs = true ∧ s.slots = true := by
  have hshape := hinv.shape
  rw [hinv.slots_eq]
  obtain ⟨hinit, happ | happ | happ⟩ := hinv.alive i hi
  · rw [Shape, happ, hinit] at hshape
    rw [happ]
    exact ⟨hshape.1, hshape.2.1⟩
  · rw [Shape, happ] at hshape
    rw [happ]
    exact ⟨(hshape hinit).1, (hshape hinit).2.1⟩
  · rw [Shape, happ] at hshape
    rw [happ]
    exact ⟨(hshape hinit).1, (hshape hinit).2.1⟩

/-- A network thread that handles a frame finds a pool that was not destroyed. -/
theorem pool_live (hinv : s.LifeInv) (hi : (s.threads i).Handling) : s.pool = .opened := by
  have hshape := hinv.shape
  rw [Shape, hinv.handling i hi, (hinv.alive i hi.ne_gone).1] at hshape
  exact hshape.2.2

/-- While `leda_exit` stops the client, a network thread that is left finds the pool destroyed. -/
theorem pool_closed (hinv : s.LifeInv) (hi : s.threads i ≠ .gone)
    (happ : s.app = .exitFlag ∨ s.app = .exitCbs) : s.pool = .closed := by
  have hshape := hinv.shape
  have hinit := (hinv.alive i hi).1
  rcases happ with happ | happ
  · rw [Shape, happ] at hshape
    exact (hshape hinit).2.2
  · rw [Shape, happ] at hshape
    exact (hshape hinit).2.2

/-- A step uses only what is there. -/
theorem uses_live (hinv : s.LifeInv) (h : lifeStep s op = some (use, s')) (r : Resource) :
    use ≠ some (r, false) := by
  rintro rfl
  cases op with
  | init poolOk =>
    simp only [lifeStep] at h
    split at h
    · cases h
    · split at h
      · cases h
      · split at h <;> cases h
  | exit =>
    simp only [lifeStep] at h
    split at h <;> cases h
  | next ok =>
    obtain ⟨_, -, he⟩ := Option.map_eq_some_iff.mp h
    cases he
  | testBuf => cases h
  | access =>
    simp only [lifeStep] at h
    split at h
    · next hpos =>
      rw [hinv.pushes_slots hpos] at h
      cases h
    · cases h
  | thread i threadOp =>
    obtain ⟨⟨use, t⟩, hstep, he⟩ := Option.map_eq_some_iff.mp h
    obtain ⟨rfl, -⟩ := Prod.mk.inj he
    obtain ⟨halive, -, huse⟩ := threadStep_cases hstep
    obtain ⟨hcbs, hslots⟩ := hinv.resources halive
    rcases huse r false rfl with ⟨-, hl⟩ | ⟨-, hl⟩ | ⟨-, hh, hl⟩
    · cases hl.trans hslots
    · cases hl.trans hcbs
    · rw [hinv.pool_live hh] at hl
      cases hl

/-- The steps of the threads keep what the application set up. -/
private theorem setThread (hinv : s.LifeInv) (hne : s.threads i ≠ .gone)
    (hhandle : t.Handling → s.app = .idle) : (s.setThread i t).LifeInv := by
  have hback (j : Nat) (hj : (s.setThread i t).threads j ≠ .gone) : s.threads j ≠ .gone := by
    by_cases hji : j = i
    · rw [hji]
      exact hne
    · rwa [threads_setThread_ne s t hji] at hj
  refine ⟨hinv.shape, hinv.slots_eq, fun j hj ↦ hinv.alive j (hback j hj), fun j k hj hk ↦
    hinv.unique j k (hback j hj) (hback k hk), fun j hj ↦ ?_, hinv.pushes_slots⟩
  by_cases hji : j = i
  · rw [hji, threads_setThread_self] at hj
    exact hhandle hj
  · rw [threads_setThread_ne s t hji] at hj
    exact hinv.handling j hj

/-- Where no network thread is left, the application alone decides what there is. -/
private theorem noThreads {s : LifeState} (hshape : s.Shape) (hgone : ∀ i, s.threads i = .gone)
    (hslots : s.slots = if s.app = .initSlots then false else s.buf)
    (hpushes : 0 < s.pushes → s.slots = true) : s.LifeInv where
  shape := hshape
  slots_eq := hslots
  alive i h := absurd (hgone i) h
  unique i _ h := absurd (hgone i) h
  handling i h := absurd (hgone i) h.ne_gone
  pushes_slots := hpushes

private theorem idle_shape {s : LifeState} (happ : s.app = .idle) (hinit : s.hasInit = false)
    (hbuf : s.buf = false) : s.Shape := by
  rw [Shape, happ, hinit]
  exact hbuf

/-- No network thread is left where the application is past the release of `g_cbs`, or starts
the client. -/
private theorem gone (hinv : s.LifeInv) (h0 : s.app ≠ .idle) (h1 : s.app ≠ .exitFlag)
    (h2 : s.app ≠ .exitCbs) (i : Nat) : s.threads i = .gone := by
  by_contra hi
  rcases (hinv.alive i hi).2 with h | h | h
  · exact h0 h
  · exact h1 h
  · exact h2 h

/-- A step of the call that runs, in order, keeps the invariant. -/
private theorem next {ok : Bool} (hinv : s.LifeInv) (hok : Orderly s (.next ok))
    (h : appNext ok s = some s') : s'.LifeInv := by
  have hshape := hinv.shape
  have hslots := hinv.slots_eq
  have hgone := hinv.gone
  have hpushes := hinv.pushes_slots
  unfold appNext at h
  unfold Shape at hshape
  split at h
  · cases h
  · next happ =>
    rw [happ] at hshape hslots hgone
    have hnone := hgone (by decide) (by decide) (by decide)
    split at h
    · cases h
      exact noThreads ⟨hshape.1, hshape.2.1, hshape.2.2, rfl⟩ hnone hslots hpushes
    · cases h
      exact noThreads (idle_shape rfl hshape.1 hshape.2.1) hnone hslots hpushes
  · next happ =>
    rw [happ] at hshape hslots hgone
    cases h
    exact noThreads hshape (hgone (by decide) (by decide) (by decide)) hslots hpushes
  · next happ =>
    rw [happ] at hshape hslots hgone
    have hnone := hgone (by decide) (by decide) (by decide)
    have hempty : s.slots = false := (show s.slots = s.buf from hslots).trans hshape.2.1
    split at h
    · cases h
      exact noThreads ⟨hshape.1, rfl, hshape.2.2⟩ hnone hempty hpushes
    · cases h
      exact noThreads (idle_shape rfl hshape.1 hshape.2.1) hnone hslots hpushes
  · next happ =>
    rw [happ] at hshape hslots hgone
    have hnone := hgone (by decide) (by decide) (by decide)
    have hempty : s.slots = false := hslots
    split at h
    · cases h
      exact noThreads hshape hnone hshape.2.1.symm fun _ ↦ rfl
    · cases h
      exact noThreads (idle_shape rfl hshape.1 rfl) hnone hempty hpushes
  · next happ =>
    rw [happ] at hshape hslots hgone
    have hnone := hgone (by decide) (by decide) (by decide)
    split at h
    · -- The thread that starts is the only one.
      cases h
      have honly (j : Nat) (hj : (s.setThread s.made .test).threads j ≠ .gone) : j = s.made := by
        by_contra hne
        rw [threads_setThread_ne s .test hne] at hj
        exact hj (hnone j)
      refine ⟨⟨hshape.2.2.2, hshape.2.1, hshape.2.2.1⟩, hslots, fun _ _ ↦ ⟨rfl, .inl rfl⟩,
        fun j k hj hk ↦ (honly j hj).trans (honly k hk).symm, fun _ _ ↦ rfl, hpushes⟩
    · cases h
      exact noThreads hshape.1 hnone hslots hpushes
  · next happ =>
    rw [happ] at hshape hgone
    cases h
    have hzero := hok.2 (.inr happ)
    refine noThreads (idle_shape rfl hshape rfl) (hgone (by decide) (by decide) (by decide)) rfl ?_
    intro hpos
    exact absurd hzero (Nat.ne_of_gt hpos)
  · next happ =>
    cases h
    rw [happ] at hshape hslots
    refine ⟨hshape, hslots, fun i hi ↦ ⟨(hinv.alive i hi).1, .inr (.inr rfl)⟩, hinv.unique,
      fun i hi ↦ ?_, hpushes⟩
    cases happ.symm.trans (hinv.handling i hi)
  · next happ =>
    rw [happ] at hslots
    cases h
    exact noThreads trivial (hok.1 happ) hslots hpushes
  · next happ =>
    rw [happ] at hgone
    cases h
    have hzero := hok.2 (.inl happ)
    refine noThreads (s := { s with buf := false, slots := false, app := .exitRest }) rfl
      (hgone (by decide) (by decide) (by decide)) rfl ?_
    intro hpos
    exact absurd hzero (Nat.ne_of_gt hpos)
  · next happ =>
    rw [happ] at hshape hslots hgone
    cases h
    exact noThreads (idle_shape rfl rfl hshape) (hgone (by decide) (by decide) (by decide)) hslots
      hpushes

/-- A step in order keeps the invariant. -/
theorem step (hinv : s.LifeInv) (hok : Orderly s op) (h : lifeStep s op = some (use, s')) :
    s'.LifeInv := by
  have hshape := hinv.shape
  have hslots := hinv.slots_eq
  unfold Shape at hshape
  cases op with
  | init poolOk =>
    simp only [lifeStep] at h
    split at h
    · cases h
    · next happ =>
      rw [not_not.mp happ] at hshape hslots
      split at h
      · cases h
        exact hinv
      · next hno =>
        have hinit : s.hasInit = false := Bool.eq_false_iff.mpr hno
        rw [hinit] at hshape
        have hnone (i : Nat) : s.threads i = .gone := by
          by_contra hi
          exact hno (hinv.alive i hi).1
        split at h
        · cases h
          exact noThreads ⟨hinit, hshape, rfl⟩ hnone hslots hinv.pushes_slots
        · cases h
          refine noThreads (s := { s with pool := .none }) ?_ hnone hinv.slots_eq hinv.pushes_slots
          rw [Shape, not_not.mp happ, hinit]
          exact hshape
  | exit =>
    simp only [lifeStep] at h
    split at h
    · cases h
    · next happ =>
      cases h
      rw [not_not.mp happ] at hshape hslots
      refine ⟨fun hinit ↦ ?_, hslots, fun i hi ↦ ⟨(hinv.alive i hi).1, .inr (.inl rfl)⟩,
        hinv.unique, fun i hi ↦ absurd hi (hok i), hinv.pushes_slots⟩
      rw [show s.hasInit = true from hinit] at hshape
      refine ⟨hshape.1, hshape.2.1, ?_⟩
      dsimp only
      rw [hshape.2.2]
      rfl
  | next ok =>
    obtain ⟨_, hnext, he⟩ := Option.map_eq_some_iff.mp h
    cases he
    exact hinv.next hok hnext
  | testBuf =>
    cases h
    by_cases hbuf : s.buf = true
    · rw [if_pos hbuf]
      rw [if_neg (show s.app ≠ .initSlots from hok)] at hslots
      exact ⟨hinv.shape, hinv.slots_eq, hinv.alive, hinv.unique, hinv.handling,
        fun _ ↦ hslots.trans hbuf⟩
    · rw [if_neg hbuf]
      exact hinv
  | access =>
    simp only [lifeStep] at h
    split at h
    · next hpos =>
      cases h
      exact ⟨hinv.shape, hinv.slots_eq, hinv.alive, hinv.unique, hinv.handling,
        fun _ ↦ hinv.pushes_slots hpos⟩
    · cases h
  | thread i threadOp =>
    obtain ⟨⟨_, t⟩, hstep, he⟩ := Option.map_eq_some_iff.mp h
    cases he
    obtain ⟨halive, hhandle, -⟩ := threadStep_cases hstep
    refine hinv.setThread halive fun ht ↦ ?_
    rcases hhandle ht with hold | rfl
    · exact hinv.handling i hold
    · obtain ⟨h1, h2⟩ := hok
      rcases (hinv.alive i halive).2 with h | h | h
      · exact h
      · exact absurd h h1
      · exact absurd h h2

end LifeState.LifeInv

/-! ### What happens out of order -/

/-- From here on some steps use what is not there. -/
def LifeState.Misusable (s : LifeState) : Prop :=
  ∃ tr t, Run (StepRel.ofFn lifeStep) s tr t ∧ ¬ UsesLive tr

namespace LifeState.Misusable

theorem now (op : LifeOp) (r : Resource) (h : lifeStep s op = some (some (r, false), s')) :
    s.Misusable :=
  ⟨[(op, some (r, false))], s', Run.single (R := StepRel.ofFn lifeStep) h,
    fun hlive ↦ hlive _ (List.mem_singleton_self _) r rfl⟩

theorem later (h : lifeStep s op = some (use, s')) (hm : s'.Misusable) : s.Misusable := by
  obtain ⟨tr, t, hrun, hbad⟩ := hm
  refine ⟨[(op, use)] ++ tr, t, (Run.single (R := StepRel.ofFn lifeStep) h).append hrun, ?_⟩
  intro hlive
  exact hbad fun e he ↦ hlive e (List.mem_append_right _ he)

private theorem lifeStep_thread (threadOp : ThreadOp) (hi : s.threads i = t)
    (h : threadStep s t threadOp = some (use, t')) :
    lifeStep s (.thread i threadOp) = some (use, s.setThread i t') := by
  rw [lifeStep, hi, h]
  rfl

private theorem of_adding {leaving : Bool} (hpool : s.pool = .closed)
    (hi : s.threads i = .running leaving .adding) : s.Misusable := by
  apply now (.thread i (.add true)) .pool
  apply lifeStep_thread (.add true) hi
  rw [threadStep, hpool]
  rfl

private theorem of_receiving {leaving : Bool} (hpool : s.pool = .closed)
    (hi : s.threads i = .running leaving (.calling .receive)) : s.Misusable :=
  later (lifeStep_thread .call hi rfl)
    (of_adding (s := s.setThread i _) hpool (threads_setThread_self s i _))

private theorem of_handling (hpool : s.pool = .closed) (hi : (s.threads i).Handling) :
    s.Misusable := by
  obtain ⟨leaving, hcall | hadd⟩ := hi
  · exact of_receiving hpool hcall
  · exact of_adding hpool hadd

private theorem of_clearing {leaving : Bool} (happ : s.app = .exitBuf)
    (hi : s.threads i = .running leaving .clearing) : s.Misusable := by
  have hnext : lifeStep s (.next true) = some (none,
      { s with buf := false, slots := false, app := .exitRest }) := by
    rw [lifeStep, appNext, happ]
    rfl
  apply later hnext
  exact now (.thread i .clear) .slots
    (lifeStep_thread (s := { s with buf := false, slots := false, app := .exitRest }) .clear hi rfl)

private theorem of_outside {leaving : Bool} (happ : s.app = .exitBuf) (hcbs : s.cbs = false)
    (hi : s.threads i = .running leaving .outside) : s.Misusable := by
  have hclosed : threadStep s (.running leaving .outside) (.callback .closed) =
      some (none, .running leaving .clearing) := by
    simp [threadStep, WsReason.ends, WsReason.after, hcbs]
  exact later (lifeStep_thread (.callback .closed) hi hclosed)
    (of_clearing (s := s.setThread i _) happ (threads_setThread_self s i _))

/-- A network thread that is left when `g_cbs` is freed can misuse something. -/
private theorem of_left (happ : s.app = .exitBuf) (hcbs : s.cbs = false) (hpool : s.pool = .closed)
    (hi : s.threads i ≠ .gone) : s.Misusable := by
  cases ht : s.threads i with
  | test =>
    exact later (lifeStep_thread .test ht rfl)
      (of_outside (s := s.setThread i _) happ hcbs (threads_setThread_self s i _))
  | running leaving point =>
    cases point with
    | outside => exact of_outside happ hcbs ht
    | calling reason =>
      apply now (.thread i .call) .callbacks
      apply lifeStep_thread .call ht
      rw [threadStep, hcbs]
    | adding => exact of_adding hpool ht
    | clearing => exact of_clearing happ ht
  | gone => exact absurd ht hi

/-- A frame that is received while `g_cbs` is set is passed on. -/
private theorem receive_calls (hcbs : s.cbs = true)
    (h : threadStep s t (.callback .receive) = some (use, t')) :
    ∃ leaving, t' = .running leaving (.calling .receive) := by
  cases t with
  | test => cases h
  | gone => cases h
  | running leaving point =>
    cases point with
    | outside =>
      rw [threadStep, hcbs] at h
      split at h
      · cases h
      · cases h
        exact ⟨leaving, rfl⟩
    | calling reason => cases leaving <;> cases h
    | adding => cases leaving <;> cases h
    | clearing => cases leaving <;> cases h

/-- A push that passed its test finds no slots. -/
private theorem of_push (hslots : s.slots = false) (hpos : 0 < s.pushes) : s.Misusable := by
  have haccess : lifeStep s .access =
      some (some (.slots, false), { s with pushes := s.pushes - 1 }) := by
    rw [lifeStep, if_pos hpos, hslots]
  exact now .access .slots haccess

/-- A step out of order can be followed by a misuse. -/
theorem of_disorder (hinv : s.LifeInv) (hbad : ¬ Orderly s op)
    (h : lifeStep s op = some (use, s')) : s'.Misusable := by
  cases op with
  | init poolOk => exact absurd trivial hbad
  | testBuf =>
    have happ : s.app = .initSlots := not_not.mp hbad
    have hshape := hinv.shape
    have hslots := hinv.slots_eq
    rw [LifeState.Shape, happ] at hshape
    rw [if_pos happ] at hslots
    cases h
    rw [if_pos hshape.2.1]
    exact of_push hslots (Nat.succ_pos _)
  | access => exact absurd trivial hbad
  | exit =>
    simp only [Orderly, not_forall, not_not] at hbad
    obtain ⟨i, hi⟩ := hbad
    simp only [lifeStep] at h
    split at h
    · cases h
    · cases h
      refine of_handling (i := i) ?_ hi
      dsimp only
      rw [hinv.pool_live hi]
      rfl
  | next ok =>
    obtain ⟨_, hnext, he⟩ := Option.map_eq_some_iff.mp h
    cases he
    unfold appNext at hnext
    by_cases hcbs : s.app = .exitCbs → ∀ i, s.threads i = .gone
    · have hpushes : ¬ (s.app = .exitBuf ∨ s.app = .undo → s.pushes = 0) := fun h2 ↦ hbad ⟨hcbs, h2⟩
      rw [Classical.not_imp] at hpushes
      obtain ⟨happ | happ, hne⟩ := hpushes
      · rw [happ] at hnext
        cases hnext
        exact of_push rfl (Nat.pos_of_ne_zero hne)
      · rw [happ] at hnext
        cases hnext
        exact of_push rfl (Nat.pos_of_ne_zero hne)
    · rw [Classical.not_imp, not_forall] at hcbs
      obtain ⟨happ, i, hi⟩ := hcbs
      rw [happ] at hnext
      cases hnext
      exact of_left (i := i) rfl rfl (hinv.pool_closed hi (.inr happ)) hi
  | thread i threadOp =>
    obtain ⟨⟨_, t⟩, hstep, he⟩ := Option.map_eq_some_iff.mp h
    cases he
    obtain ⟨halive, -, -⟩ := threadStep_cases hstep
    have hreceive : threadOp = .callback .receive ∧ (s.app = .exitFlag ∨ s.app = .exitCbs) := by
      unfold Orderly at hbad
      split at hbad
      · next he => cases he
      · next he => cases he
      · next he =>
        cases he
        exact ⟨rfl, by rwa [not_and_or, not_not, not_not] at hbad⟩
      · next he => cases he
      · exact absurd trivial hbad
    obtain ⟨rfl, happ⟩ := hreceive
    obtain ⟨leaving, rfl⟩ := receive_calls (hinv.resources halive).1 hstep
    exact of_receiving (s := s.setThread i _) (hinv.pool_closed halive happ)
      (threads_setThread_self s i _)

end LifeState.Misusable

end Steps

/-- Along every run in which starting and stopping are in order, nothing is used that is not
there and at most one network thread serves; and a step out of order can be followed by a
misuse. -/
theorem teardown_exclusive {s : LifeState} {tr : LifeTrace}
    (hrun : Run (StepRel.guard Orderly (StepRel.ofFn lifeStep)) LifeState.start tr s) :
    UsesLive tr ∧ s.OneServing ∧
      ∀ op use s', lifeStep s op = some (use, s') → ¬ Orderly s op → s'.Misusable := by
  have hinv : s.LifeInv ∧ UsesLive tr := by
    induction hrun with
    | nil => exact ⟨LifeState.lifeInv_start, fun e he ↦ nomatch he⟩
    | @snoc tr s s' op use prior step ih =>
      obtain ⟨hinv, hlive⟩ := ih
      refine ⟨hinv.step step.1 step.2, fun e he r hu ↦ ?_⟩
      rcases List.mem_append.mp he with hold | hnew
      · exact hlive e hold r hu
      · obtain rfl := List.mem_singleton.mp hnew
        exact hinv.uses_live step.2 r hu
  have hserving (i : Nat) (hi : (s.threads i).Serving) : s.threads i ≠ .gone := by
    obtain ⟨point, hp⟩ := hi
    rw [hp]
    exact NetThread.noConfusion
  exact ⟨hinv.2, fun i j hi hj ↦ hinv.1.unique i j (hserving i hi) (hserving j hj),
    fun op use s' hstep hbad ↦ .of_disorder hinv.1 hbad hstep⟩

/-- A start, one callback for `CLIENT_WRITEABLE` and the beginning of a stop. -/
theorem teardown_exclusive_start :
    ∃ tr s, Run (StepRel.guard Orderly (StepRel.ofFn lifeStep)) LifeState.start tr s ∧
      (Resource.slots, true) ∈ tr.filterMap Prod.snd ∧ s.app = .exitFlag ∧
      UsesLive tr ∧ s.OneServing := by
  let steps := StepRel.guard Orderly (StepRel.ofFn lifeStep)
  have horderly {s : LifeState} (ok : Bool) (h : s.app ≠ .exitCbs ∧ s.app ≠ .exitBuf ∧ s.app ≠ .undo) :
      Orderly s (.next ok) :=
    ⟨fun he ↦ absurd he h.1, fun he ↦ he.elim (absurd · h.2.1) (absurd · h.2.2)⟩
  let s1 : LifeState := { LifeState.start with pool := .opened, app := .initCbs }
  let s2 : LifeState := { s1 with cbs := true, app := .initFlag }
  let s3 : LifeState := { s2 with forceExit := false, app := .initBuf }
  let s4 : LifeState := { s3 with buf := true, app := .initSlots }
  let s5 : LifeState := { s4 with slots := true, app := .initThread }
  let s6 : LifeState := { s5.setThread 0 .test with made := 1, hasInit := true, app := .idle }
  let s7 : LifeState := s6.setThread 0 (.running false .outside)
  let s8 : LifeState := s7.setThread 0 (.running false .outside)
  have h1 : steps LifeState.start (.init true) none s1 := ⟨trivial, rfl⟩
  have h2 : steps s1 (.next true) none s2 := ⟨horderly true (by decide), rfl⟩
  have h3 : steps s2 (.next true) none s3 := ⟨horderly true (by decide), rfl⟩
  have h4 : steps s3 (.next true) none s4 := ⟨horderly true (by decide), rfl⟩
  have h5 : steps s4 (.next true) none s5 := ⟨horderly true (by decide), rfl⟩
  have h6 : steps s5 (.next true) none s6 := ⟨horderly true (by decide), rfl⟩
  have h7 : steps s6 (.thread 0 .test) none s7 := ⟨trivial, rfl⟩
  have h8 : steps s7 (.thread 0 (.callback .writeable)) (some (.slots, true)) s8 := ⟨trivial, rfl⟩
  have h9 : steps s8 .exit none { s8 with pool := .closed, app := .exitFlag } := by
    refine ⟨fun i hi ↦ ?_, rfl⟩
    by_cases h0 : i = 0
    · rw [h0, LifeState.threads_setThread_self] at hi
      obtain ⟨_, h | h⟩ := hi <;> cases h
    · rw [LifeState.threads_setThread_ne s7 _ h0, LifeState.threads_setThread_ne s6 _ h0] at hi
      change ((s5.setThread 0 .test).threads i).Handling at hi
      rw [LifeState.threads_setThread_ne s5 _ h0] at hi
      obtain ⟨_, h | h⟩ := hi <;> cases h
  have hrun := ((((((((Run.nil.snoc h1).snoc h2).snoc h3).snoc h4).snoc h5).snoc h6).snoc h7).snoc
    h8).snoc h9
  have hexclusive := teardown_exclusive hrun
  exact ⟨_, _, hrun, by simp, rfl, hexclusive.1, hexclusive.2.1⟩

/-- A frame that is received after `leda_exit` destroyed the pool is added to it. -/
theorem frame_added_to_destroyed_pool :
    ∃ tr s, Run (StepRel.ofFn lifeStep) LifeState.start tr s ∧
      (Resource.pool, false) ∈ tr.filterMap Prod.snd ∧ ¬ UsesLive tr := by
  let started : LifeTrace := [(.init true, none), (.next true, none), (.next true, none),
    (.next true, none), (.next true, none), (.next true, none), (.thread 0 .test, none)]
  let stopped : LifeTrace := [(.exit, none), (.thread 0 (.callback .receive), none),
    (.thread 0 .call, some (.callbacks, true)), (.thread 0 (.add true), some (.pool, false))]
  obtain ⟨s, hexec⟩ : ∃ s, exec lifeStep LifeState.start ((started ++ stopped).map Prod.fst) =
      some (started ++ stopped, s) := ⟨_, rfl⟩
  have hused : ((.thread 0 (.add true), some (.pool, false)) : LifeOp × Use) ∈ started ++ stopped :=
    List.mem_append_right _ (by simp [stopped])
  refine ⟨_, s, Run.of_exec _ hexec, List.mem_filterMap.mpr ⟨_, hused, rfl⟩, fun hlive ↦ ?_⟩
  exact hlive _ hused .pool rfl

end LedaSdk.Leda
