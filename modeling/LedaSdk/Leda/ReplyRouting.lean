import LedaSdk.Leda.Correlation

/-!
# Which responses reach the report callback

The dispatcher takes a response for the answer to a report when its id is not pending.
That is right as long as no response to a synchronous call is processed after the call
has stopped waiting; `leda.h:135–143` promises report ids only.
-/

namespace LedaSdk.Leda
open LedaSdk.Base

/-- The id under which `leda_parse_receive_msg` passes on a response that echoes `id`: the
number's `valueint`, which stops at `INT_MAX`. -/
def wireId (id : UInt32) : Int32 :=
  if id.toNat ≤ 2147483647 then id.toInt32 else 2147483647

/-- A response with a payload, when `report_reply_cb` is registered, echoes an id within the
range of `int`: the id of a report, or of a synchronous call that is still pending. -/
def AnswersInTime (cbSet : Bool) (s : CallState) : CallOp → Prop
  | .respond msgId _ payloadStr => cbSet = true → payloadStr.isSome →
      ∃ id : UInt32, msgId = wireId id ∧ id.toNat ≤ 2147483647 ∧
        ((s.phase id).kind = some .report ∨ (s.phase id).pending)
  | _ => True

variable {cbSet : Bool} {s t : CallState} {a : CallOp} {o : CallOut} {tr : CallTrace}
  {id : UInt32}

private theorem CallPhase.kind_of_onRemove {p p' : CallPhase} (h : p.onRemove = some (o, p')) :
    p.kind = p'.kind := by
  rcases CallPhase.onRemove_cases h with ⟨_, rfl, -, rfl⟩ | ⟨_, _, hp, -, rfl⟩ | ⟨_, rfl, -, rfl⟩
  · rfl
  · rcases hp with ⟨rfl, -⟩ | ⟨rfl, -⟩ | ⟨rfl, -⟩ <;> rfl
  · rfl

/-- The kind of a call never changes. -/
theorem CallStep.kind_mono (h : CallStep cbSet s a o t) {k : CallKind}
    (hk : (s.phase id).kind = some k) : (t.phase id).kind = some k := by
  by_cases hi : id = a.actor
  · subst hi
    cases h with
    | insertFailed hp _ | inserted hp | reportFailed hp | reported hp =>
      rw [CallOp.actor, hp] at hk
      cases hk
    | addMsg hp | clock hp =>
      rw [CallOp.actor, hp] at hk
      rw [CallOp.actor, CallState.phase_setPhase_self, ← hk]
      split <;> rfl
    | notLocated hp _ | located hp _ | wake hp _ _ | timeout hp _ _ | readCode hp _ =>
      rw [CallOp.actor, hp] at hk
      rw [CallOp.actor, CallState.phase_setPhase_self, ← hk]
      rfl
    | @remove _ id o p hp =>
      rw [CallOp.actor] at hk
      rw [CallOp.actor, CallState.phase_setPhase_self, ← hk, CallPhase.kind_of_onRemove hp]
    | ignored | unknown _ | answered _ => exact hk
  · rw [(h.frame hi).1]
    exact hk

/-- Calls of one kind begin with the steps of that kind. -/
theorem CallStep.kind_of_begin (h : CallStep cbSet s a o t) :
    (∀ m k, a = .insert id m k → (t.phase id).kind = some .sync) ∧
      (∀ ret, a = .report id ret → (t.phase id).kind = some .report) := by
  constructor
  · rintro m k rfl
    cases h with
    | insertFailed _ _ | inserted _ => rw [CallState.phase_setPhase_self]; rfl
  · rintro ret rfl
    cases h with
    | reportFailed _ | reported _ => rw [CallState.phase_setPhase_self]; rfl

/-- Only the begin of a report makes an id one of a report. -/
theorem CallStep.begin_of_report (h : CallStep cbSet s a o t)
    (hs : (s.phase id).kind ≠ some .report) (ht : (t.phase id).kind = some .report) :
    ∃ ret, a = .report id ret := by
  have hi : id = a.actor := by
    by_contra hi
    rw [(h.frame hi).1] at ht
    exact hs ht
  subst hi
  cases hk : (s.phase a.actor).kind with
  | some k =>
    rw [h.kind_mono hk] at ht
    exact absurd (hk.trans ht) hs
  | none =>
    cases h with
    | insertFailed _ _ | inserted _ =>
      rw [CallOp.actor, CallState.phase_setPhase_self] at ht
      cases ht
    | reportFailed _ | reported _ => exact ⟨_, rfl⟩
    | addMsg hp | clock hp | notLocated hp _ | located hp _ | wake hp _ _ | timeout hp _ _
    | readCode hp _ =>
      rw [CallOp.actor, hp] at hk
      cases hk
    | @remove _ id o p hp =>
      rw [CallOp.actor, CallPhase.kind_of_onRemove hp] at hk
      rw [CallOp.actor, CallState.phase_setPhase_self, hk] at ht
      cases ht
    | ignored | unknown _ | answered _ => exact absurd ht hs

/-- What the history says about the kind of each id. -/
structure Kinds (tr : CallTrace) (s : CallState) : Prop where
  report : ∀ id, (s.phase id).kind = some .report → ∃ ret o, (CallOp.report id ret, o) ∈ tr
  sync : ∀ id m k o, (CallOp.insert id m k, o) ∈ tr → (s.phase id).kind = some .sync
  callback : ∀ e ∈ tr, ∀ id code, e.2.replyCb = some (id, code) →
    (s.phase id).kind = some .report

/-- A step after which a callback is invoked only with the id of a report keeps the kinds. -/
theorem Kinds.step (hK : Kinds tr s) (h : CallStep cbSet s a o t)
    (hcb : ∀ id code, o.replyCb = some (id, code) → (s.phase id).kind = some .report) :
    Kinds (tr ++ [(a, o)]) t where
  report id ht := by
    by_cases hs : (s.phase id).kind = some .report
    · obtain ⟨ret, o', hm⟩ := hK.report id hs
      exact ⟨ret, o', List.mem_append_left _ hm⟩
    · obtain ⟨ret, rfl⟩ := h.begin_of_report hs ht
      exact ⟨ret, o, by simp⟩
  sync id m k o' hm := by
    rcases List.mem_append.mp hm with hm | hm
    · exact h.kind_mono (hK.sync id m k o' hm)
    · obtain ⟨rfl, rfl⟩ := Prod.mk.inj (List.mem_singleton.mp hm)
      exact h.kind_of_begin.1 m k rfl
  callback e he id code hcode := by
    apply h.kind_mono
    rcases List.mem_append.mp he with he | he
    · exact hK.callback e he id code hcode
    · obtain rfl := List.mem_singleton.mp he
      exact hcb id code hcode

/-- A response in time that reaches the callback has the id of a report. -/
private theorem report_of_callback {code : Int32} (hI : Correlated tr s)
    (hok : AnswersInTime cbSet s a) (h : CallStep cbSet s a o t) (hcb : o.replyCb = some (id, code)) :
    (s.phase id).kind = some .report := by
  cases h with
  | @unknown _ m c text hr =>
    have hset : cbSet = true := by
      by_contra hset
      rw [if_neg hset] at hcb
      cases hcb
    obtain ⟨i, rfl, hi, hkind⟩ := hok hset rfl
    have hm : (wireId i).toUInt32 = i := by rw [wireId, if_pos hi, UInt32.toUInt32_toInt32]
    rw [hm, if_pos hset] at hcb
    rw [hm] at hr
    have hid : i = id := (Prod.mk.inj (Option.some.inj hcb)).1
    rcases hkind with hkind | hpending
    · rw [← hid]
      exact hkind
    · -- A pending call has its entry.
      have hentry := hI.entry i
      rw [hr] at hentry
      exact absurd (hentry.isSome_iff.mpr hpending) (by simp)
  | @remove _ i o p hp =>
    rcases CallPhase.onRemove_cases hp with ⟨_, -, rfl, -⟩ | ⟨_, _, -, rfl, -⟩ | ⟨_, -, rfl, -⟩ <;>
      cases hcb
  | _ => cases hcb

/-- When every response is in time, the report callback is invoked only with ids of
reports, and with no id of a synchronous call. -/
theorem reply_routing
    (hrun : Run (StepRel.guard (AnswersInTime cbSet) (StepRel.ofFn (callStep cbSet)))
      CallState.init tr s)
    (e : CallOp × CallOut) (he : e ∈ tr) (code : Int32) (hcb : e.2.replyCb = some (id, code)) :
    (∃ ret o, (CallOp.report id ret, o) ∈ tr) ∧
      ¬ ∃ m k o, (CallOp.insert id m k, o) ∈ tr := by
  have hK : Kinds tr s := by
    apply hrun.history_invariant
    · exact ⟨fun _ h ↦ (nomatch h), fun _ _ _ _ h ↦ (nomatch h), fun _ h ↦ (nomatch h)⟩
    · rintro tr s a o t hprior hK ⟨hok, hstep⟩
      have hI := correlated_of_run (hprior.mono fun _ _ _ _ h ↦ h.2)
      exact hK.step (.of_callStep hstep) fun id code h ↦
        report_of_callback hI hok (.of_callStep hstep) h
  have hkind := hK.callback e he id code hcb
  refine ⟨hK.report id hkind, ?_⟩
  rintro ⟨m, k, o, hm⟩
  rw [hK.sync id m k o hm] at hkind
  cases hkind

/-- A report that is answered gets its own id back, also after a response without a payload to
a call that is not pending. -/
theorem reply_routing_report :
    ∃ tr s, Run (StepRel.guard (AnswersInTime true) (StepRel.ofFn (callStep true)))
        CallState.init tr s ∧
      (.respond 7 0 none, {}) ∈ tr ∧
      (.respond 5 0 (some []), { replyCb := some (5, 0) }) ∈ tr ∧
      ∃ ret o, (CallOp.report 5 ret, o) ∈ tr := by
  let s1 := CallState.init.setPhase 5 (.reported leSuccess)
  let late : CallOp := .respond 7 0 none
  let answer : CallOp := .respond 5 0 (some [])
  have hsent : Run (StepRel.guard (AnswersInTime true) (StepRel.ofFn (callStep true)))
      CallState.init ([] ++ [(.report 5 leSuccess, { ret := some leSuccess })]) s1 :=
    .snoc .nil ⟨trivial, rfl⟩
  have hlate : AnswersInTime true s1 late := fun _ h ↦ nomatch h
  have hok : AnswersInTime true s1 answer := fun _ _ ↦ ⟨5, rfl, by decide, .inl rfl⟩
  have hstep : callStep true s1 answer = some ({ replyCb := some (5, 0) }, s1) := rfl
  have hignored : callStep true s1 late = some ({}, s1) := rfl
  have hrun := (hsent.snoc ⟨hlate, hignored⟩).snoc ⟨hok, hstep⟩
  exact ⟨_, _, hrun, by simp [late, answer], by simp [answer],
    (reply_routing hrun (answer, { replyCb := some (5, 0) }) (by simp) 0 rfl).1⟩

/-- A response to a synchronous call that has timed out is passed to the report callback
with the id of that call. -/
theorem late_response_callback :
    ∃ tr s, Run (StepRel.ofFn (callStep true)) CallState.init tr s ∧
      (.remove 7, resultOut leErrorTimeout 0) ∈ tr ∧
      (.respond 7 42 (some [123, 125]), { replyCb := some (7, 42) }) ∈ tr ∧
      (.insert 7 true true, {}) ∈ tr := by
  let ops : List CallOp := [.insert 7 true true, .addMsg 7 leSuccess, .locate 7, .clock 7 true,
    .timeout 7, .remove 7, .respond 7 42 (some [123, 125])]
  let outs : List CallOut := [{}, {}, {}, {}, {}, resultOut leErrorTimeout 0,
    { replyCb := some (7, 42) }]
  obtain ⟨s, hexec⟩ : ∃ s, exec (callStep true) CallState.init ops =
      some (ops.zip outs, s) := ⟨_, rfl⟩
  exact ⟨_, s, Run.of_exec _ hexec, by decide, by decide, by decide⟩

end LedaSdk.Leda
