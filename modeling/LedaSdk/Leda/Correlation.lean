import LedaSdk.Leda.CallSystem

/-!
# Reply correlation

What every run of the call system keeps: the pending list holds one entry for each call
between its insertion and its removal, and an entry's semaphore and code are determined by
the responses with its id since the insertion.
-/

namespace LedaSdk.Leda
open LedaSdk.Base

/-- A history of steps with what they showed. -/
abbrev CallTrace := List (CallOp × CallOut)

/-- Codes of the responses to `id` since its insertion, after one more step. A response
without a printed payload is not one. -/
def recordCode (id : UInt32) (codes : List Int32) : CallOp × CallOut → List Int32
  | (.insert i _ _, o) => if i = id ∧ o.ret = none then [] else codes
  | (.respond m c (some _), _) => if m = id.toInt32 then codes ++ [c] else codes
  | _ => codes

/-- Codes of the responses to `id` since its insertion, oldest first. -/
def codesSince (id : UInt32) (tr : CallTrace) : List Int32 := tr.foldl (recordCode id) []

theorem codesSince_concat (id : UInt32) (tr : CallTrace) (e : CallOp × CallOut) :
    codesSince id (tr ++ [e]) = recordCode id (codesSince id tr) e := by
  rw [codesSince, List.foldl_concat]
  rfl

/-- How often the call at this point has taken its entry's semaphore; none without entry. -/
def CallPhase.taken : CallPhase → Option Nat
  | .idle | .done _ | .reportFailed _ | .reported _ => none
  | .woken | .replied _ => some 1
  | _ => some 0

/-- The call is between its insertion and its return. -/
def CallPhase.pending (p : CallPhase) : Prop := p.taken ≠ none

/-- An entry exactly if the call has one, with the values that the responses gave it. -/
inductive EntryMatches : Option Nat → Option WsMsgReply → List Int32 → Prop
  | absent {codes : List Int32} : EntryMatches none none codes
  | present {k : Nat} {r : WsMsgReply} {codes : List Int32}
      (hsem : r.sem + k = codes.length) (hcode : r.code = codes.getLast?.getD leErrorUnknown) :
      EntryMatches (some k) (some r) codes

/-- The wait for `id` timed out when there had been no response since the insertion. -/
def Unanswered (id : UInt32) (tr : CallTrace) : Prop :=
  ∃ before o after, tr = before ++ (.timeout id, o) :: after ∧ codesSince id before = []

/-- What relates the history of a run to its state. -/
structure Correlated (tr : CallTrace) (s : CallState) : Prop where
  nodup : (s.replies.map WsMsgReply.msgId).Nodup
  entry : ∀ id, EntryMatches (s.phase id).taken (s.entry id) (codesSince id tr)
  replied : ∀ id c, s.phase id = .replied c → c ∈ codesSince id tr
  timedOut : ∀ id, s.phase id = .timedOut → Unanswered id tr

variable {cbSet : Bool} {s t : CallState} {a : CallOp} {o : CallOut} {tr : CallTrace}
  {id : UInt32}

theorem Unanswered.concat (h : Unanswered id tr) (e : CallOp × CallOut) :
    Unanswered id (tr ++ [e]) := by
  obtain ⟨before, o, after, rfl, hb⟩ := h
  exact ⟨before, o, after ++ [e], by simp, hb⟩

@[simp] theorem CallState.entry_setPhase (s : CallState) (id i : UInt32) (p : CallPhase) :
    (s.setPhase id p).entry i = s.entry i := rfl

@[simp] theorem CallState.replies_setPhase (s : CallState) (id : UInt32) (p : CallPhase) :
    (s.setPhase id p).replies = s.replies := rfl

theorem CallState.phase_setPhase_self (s : CallState) (id : UInt32) (p : CallPhase) :
    (s.setPhase id p).phase id = p := if_pos rfl

theorem CallState.phase_setPhase_ne (s : CallState) {id i : UInt32} (p : CallPhase)
    (h : i ≠ id) : (s.setPhase id p).phase i = s.phase i := if_neg h

/-- A step leaves the entries and program points of all other calls as they are. -/
theorem CallStep.frame (h : CallStep cbSet s a o t) {i : UInt32} (hi : i ≠ a.actor) :
    t.phase i = s.phase i ∧ t.entry i = s.entry i := by
  have hk : i.toInt32 ≠ a.actor.toInt32 := fun he ↦ hi (toInt32_inj.mp he)
  cases h with
  | insertFailed hp hret => exact ⟨s.phase_setPhase_ne _ hi, rfl⟩
  | inserted hp =>
    refine ⟨CallState.phase_setPhase_ne _ _ hi, ?_⟩
    rw [CallState.entry_setPhase, CallState.entry, wsGetReplyByMsgId, KeyedList.find_cons]
    exact if_neg (Ne.symm hk)
  | addMsg hp => exact ⟨s.phase_setPhase_ne _ hi, rfl⟩
  | notLocated hp hr => exact ⟨s.phase_setPhase_ne _ hi, rfl⟩
  | located hp hr => exact ⟨s.phase_setPhase_ne _ hi, rfl⟩
  | clock hp => exact ⟨s.phase_setPhase_ne _ hi, rfl⟩
  | wake hp hr hsem =>
    exact ⟨CallState.phase_setPhase_ne _ _ hi, KeyedList.find_modify_ne (fun _ ↦ rfl) hk⟩
  | timeout hp hr hsem => exact ⟨s.phase_setPhase_ne _ hi, rfl⟩
  | readCode hp hr => exact ⟨s.phase_setPhase_ne _ hi, rfl⟩
  | remove hp =>
    exact ⟨CallState.phase_setPhase_ne _ _ hi, KeyedList.find_erase_ne hk⟩
  | reportFailed hp => exact ⟨s.phase_setPhase_ne _ hi, rfl⟩
  | reported hp => exact ⟨s.phase_setPhase_ne _ hi, rfl⟩
  | ignored => exact ⟨rfl, rfl⟩
  | unknown hr => exact ⟨rfl, rfl⟩
  | answered hr =>
    refine ⟨rfl, KeyedList.find_modify_ne (fun _ ↦ rfl) ?_⟩
    simpa [CallOp.actor] using hk

/-- A step records a response only for the call it names. -/
theorem recordCode_of_ne {codes : List Int32} (hi : id ≠ a.actor) :
    recordCode id codes (a, o) = codes := by
  cases a with
  | insert i m k => exact if_neg fun h ↦ hi h.1.symm
  | respond m c payload =>
    cases payload with
    | none => rfl
    | some text =>
      refine if_neg fun h ↦ hi ?_
      rw [CallOp.actor, h, UInt32.toUInt32_toInt32]
  | _ => rfl

/-- A step keeps the relation if it keeps it for the call it names. -/
theorem Correlated.of_actor (hI : Correlated tr s) (h : CallStep cbSet s a o t)
    (hnodup : (t.replies.map WsMsgReply.msgId).Nodup)
    (hentry : EntryMatches (t.phase a.actor).taken (t.entry a.actor)
      (recordCode a.actor (codesSince a.actor tr) (a, o)))
    (hreplied : ∀ c, t.phase a.actor = .replied c →
      c ∈ recordCode a.actor (codesSince a.actor tr) (a, o))
    (htimedOut : t.phase a.actor = .timedOut → Unanswered a.actor (tr ++ [(a, o)])) :
    Correlated (tr ++ [(a, o)]) t where
  nodup := hnodup
  entry i := by
    rw [codesSince_concat]
    by_cases hi : i = a.actor
    · rw [hi]
      exact hentry
    · rw [(h.frame hi).1, (h.frame hi).2, recordCode_of_ne hi]
      exact hI.entry i
  replied i c hc := by
    rw [codesSince_concat]
    by_cases hi : i = a.actor
    · rw [hi] at hc ⊢
      exact hreplied c hc
    · rw [recordCode_of_ne hi]
      exact hI.replied i c ((h.frame hi).1 ▸ hc)
  timedOut i hi' := by
    by_cases hi : i = a.actor
    · rw [hi] at hi' ⊢
      exact htimedOut hi'
    · exact (hI.timedOut i ((h.frame hi).1 ▸ hi')).concat _

/-- A step that only moves its call between program points with the same hold on the
entry, neither of them a reply nor a timeout. -/
private theorem Correlated.move (hI : Correlated tr s) {p : CallPhase}
    (h : CallStep cbSet s a o (s.setPhase a.actor p))
    (hrec : ∀ codes, recordCode a.actor codes (a, o) = codes)
    (htaken : p.taken = (s.phase a.actor).taken)
    (hreplied : ∀ c, p = .replied c → c ∈ codesSince a.actor tr)
    (htimedOut : p = .timedOut → Unanswered a.actor (tr ++ [(a, o)])) :
    Correlated (tr ++ [(a, o)]) (s.setPhase a.actor p) := by
  have hphase := s.phase_setPhase_self a.actor p
  apply hI.of_actor h hI.nodup
  · rw [hphase, hrec, htaken]
    exact hI.entry _
  · intro c hc
    rw [hrec]
    exact hreplied c (hphase.symm.trans hc)
  · intro ht
    exact htimedOut (hphase.symm.trans ht)

/-- The point is neither a reply nor a timeout. -/
private def CallPhase.Plain (p : CallPhase) : Prop := (∀ c, p ≠ .replied c) ∧ p ≠ .timedOut

/-- A call without an entry is at one. -/
private theorem CallPhase.plain_of_taken {p : CallPhase} (h : p.taken = none) : p.Plain := by
  constructor
  · rintro c rfl
    cases h
  · rintro rfl
    cases h

/-- At a plain point only the entry counts. -/
private theorem Correlated.of_plain (hI : Correlated tr s) (h : CallStep cbSet s a o t)
    (hnodup : (t.replies.map WsMsgReply.msgId).Nodup) (hplain : (t.phase a.actor).Plain)
    (hentry : EntryMatches (t.phase a.actor).taken (t.entry a.actor)
      (recordCode a.actor (codesSince a.actor tr) (a, o))) : Correlated (tr ++ [(a, o)]) t :=
  hI.of_actor h hnodup hentry (fun c hc ↦ absurd hc (hplain.1 c)) fun ht ↦ absurd ht hplain.2

private theorem Correlated.move_plain (hI : Correlated tr s) {p : CallPhase}
    (h : CallStep cbSet s a o (s.setPhase a.actor p))
    (hrec : ∀ codes, recordCode a.actor codes (a, o) = codes)
    (htaken : p.taken = (s.phase a.actor).taken) (hplain : p.Plain) :
    Correlated (tr ++ [(a, o)]) (s.setPhase a.actor p) :=
  hI.move h hrec htaken (fun c hc ↦ absurd hc (hplain.1 c)) fun ht ↦ absurd ht hplain.2

/-- A call that has not begun has no entry. -/
private theorem Correlated.fresh (hI : Correlated tr s) (hp : s.phase id = .idle) :
    id.toInt32 ∉ s.replies.map WsMsgReply.msgId := by
  have hentry := hI.entry id
  rw [hp] at hentry
  generalize hr : s.entry id = r at hentry
  cases hentry with
  | absent => exact KeyedList.find_eq_none_iff.mp hr

/-- Taking the semaphore is counted. -/
private theorem EntryMatches.semTake {r : WsMsgReply} {codes : List Int32}
    (h : EntryMatches (some 0) (some r) codes) (hsem : r.sem ≠ 0) :
    EntryMatches (some 1) (some { r with sem := r.sem - 1 }) codes := by
  cases h with
  | present hcount hcode =>
    refine .present ?_ hcode
    change r.sem - 1 + 1 = _
    rw [Nat.sub_add_cancel (Nat.pos_of_ne_zero hsem)]
    exact hcount

/-- The semaphore counts the responses, so at zero there was none. -/
private theorem Correlated.unanswered {r : WsMsgReply} (hI : Correlated tr s)
    (hp : s.phase id = .waiting) (hr : s.entry id = some r) (hsem : r.sem = 0) :
    codesSince id tr = [] := by
  have hentry := hI.entry id
  rw [hp, hr] at hentry
  cases hentry with
  | present hcount hcode =>
    apply List.eq_nil_of_length_eq_zero
    omega

/-- The semaphore has been taken once, so there was a response, and the last one set the code. -/
private theorem Correlated.code_mem {r : WsMsgReply} (hI : Correlated tr s)
    (hp : s.phase id = .woken) (hr : s.entry id = some r) : r.code ∈ codesSince id tr := by
  have hentry := hI.entry id
  rw [hp, hr] at hentry
  cases hentry with
  | present hcount hcode =>
    have hne : codesSince id tr ≠ [] := List.ne_nil_of_length_pos (by omega)
    rw [hcode, List.getLast?_eq_getLast_of_ne_nil hne]
    exact List.getLast_mem hne

private theorem CallPhase.taken_of_onRemove {p p' : CallPhase} (h : p.onRemove = some (o, p')) :
    p'.taken = none := by
  rcases CallPhase.onRemove_cases h with ⟨ret, -, -, rfl⟩ | ⟨ret, code, -, -, rfl⟩ |
    ⟨ret, -, -, rfl⟩ <;> rfl

/-- A response is recorded in the entry. -/
private theorem EntryMatches.setResult {k : Option Nat} {r : WsMsgReply} {codes : List Int32}
    (h : EntryMatches k (some r) codes) (c : Int32) (text : Option (List UInt8)) :
    EntryMatches k (some (r.setResult c text)) (codes ++ [c]) := by
  cases h with
  | present hcount hcode =>
    refine .present ?_ ?_
    · change r.sem + 1 + _ = _
      rw [List.length_append, List.length_singleton, ← hcount, Nat.add_right_comm]
    · rw [List.getLast?_concat]
      rfl

/-- Without an entry the call holds none. -/
private theorem Correlated.taken_eq_none (hI : Correlated tr s) (hr : s.entry id = none) :
    (s.phase id).taken = none := by
  have hentry := hI.entry id
  rw [hr] at hentry
  generalize (s.phase id).taken = k at hentry
  cases hentry with
  | absent => rfl

/-- Every step keeps the relation between history and state. -/
theorem Correlated.step (hI : Correlated tr s) (h : CallStep cbSet s a o t) :
    Correlated (tr ++ [(a, o)]) t := by
  have hstep := h
  cases h with
  | insertFailed hp hret =>
    apply hI.move_plain hstep
    · exact fun codes ↦ if_neg fun hr ↦ nomatch hr.2
    · rw [CallOp.actor, hp]
      rfl
    · exact CallPhase.plain_of_taken rfl
  | @inserted _ id hp =>
    apply hI.of_plain hstep
    · exact List.nodup_cons.mpr ⟨hI.fresh hp, hI.nodup⟩
    · rw [CallOp.actor, CallState.phase_setPhase_self]
      exact ⟨fun _ h ↦ (nomatch h), fun h ↦ nomatch h⟩
    · rw [CallOp.actor, CallState.phase_setPhase_self, CallState.entry_setPhase,
        CallState.entry, wsGetReplyByMsgId, KeyedList.find_cons, if_pos rfl, recordCode,
        if_pos ⟨rfl, rfl⟩]
      exact .present rfl rfl
  | addMsg hp =>
    apply hI.move_plain hstep
    · exact fun codes ↦ rfl
    · rw [CallOp.actor, hp]
      split <;> rfl
    · split <;> exact ⟨fun _ h ↦ (nomatch h), fun h ↦ nomatch h⟩
  | @notLocated _ id hp hr =>
    -- A call that has inserted its entry finds it.
    have hnone := hI.taken_eq_none hr
    rw [hp] at hnone
    cases hnone
  | located hp hr =>
    apply hI.move_plain hstep
    · exact fun codes ↦ rfl
    · rw [CallOp.actor, hp]
      rfl
    · exact ⟨fun _ h ↦ (nomatch h), fun h ↦ nomatch h⟩
  | clock hp =>
    apply hI.move_plain hstep
    · exact fun codes ↦ rfl
    · rw [CallOp.actor, hp]
      split <;> rfl
    · split <;> exact ⟨fun _ h ↦ (nomatch h), fun h ↦ nomatch h⟩
  | @wake _ id r hp hr hsem =>
    have hentry := hI.entry id
    rw [hp, hr] at hentry
    apply hI.of_plain hstep
    · rw [CallState.replies_setPhase, map_msgId_semTake]
      exact hI.nodup
    · rw [CallOp.actor, CallState.phase_setPhase_self]
      exact ⟨fun _ h ↦ (nomatch h), fun h ↦ nomatch h⟩
    · rw [CallOp.actor, CallState.phase_setPhase_self, CallState.entry_setPhase,
        CallState.entry, wsGetReplyByMsgId_semTake]
      change EntryMatches _ ((s.entry id).map _) _
      rw [hr]
      exact hentry.semTake hsem
  | @timeout _ id r hp hr hsem =>
    apply hI.move hstep
    · exact fun codes ↦ rfl
    · rw [CallOp.actor, hp]
      rfl
    · exact fun c hc ↦ nomatch hc
    · exact fun _ ↦ ⟨tr, {}, [], rfl, hI.unanswered hp hr hsem⟩
  | @readCode _ id r hp hr =>
    apply hI.move hstep
    · exact fun codes ↦ rfl
    · rw [CallOp.actor, hp]
      rfl
    · intro c hc
      cases hc
      exact hI.code_mem hp hr
    · exact fun ht ↦ nomatch ht
  | @remove _ id o p hp =>
    have hnone := CallPhase.taken_of_onRemove hp
    apply hI.of_plain hstep
    · exact KeyedList.nodup_keys_erase hI.nodup
    · rw [CallOp.actor, CallState.phase_setPhase_self]
      exact CallPhase.plain_of_taken hnone
    · rw [CallOp.actor, CallState.phase_setPhase_self, CallState.entry_setPhase,
        CallState.entry, wsGetReplyByMsgId, wsRemoveReply, KeyedList.find_erase_self hI.nodup,
        hnone]
      exact .absent
  | reportFailed hp =>
    apply hI.move_plain hstep
    · exact fun codes ↦ rfl
    · rw [CallOp.actor, hp]
      rfl
    · exact CallPhase.plain_of_taken rfl
  | reported hp =>
    apply hI.move_plain hstep
    · exact fun codes ↦ rfl
    · rw [CallOp.actor, hp]
      rfl
    · exact CallPhase.plain_of_taken rfl
  | ignored =>
    apply hI.of_actor hstep hI.nodup
    · exact hI.entry _
    · exact hI.replied _
    · exact fun ht ↦ (hI.timedOut _ ht).concat _
  | @unknown _ m c text hr =>
    have hnone := hI.taken_eq_none hr
    apply hI.of_plain hstep hI.nodup
    · exact CallPhase.plain_of_taken hnone
    · rw [CallOp.actor, hr, hnone]
      exact .absent
  | @answered _ m c text r hr =>
    have hentry := hI.entry m.toUInt32
    rw [hr] at hentry
    have hrec (codes : List Int32) :
        recordCode m.toUInt32 codes (.respond m c (some text), {}) = codes ++ [c] :=
      if_pos (Int32.toInt32_toUInt32 m).symm
    apply hI.of_actor hstep
    · rw [map_msgId_modify_setResult]
      exact hI.nodup
    · rw [CallState.entry, Int32.toInt32_toUInt32] at hr
      rw [CallOp.actor, hrec, CallState.entry, Int32.toInt32_toUInt32,
        wsGetReplyByMsgId_modify_setResult, hr]
      exact hentry.setResult c (some text)
    · intro c' hc
      rw [CallOp.actor, hrec]
      exact List.mem_append_left _ (hI.replied _ _ hc)
    · exact fun ht ↦ (hI.timedOut _ ht).concat _

/-- Every run relates its history to its state. -/
theorem correlated_of_run (h : Run (StepRel.ofFn (callStep cbSet)) CallState.init tr s) :
    Correlated tr s := by
  apply h.history_invariant
  · exact ⟨List.nodup_nil, fun _ ↦ .absent, fun _ _ hc ↦ (nomatch hc), fun _ ht ↦ nomatch ht⟩
  · intro tr s a o t _ hI hstep
    exact hI.step (.of_callStep hstep)

/-- What a removal shows is determined by the call's program point. -/
private theorem CallPhase.onRemove_result {p p' : CallPhase} {ret code : Int32}
    (h : p.onRemove = some (o, p')) (hres : o.result = some (ret, code)) :
    (p = .clockFailed ∧ ret = leErrorUnknown) ∨ (p = .timedOut ∧ ret = leErrorTimeout) ∨
      (p = .replied code ∧ ret = leSuccess) := by
  rcases CallPhase.onRemove_cases h with ⟨_, -, rfl, -⟩ | ⟨_, _, hp, rfl, -⟩ | ⟨_, -, rfl, -⟩
  · cases hres
  · obtain ⟨rfl, rfl⟩ := Prod.mk.inj (Option.some.inj hres)
    exact hp
  · cases hres

/-- What a call returns from `_ws_get_reply_result`: the entry was not found, the clock
failed, the wait timed out, or there is a code. -/
private theorem CallStep.result_cases {code ret : Int32} (h : CallStep cbSet s a o t)
    (hres : o.result = some (ret, code)) :
    ret = leErrorInvaildParam ∨ ret = leErrorUnknown ∨
      (s.phase a.actor = .timedOut ∧ ret = leErrorTimeout) ∨
      (s.phase a.actor = .replied code ∧ ret = leSuccess) := by
  cases h with
  | notLocated hp hr =>
    obtain ⟨rfl, -⟩ := Prod.mk.inj (Option.some.inj hres)
    exact .inl rfl
  | remove hp =>
    rcases CallPhase.onRemove_result hp hres with ⟨-, h⟩ | h | h
    · exact .inr (.inl h)
    · exact .inr (.inr (.inl h))
    · exact .inr (.inr (.inr h))
  | _ => cases hres

/-- A call that has returned holds no entry. -/
private theorem CallStep.taken_of_ret {ret : Int32} (h : CallStep cbSet s a o t)
    (hret : o.ret = some ret) : (t.phase a.actor).taken = none := by
  cases h with
  | insertFailed hp hne =>
    rw [CallOp.actor, CallState.phase_setPhase_self]
    rfl
  | notLocated hp hr =>
    rw [CallOp.actor, CallState.phase_setPhase_self]
    rfl
  | @remove _ id o p hp =>
    rw [CallOp.actor, CallState.phase_setPhase_self]
    exact CallPhase.taken_of_onRemove hp
  | reported hp =>
    rw [CallOp.actor, CallState.phase_setPhase_self]
    rfl
  | _ => cases hret

private theorem EntryMatches.eq_none {r : Option WsMsgReply} {codes : List Int32}
    (h : EntryMatches none r codes) : r = none := by
  cases h
  rfl

theorem EntryMatches.isSome_iff {k : Option Nat} {r : Option WsMsgReply}
    {codes : List Int32} (h : EntryMatches k r codes) : r.isSome ↔ k ≠ none := by
  cases h <;> simp

/-- In every run of calls with distinct ids, responses, send failures and timeouts:
the pending list holds exactly the calls between insertion and return, each once; a result
`LE_SUCCESS` carries the code of a response with the call's id since its insertion; a
timeout is reported only if there was none of these before the wait ended; and a call that
returns has no entry and leaves every other entry as it was. -/
theorem reply_correlation (hrun : Run (StepRel.ofFn (callStep cbSet)) CallState.init tr s) :
    ((s.replies.map WsMsgReply.msgId).Nodup ∧
      ∀ id : UInt32, id.toInt32 ∈ s.replies.map WsMsgReply.msgId ↔ (s.phase id).pending) ∧
    ∀ a o t, callStep cbSet s a = some (o, t) →
      (∀ code, o.result = some (leSuccess, code) → code ∈ codesSince a.actor tr) ∧
      (∀ code, o.result = some (leErrorTimeout, code) → Unanswered a.actor tr) ∧
      (∀ ret, o.ret = some ret →
        t.entry a.actor = none ∧ ∀ id, id ≠ a.actor → t.entry id = s.entry id) := by
  have hI := correlated_of_run hrun
  refine ⟨⟨hI.nodup, fun id ↦ ?_⟩, ?_⟩
  · rw [← KeyedList.find_isSome_iff]
    exact (hI.entry id).isSome_iff
  · intro a o t hfn
    have hstep := CallStep.of_callStep hfn
    refine ⟨?_, ?_, ?_⟩
    · intro code hres
      rcases hstep.result_cases hres with h | h | ⟨-, h⟩ | ⟨hp, -⟩
      · exact absurd h (by decide)
      · exact absurd h (by decide)
      · exact absurd h (by decide)
      · exact hI.replied _ _ hp
    · intro code hres
      rcases hstep.result_cases hres with h | h | ⟨hp, -⟩ | ⟨-, h⟩
      · exact absurd h (by decide)
      · exact absurd h (by decide)
      · exact hI.timedOut _ hp
      · exact absurd h (by decide)
    · intro ret hret
      have hentry := (hI.step hstep).entry a.actor
      rw [hstep.taken_of_ret hret] at hentry
      exact ⟨hentry.eq_none, fun id hid ↦ (hstep.frame hid).2⟩

/-- A call that is answered returns the code of its response. -/
theorem reply_correlation_answered :
    ∃ tr s, Run (StepRel.ofFn (callStep true)) CallState.init tr s ∧
      (∃ o t, callStep true s (.remove 7) = some (o, t) ∧ o.result = some (leSuccess, 42)) ∧
      42 ∈ codesSince 7 tr := by
  let ops : List CallOp := [.insert 7 true true, .addMsg 7 leSuccess, .locate 7, .clock 7 true,
    .respond 7 42 (some [123, 125]), .wake 7, .readCode 7]
  obtain ⟨s, t, hexec, hstep⟩ : ∃ s t, exec (callStep true) CallState.init ops =
      some (ops.map fun a ↦ (a, {}), s) ∧
      callStep true s (.remove 7) = some (resultOut leSuccess 42, t) := ⟨_, _, rfl, rfl⟩
  have hrun := Run.of_exec _ hexec
  exact ⟨_, s, hrun, ⟨_, t, hstep, rfl⟩, ((reply_correlation hrun).2 _ _ _ hstep).1 42 rfl⟩

/-- A response processed before the insertion of its call does not keep the call from
timing out. -/
theorem early_response_timeout :
    ∃ tr s, Run (StepRel.ofFn (callStep true)) CallState.init tr s ∧
      (.respond 7 42 (some [123, 125]), { replyCb := some (7, 42) }) ∈ tr ∧
      (.remove 7, resultOut leErrorTimeout 0) ∈ tr := by
  let ops : List CallOp := [.respond 7 42 (some [123, 125]), .insert 7 true true,
    .addMsg 7 leSuccess, .locate 7, .clock 7 true, .timeout 7, .remove 7]
  let outs : List CallOut := [{ replyCb := some (7, 42) }, {}, {}, {}, {}, {},
    resultOut leErrorTimeout 0]
  obtain ⟨s, hexec⟩ : ∃ s, exec (callStep true) CallState.init ops =
      some (ops.zip outs, s) := ⟨_, rfl⟩
  exact ⟨_, s, Run.of_exec _ hexec, by decide, by decide⟩

end LedaSdk.Leda
