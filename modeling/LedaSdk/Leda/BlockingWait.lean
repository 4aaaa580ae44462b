import LedaSdk.AliWs.Network
import LedaSdk.Base.Run

/-!
# Synchronous calls on the threads that answer them

`leda_send_method` waits for its reply (`sdk/leda.c:947–973`), which the network thread sends
for and receives and a pool worker posts (`leda.c:659–686`). `cb_ws_estab` and `cb_ws_close`
(`leda.c:851–875`) run `conn_state_change_cb` on the network thread, and the workers run the
device callbacks; both may call `leda_online` and `leda_offline`. `leda.h:40–43` tells the
user to bring devices online when the connection is up.
-/

namespace LedaSdk.Leda
open LedaSdk.Base LedaSdk.AliWs

/-- The workers that `leda_init` asks for, `leda.c:1113`. -/
def poolThreads : Nat := 5

/-- The network thread: in `lws_service`, in `conn_state_change_cb`, or in a synchronous call
made there; `ended` is the reason if the callback announces the end of a connection. -/
inductive NetActivity where
  | service
  | callback (ended : Option CloseReason)
  | inCall (ended : Option CloseReason) (call : Nat)
  deriving DecidableEq

/-- A pool worker: idle, with the response to a call, in a user callback, or in a synchronous
call made there. -/
inductive WorkerActivity where
  | idle
  | response (call : Nat)
  | callback
  | inCall (call : Nat)
  deriving DecidableEq

/-- How far a synchronous call is; it waits from its `wsc_add_msg` on. -/
inductive WaitPhase where
  | unused
  /-- The test of `g_conn_state` has passed. -/
  | checked
  | waiting
  /-- The semaphore is posted. -/
  | woken
  | over
  deriving DecidableEq

/-- Where the request of a call, or the response to it, is. -/
inductive Flow where
  | none
  /-- The request is in the message buffers. -/
  | queued
  | sent
  /-- The response is a task of the pool. -/
  | answered
  | gone
  deriving DecidableEq

/-- The threads and calls; `requests` counts the tasks of the pool that run a user callback:
requests of the server and replies to reports. Calls are numbered, and those in nobody's
activity belong to application threads. -/
structure WaitState where
  connected : Bool
  net : NetActivity
  workers : Fin poolThreads → WorkerActivity
  phase : Nat → WaitPhase
  flow : Nat → Flow
  next : Nat
  requests : Nat

/-- No connection, no call, every worker idle. -/
def WaitState.start : WaitState :=
  ⟨false, .service, fun _ ↦ .idle, fun _ ↦ .unused, fun _ ↦ .none, 0, 0⟩

/-- Who makes a synchronous call. -/
inductive Caller where
  | app
  | net
  | worker (i : Fin poolThreads)
  deriving DecidableEq

/-- A step of a call, of the network thread or of a worker. -/
inductive WaitOp where
  /-- The test of `g_conn_state`. -/
  | begin (caller : Caller)
  /-- `_ws_insert_reply` and `wsc_add_msg`; `ok` is whether both succeed. -/
  | enqueue (call : Nat) (ok : Bool)
  /-- The wait ends because the semaphore is posted. -/
  | wake (call : Nat)
  /-- The wait ends after ten seconds. -/
  | timeout (call : Nat)
  /-- The network thread writes a request. -/
  | send (call : Nat)
  /-- `cb_ws_recv` gets a response; `ok` is whether the pool takes the task. -/
  | receive (call : Nat) (ok : Bool)
  /-- `cb_ws_recv` gets a message whose task runs a user callback. -/
  | receiveRequest
  | takeResponse (i : Fin poolThreads) (call : Nat)
  /-- `_ws_set_reply_result`, if the payload can be printed. -/
  | post (i : Fin poolThreads) (printed : Bool)
  /-- A worker runs a device callback. -/
  | takeRequest (i : Fin poolThreads)
  | returnWorker (i : Fin poolThreads)
  | establish
  | close (reason : CloseReason)
  | returnNet
  deriving DecidableEq

/-- Set the phase of one call. -/
def WaitState.setPhase (s : WaitState) (call : Nat) (p : WaitPhase) : WaitState :=
  { s with phase := fun c ↦ if c = call then p else s.phase c }

/-- Set the flow of one call. -/
def WaitState.setFlow (s : WaitState) (call : Nat) (f : Flow) : WaitState :=
  { s with flow := fun c ↦ if c = call then f else s.flow c }

/-- Set the activity of one worker. -/
def WaitState.setWorker (s : WaitState) (i : Fin poolThreads) (w : WorkerActivity) : WaitState :=
  { s with workers := fun j ↦ if j = i then w else s.workers j }

/-- A call returns to the callback that made it, if one did. -/
def WaitState.resume (s : WaitState) (call : Nat) : WaitState :=
  { s.setPhase call .over with
    net := match s.net with
      | .inCall ended c => if c = call then .callback ended else s.net
      | _ => s.net
    workers := fun i ↦ if s.workers i = .inCall call then .callback else s.workers i }

/-- The caller can make a call now. -/
def WaitState.CanCall (s : WaitState) : Caller → Prop
  | .app => True
  | .net => ∃ ended, s.net = .callback ended
  | .worker i => s.workers i = .callback

/-- The caller is in the call with this number. -/
def WaitState.enter (s : WaitState) (call : Nat) : Caller → WaitState
  | .app => s
  | .net =>
    match s.net with
    | .callback ended => { s with net := .inCall ended call }
    | _ => s
  | .worker i => s.setWorker i (.inCall call)

instance (s : WaitState) (caller : Caller) : Decidable (s.CanCall caller) :=
  match caller with
  | .app => .isTrue trivial
  | .net =>
    match h : s.net with
    | .callback ended => .isTrue ⟨ended, h⟩
    | .service => .isFalse (by rintro ⟨_, he⟩; cases h.symm.trans he)
    | .inCall _ _ => .isFalse (by rintro ⟨_, he⟩; cases h.symm.trans he)
  | .worker i => inferInstanceAs (Decidable (s.workers i = .callback))

/-- One step. -/
def waitStep (s : WaitState) : WaitOp → Option (Unit × WaitState)
  | .begin caller =>
    if s.CanCall caller then
      if s.connected then
        some ((), { (s.setPhase s.next .checked).enter s.next caller with next := s.next + 1 })
      else some ((), s)
    else none
  | .enqueue call ok =>
    if s.phase call = .checked then
      some ((), if ok then (s.setPhase call .waiting).setFlow call .queued else s.resume call)
    else none
  | .wake call => if s.phase call = .woken then some ((), s.resume call) else none
  | .timeout call => if s.phase call = .waiting then some ((), s.resume call) else none
  | .send call =>
    if s.net = .service ∧ s.connected ∧ s.flow call = .queued then
      some ((), s.setFlow call .sent)
    else none
  | .receive call ok =>
    if s.net = .service ∧ s.connected ∧ s.flow call = .sent then
      some ((), s.setFlow call (if ok then .answered else .gone))
    else none
  | .receiveRequest =>
    if s.net = .service ∧ s.connected then some ((), { s with requests := s.requests + 1 }) else none
  | .takeResponse i call =>
    if s.workers i = .idle ∧ s.flow call = .answered then
      some ((), (s.setFlow call .gone).setWorker i (.response call))
    else none
  | .post i printed =>
    match s.workers i with
    | .response call =>
      if printed = false then some ((), s.setWorker i .idle)
      else if s.phase call = .waiting then
        some ((), (s.setPhase call .woken).setWorker i .idle)
      -- Nobody waits for it: `report_reply_cb`.
      else some ((), s.setWorker i .callback)
    | _ => none
  | .takeRequest i =>
    if s.workers i = .idle ∧ 0 < s.requests then
      some ((), { s.setWorker i .callback with requests := s.requests - 1 })
    else none
  | .returnWorker i =>
    if s.workers i = .callback then some ((), s.setWorker i .idle) else none
  | .establish =>
    if s.net = .service ∧ s.connected = false then
      some ((), { s with connected := true, net := .callback none })
    else none
  | .close reason =>
    if s.net = .service then
      some ((), { s with connected := false, net := .callback (some reason) })
    else none
  | .returnNet =>
    match s.net with
    | .callback ended =>
      -- Only the callback for `CLOSED` clears the message buffers.
      some ((), { s with
        net := .service
        flow := if ended = some .closed then fun c ↦ if s.flow c = .queued then .gone else s.flow c
          else s.flow })
    | _ => none

/-- The network thread waits for the reply to a call. -/
def WaitState.NetWaits (s : WaitState) : Prop :=
  ∃ ended call, s.net = .inCall ended call ∧ s.phase call = .waiting

/-- A worker waits for the reply to a call. -/
def WaitState.WorkerWaits (s : WaitState) (i : Fin poolThreads) : Prop :=
  ∃ call, s.workers i = .inCall call ∧ s.phase call = .waiting

/-- No call waits while every thread able to complete it waits too: its request is not queued
while the network thread waits, nor its response a task of the pool while all workers wait. -/
def WaitState.Answerable (s : WaitState) : Prop :=
  ∀ call, s.phase call = .waiting →
    ¬ (s.flow call = .queued ∧ s.NetWaits) ∧
      ¬ (s.flow call = .answered ∧ ∀ i, s.WorkerWaits i)

/-- The network thread makes no synchronous call that gets as far as waiting, and no worker
one while the other workers wait. -/
def LeavesAnswerers (s : WaitState) : WaitOp → Prop
  | .enqueue call true =>
    (∀ ended, s.net ≠ .inCall ended call) ∧
      ∃ i, s.workers i ≠ .inCall call ∧ ¬ s.WorkerWaits i
  | _ => True

/-! ### Who waits -/

section Steps
variable {s s' : WaitState} {op : WaitOp} {out : Unit}

/-- Nobody waits who did not wait before. -/
structure Calmer (s s' : WaitState) : Prop where
  net : s'.NetWaits → s.NetWaits
  worker : ∀ i, s'.WorkerWaits i → s.WorkerWaits i

/-- Calls that wait did so before, and threads are in them as they were. -/
private theorem Calmer.of_kept (hphase : ∀ c, s'.phase c = .waiting → s.phase c = .waiting)
    (hnet : ∀ ended c, s'.net = .inCall ended c → s'.phase c = .waiting → s.net = .inCall ended c)
    (hworkers : ∀ i c, s'.workers i = .inCall c → s'.phase c = .waiting → s.workers i = .inCall c) :
    Calmer s s' where
  net := fun ⟨ended, c, hc, hw⟩ ↦ ⟨ended, c, hnet ended c hc hw, hphase c hw⟩
  worker i := fun ⟨c, hc, hw⟩ ↦ ⟨c, hworkers i c hc hw, hphase c hw⟩

@[simp] theorem WaitState.phase_setPhase_self (s : WaitState) (call : Nat) (p : WaitPhase) :
    (s.setPhase call p).phase call = p := if_pos rfl

theorem WaitState.phase_setPhase_ne (s : WaitState) {call c : Nat} (p : WaitPhase)
    (h : c ≠ call) : (s.setPhase call p).phase c = s.phase c := if_neg h

private theorem phase_setPhase {call c : Nat} {p : WaitPhase} (hp : p ≠ .waiting)
    (h : (s.setPhase call p).phase c = .waiting) : c ≠ call ∧ s.phase c = .waiting := by
  by_cases hc : c = call
  · rw [hc, WaitState.phase_setPhase_self] at h
    exact absurd h hp
  · rw [WaitState.phase_setPhase_ne s p hc] at h
    exact ⟨hc, h⟩

private theorem calmer_setFlow (s : WaitState) (call : Nat) (f : Flow) : Calmer s (s.setFlow call f) :=
  .of_kept (fun _ h ↦ h) (fun _ _ h _ ↦ h) (fun _ _ h _ ↦ h)

private theorem calmer_setWorker (s : WaitState) (i : Fin poolThreads) {w : WorkerActivity}
    (hw : ∀ c, w = .inCall c → s.phase c ≠ .waiting) : Calmer s (s.setWorker i w) := by
  refine .of_kept (fun _ h ↦ h) (fun _ _ h _ ↦ h) fun j c hj hc ↦ ?_
  by_cases hji : j = i
  · exact absurd hc (hw c ((if_pos hji).symm.trans hj))
  · exact (if_neg hji).symm.trans hj

private theorem calmer_setPhase (s : WaitState) (call : Nat) {p : WaitPhase} (hp : p ≠ .waiting) :
    Calmer s (s.setPhase call p) :=
  .of_kept (fun _ h ↦ (phase_setPhase hp h).2) (fun _ _ h _ ↦ h) (fun _ _ h _ ↦ h)

private theorem net_resume {call c : Nat} {ended : Option CloseReason}
    (h : (s.resume call).net = .inCall ended c) : s.net = .inCall ended c ∧ c ≠ call := by
  simp only [WaitState.resume] at h
  cases hnet : s.net with
  | service =>
    rw [hnet] at h
    cases h
  | callback _ =>
    rw [hnet] at h
    cases h
  | inCall ended' c' =>
    rw [hnet] at h
    dsimp only at h
    split at h
    · cases h
    · next hne =>
      cases h
      exact ⟨rfl, hne⟩

private theorem calmer_resume (s : WaitState) (call : Nat) : Calmer s (s.resume call) := by
  refine .of_kept (fun _ h ↦ (phase_setPhase (by decide) h).2) (fun _ _ hc _ ↦ (net_resume hc).1) ?_
  · intro i c hc _
    simp only [WaitState.resume] at hc
    split at hc
    · cases hc
    · exact hc

theorem Calmer.trans {s'' : WaitState} (h : Calmer s s') (h' : Calmer s' s'') : Calmer s s'' where
  net hw := h.net (h'.net hw)
  worker i hw := h.worker i (h'.worker i hw)

private theorem calmer_begin (s : WaitState) (caller : Caller) :
    Calmer s { (s.setPhase s.next .checked).enter s.next caller with next := s.next + 1 } := by
  have hnew (c : Nat) (h : (s.setPhase s.next .checked).phase c = .waiting) : c ≠ s.next :=
    (phase_setPhase (by decide) h).1
  refine (calmer_setPhase s s.next (p := .checked) (by decide)).trans ?_
  cases caller with
  | app => exact .of_kept (fun _ h ↦ h) (fun _ _ h _ ↦ h) (fun _ _ h _ ↦ h)
  | net =>
    simp only [WaitState.enter]
    split
    · refine .of_kept (fun _ h ↦ h) (fun ended c hc hw ↦ ?_) (fun _ _ h _ ↦ h)
      cases hc
      exact absurd rfl (hnew _ hw)
    · exact .of_kept (fun _ h ↦ h) (fun _ _ h _ ↦ h) (fun _ _ h _ ↦ h)
  | worker i =>
    refine (calmer_setWorker (s.setPhase s.next .checked) i ?_).trans
      (.of_kept (fun _ h ↦ h) (fun _ _ h _ ↦ h) (fun _ _ h _ ↦ h))
    rintro c hc hw
    cases hc
    exact hnew _ hw rfl

/-- Only a call that gets its request queued starts to wait. -/
theorem waitStep_calmer (hop : ∀ call, op ≠ .enqueue call true)
    (h : waitStep s op = some (out, s')) : Calmer s s' := by
  have hsame : Calmer s s := ⟨id, fun _ ↦ id⟩
  cases op with
  | begin caller =>
    simp only [waitStep] at h
    split at h
    · split at h
      · cases h
        exact calmer_begin s caller
      · cases h
        exact hsame
    · cases h
  | enqueue call ok =>
    cases ok with
    | true => exact absurd rfl (hop call)
    | false =>
      simp only [waitStep] at h
      split at h
      · cases h
        exact calmer_resume s call
      · cases h
  | wake call =>
    simp only [waitStep] at h
    split at h
    · cases h
      exact calmer_resume s call
    · cases h
  | timeout call =>
    simp only [waitStep] at h
    split at h
    · cases h
      exact calmer_resume s call
    · cases h
  | send call =>
    simp only [waitStep] at h
    split at h
    · cases h
      exact calmer_setFlow s call _
    · cases h
  | receive call ok =>
    simp only [waitStep] at h
    split at h
    · cases h
      exact calmer_setFlow s call _
    · cases h
  | receiveRequest =>
    simp only [waitStep] at h
    split at h
    · cases h
      exact .of_kept (fun _ h ↦ h) (fun _ _ h _ ↦ h) (fun _ _ h _ ↦ h)
    · cases h
  | takeResponse i call =>
    simp only [waitStep] at h
    split at h
    · cases h
      refine (calmer_setFlow s call .gone).trans (calmer_setWorker _ i ?_)
      exact fun c hc ↦ nomatch hc
    · cases h
  | post i printed =>
    simp only [waitStep] at h
    split at h
    · split at h
      · cases h
        exact calmer_setWorker s i fun c hc ↦ nomatch hc
      · split at h
        · cases h
          refine (calmer_setPhase s _ (p := .woken) (by decide)).trans (calmer_setWorker _ i ?_)
          exact fun c hc ↦ nomatch hc
        · cases h
          exact calmer_setWorker s i fun c hc ↦ nomatch hc
    · cases h
  | takeRequest i =>
    simp only [waitStep] at h
    split at h
    · cases h
      exact (calmer_setWorker s i (w := .callback) fun c hc ↦ nomatch hc).trans
        (.of_kept (fun _ h ↦ h) (fun _ _ h _ ↦ h) (fun _ _ h _ ↦ h))
    · cases h
  | returnWorker i =>
    simp only [waitStep] at h
    split at h
    · cases h
      exact calmer_setWorker s i fun c hc ↦ nomatch hc
    · cases h
  | establish =>
    simp only [waitStep] at h
    split at h
    · cases h
      exact .of_kept (fun _ h ↦ h) (fun _ _ h _ ↦ nomatch h) (fun _ _ h _ ↦ h)
    · cases h
  | close reason =>
    simp only [waitStep] at h
    split at h
    · cases h
      exact .of_kept (fun _ h ↦ h) (fun _ _ h _ ↦ nomatch h) (fun _ _ h _ ↦ h)
    · cases h
  | returnNet =>
    simp only [waitStep] at h
    split at h
    · cases h
      exact .of_kept (fun _ h ↦ h) (fun _ _ h _ ↦ nomatch h) (fun _ _ h _ ↦ h)
    · cases h

/-! ### The invariant -/

/-- The network thread does not wait, and some worker does not. -/
structure WaitState.WaitInv (s : WaitState) : Prop where
  net : ¬ s.NetWaits
  worker : ∃ i, ¬ s.WorkerWaits i

theorem WaitState.waitInv_start : WaitState.start.WaitInv where
  net := by
    rintro ⟨_, _, h, -⟩
    cases h
  worker := by
    refine ⟨⟨0, by decide⟩, ?_⟩
    rintro ⟨_, h, -⟩
    cases h

theorem WaitState.WaitInv.step (hinv : s.WaitInv) (hok : LeavesAnswerers s op)
    (h : waitStep s op = some (out, s')) : s'.WaitInv := by
  by_cases hop : ∀ call, op ≠ .enqueue call true
  · have hcalm := waitStep_calmer hop h
    obtain ⟨i, hi⟩ := hinv.worker
    exact ⟨fun hw ↦ hinv.net (hcalm.net hw), i, fun hw ↦ hi (hcalm.worker i hw)⟩
  · simp only [not_forall, not_not] at hop
    obtain ⟨call, rfl⟩ := hop
    obtain ⟨hnet, i, hin, hi⟩ := hok
    simp only [waitStep] at h
    split at h
    · cases h
      have hphase {c : Nat} (hc : c ≠ call)
          (hw : ((s.setPhase call .waiting).setFlow call .queued).phase c = .waiting) :
          s.phase c = .waiting := (if_neg hc).symm.trans hw
      constructor
      · rintro ⟨ended, c, hc, hw⟩
        by_cases hcall : c = call
        · rw [hcall] at hc
          exact hnet ended hc
        · exact hinv.net ⟨ended, c, hc, hphase hcall hw⟩
      · refine ⟨i, ?_⟩
        rintro ⟨c, hc, hw⟩
        by_cases hcall : c = call
        · rw [hcall] at hc
          exact hin hc
        · exact hi ⟨c, hc, hphase hcall hw⟩
    · cases h

theorem WaitState.WaitInv.answerable (hinv : s.WaitInv) : s.Answerable := by
  intro call _
  obtain ⟨i, hi⟩ := hinv.worker
  exact ⟨fun h ↦ hinv.net h.2, fun h ↦ hi (h.2 i)⟩

/-! ### Where the answerers all wait -/

/-- A call that the network thread is in has begun and is not over. -/
def WaitState.Engaged (s : WaitState) : Prop :=
  ∀ ended call, s.net = .inCall ended call →
    s.phase call = .checked ∨ s.phase call = .waiting ∨ s.phase call = .woken

theorem WaitState.Engaged.setPhase (h : s.Engaged) (call : Nat) (p : WaitPhase)
    (hp : p = .checked ∨ p = .waiting ∨ p = .woken) : (s.setPhase call p).Engaged := by
  intro ended c hc
  by_cases hcall : c = call
  · rw [hcall, WaitState.phase_setPhase_self]
    exact hp
  · rw [WaitState.phase_setPhase_ne s p hcall]
    exact h ended c hc

theorem WaitState.Engaged.resume (call : Nat) (h : s.Engaged) : (s.resume call).Engaged := by
  intro ended c hc
  obtain ⟨hnet, hne⟩ := net_resume hc
  have hphase : (s.resume call).phase c = s.phase c := WaitState.phase_setPhase_ne s .over hne
  rw [hphase]
  exact h ended c hnet

theorem WaitState.Engaged.step (h : s.Engaged) (hstep : waitStep s op = some (out, s')) :
    s'.Engaged := by
  cases op with
  | begin caller =>
    simp only [waitStep] at hstep
    split at hstep
    · split at hstep
      · cases hstep
        have hbegun : (s.setPhase s.next .checked).Engaged := h.setPhase s.next .checked (.inl rfl)
        cases caller with
        | app => exact hbegun
        | net =>
          intro ended c hc
          simp only [WaitState.enter] at hc ⊢
          split at hc
          · cases hc
            exact .inl (if_pos rfl)
          · exact hbegun ended c hc
        | worker i => exact hbegun
      · cases hstep
        exact h
    · cases hstep
  | enqueue call ok =>
    simp only [waitStep] at hstep
    split at hstep
    · cases hstep
      cases ok with
      | true => exact h.setPhase call .waiting (.inr (.inl rfl))
      | false => exact h.resume call
    · cases hstep
  | wake call =>
    simp only [waitStep] at hstep
    split at hstep
    · cases hstep
      exact h.resume call
    · cases hstep
  | timeout call =>
    simp only [waitStep] at hstep
    split at hstep
    · cases hstep
      exact h.resume call
    · cases hstep
  | post i printed =>
    simp only [waitStep] at hstep
    split at hstep
    · next call _ =>
      split at hstep
      · cases hstep
        exact h
      · split at hstep
        · cases hstep
          exact h.setPhase call .woken (.inr (.inr rfl))
        · cases hstep
          exact h
    · cases hstep
  | returnNet =>
    simp only [waitStep] at hstep
    split at hstep
    · cases hstep
      intro ended c hc
      cases hc
    · cases hstep
  | establish =>
    simp only [waitStep] at hstep
    split at hstep
    · cases hstep
      intro ended c hc
      cases hc
    · cases hstep
  | close reason =>
    simp only [waitStep] at hstep
    split at hstep
    · cases hstep
      intro ended c hc
      cases hc
    · cases hstep
  | _ =>
    -- The other steps change neither the network thread nor a phase.
    simp only [waitStep] at hstep
    split at hstep
    · cases hstep
      exact h
    · cases hstep

/-- From here on some steps lead to a call that nobody can complete. -/
def WaitState.Blockable (s : WaitState) : Prop :=
  ∃ tr t, Run (StepRel.ofFn waitStep) s tr t ∧ ¬ t.Answerable

namespace WaitState.Blockable

theorem now (h : ¬ s.Answerable) : s.Blockable := ⟨[], s, .nil, h⟩

theorem later (h : waitStep s op = some (out, s')) (hb : s'.Blockable) : s.Blockable := by
  obtain ⟨tr, t, hrun, hbad⟩ := hb
  exact ⟨_, t, (Run.single (R := StepRel.ofFn waitStep) h).append hrun, hbad⟩

/-- While all workers wait, a further call is answered and its response stays a task. -/
private theorem of_service (hall : ∀ i, s.WorkerWaits i) (hnet : s.net = .service)
    (hup : s.connected = true) : s.Blockable := by
  let s1 : WaitState := { s.setPhase s.next .checked with next := s.next + 1 }
  let s2 : WaitState := (s1.setPhase s.next .waiting).setFlow s.next .queued
  let s3 : WaitState := s2.setFlow s.next .sent
  have hbegin : waitStep s (.begin .app) = some ((), s1) := by
    rw [waitStep, if_pos (show s.CanCall .app from trivial), if_pos hup]
    rfl
  have henqueue : waitStep s1 (.enqueue s.next true) = some ((), s2) :=
    if_pos (show s1.phase s.next = .checked from if_pos rfl)
  have hsend : waitStep s2 (.send s.next) = some ((), s3) :=
    if_pos ⟨hnet, hup, if_pos rfl⟩
  have hreceive : waitStep s3 (.receive s.next true) = some ((), s3.setFlow s.next .answered) :=
    if_pos ⟨hnet, hup, if_pos rfl⟩
  refine later hbegin (later henqueue (later hsend (later hreceive (now fun hans ↦ ?_))))
  refine (hans s.next (if_pos rfl)).2 ⟨if_pos rfl, fun i ↦ ?_⟩
  obtain ⟨c, hc, hw⟩ := hall i
  refine ⟨c, hc, ?_⟩
  change (if c = s.next then WaitPhase.waiting else if c = s.next then .checked else s.phase c) = _
  by_cases hn : c = s.next
  · rw [if_pos hn]
  · rw [if_neg hn, if_neg hn]
    exact hw

/-- A callback of the network thread returns; the workers still wait. -/
private theorem exists_returnNet {ended : Option CloseReason} (hnet : s.net = .callback ended) :
    ∃ flow, waitStep s .returnNet = some ((), { s with net := .service, flow := flow }) := by
  rw [waitStep, hnet]
  exact ⟨_, rfl⟩

private theorem of_callback_up {ended : Option CloseReason} (hall : ∀ i, s.WorkerWaits i)
    (hnet : s.net = .callback ended) (hup : s.connected = true) : s.Blockable := by
  obtain ⟨flow, hreturn⟩ := exists_returnNet hnet
  exact later hreturn (of_service (s := { s with net := .service, flow := flow }) hall rfl hup)

private theorem of_service_down (hall : ∀ i, s.WorkerWaits i) (hnet : s.net = .service)
    (hdown : s.connected = false) : s.Blockable := by
  have hestablish : waitStep s .establish =
      some ((), { s with connected := true, net := .callback none }) := if_pos ⟨hnet, hdown⟩
  exact later hestablish
    (of_callback_up (s := { s with connected := true, net := .callback none }) hall rfl rfl)

private theorem of_callback {ended : Option CloseReason} (hall : ∀ i, s.WorkerWaits i)
    (hnet : s.net = .callback ended) : s.Blockable := by
  cases hup : s.connected with
  | true => exact of_callback_up hall hnet hup
  | false =>
    obtain ⟨flow, hreturn⟩ := exists_returnNet hnet
    exact later hreturn (of_service_down (s := { s with net := .service, flow := flow }) hall rfl hup)

/-- A request that is queued while the network thread begins to wait is not sent. -/
private theorem of_netCall {ended : Option CloseReason} {call : Nat}
    (hnet : s.net = .inCall ended call) :
    ¬ ((s.setPhase call .waiting).setFlow call .queued).Answerable := by
  intro hans
  refine (hans call (if_pos rfl)).1 ⟨if_pos rfl, ended, call, hnet, if_pos rfl⟩

/-- Wherever the network thread is, a call can be blocked once all workers wait. -/
private theorem of_workers (hengaged : s.Engaged) (hnet : ¬ s.NetWaits)
    (hall : ∀ i, s.WorkerWaits i) : s.Blockable := by
  cases hs : s.net with
  | service =>
    cases hup : s.connected with
    | true => exact of_service hall hs hup
    | false => exact of_service_down hall hs hup
  | callback ended => exact of_callback hall hs
  | inCall ended call =>
    rcases hengaged ended call hs with hchecked | hwaiting | hwoken
    · have henqueue : waitStep s (.enqueue call true) =
          some ((), (s.setPhase call .waiting).setFlow call .queued) := if_pos hchecked
      exact later henqueue (now (of_netCall hs))
    · exact absurd ⟨ended, call, hs, hwaiting⟩ hnet
    · -- The call returns to the callback that made it.
      have hwake : waitStep s (.wake call) = some ((), s.resume call) := if_pos hwoken
      have hback : (s.resume call).net = .callback ended := by
        simp only [WaitState.resume, hs, if_true]
      refine later hwake (of_callback (fun i ↦ ?_) hback)
      obtain ⟨c, hc, hw⟩ := hall i
      have hne : c ≠ call := by
        rintro rfl
        cases hw.symm.trans hwoken
      refine ⟨c, ?_, (WaitState.phase_setPhase_ne s .over hne).trans hw⟩
      change (if s.workers i = .inCall call then WorkerActivity.callback else s.workers i) = _
      rw [hc, if_neg (fun he ↦ hne (WorkerActivity.inCall.inj he))]

/-- A call that leaves nobody to answer can be followed by one that nobody completes. -/
theorem of_unanswered (hinv : s.WaitInv) (hengaged : s.Engaged) (hbad : ¬ LeavesAnswerers s op)
    (h : waitStep s op = some (out, s')) : s'.Blockable := by
  have hop : ∃ call, op = .enqueue call true := by
    by_contra hno
    apply hbad
    unfold LeavesAnswerers
    split
    · exact absurd ⟨_, rfl⟩ hno
    · trivial
  obtain ⟨call, rfl⟩ := hop
  simp only [waitStep] at h
  split at h
  · cases h
    simp only [if_true]
    by_cases hnet : ∃ ended, s.net = .inCall ended call
    · obtain ⟨ended, hnet⟩ := hnet
      exact now (of_netCall hnet)
    · have hfive : ∀ i, s.workers i ≠ .inCall call → s.WorkerWaits i := by
        intro i hi
        by_contra hw
        exact hbad ⟨fun ended he ↦ hnet ⟨ended, he⟩, i, hi, hw⟩
      have hphase (c : Nat) (hw : s.phase c = .waiting) :
          (s.setPhase call .waiting).phase c = .waiting := by
        by_cases hc : c = call
        · rw [hc, WaitState.phase_setPhase_self]
        · rw [WaitState.phase_setPhase_ne s _ hc, hw]
      refine of_workers (hengaged.setPhase call .waiting (.inr (.inl rfl))) ?_ fun i ↦ ?_
      · rintro ⟨ended, c, hc, hw⟩
        by_cases hcall : c = call
        · rw [hcall] at hc
          exact hnet ⟨ended, hc⟩
        · exact hinv.net ⟨ended, c, hc, (WaitState.phase_setPhase_ne s _ hcall).symm.trans hw⟩
      · by_cases hi : s.workers i = .inCall call
        · exact ⟨call, hi, WaitState.phase_setPhase_self s call .waiting⟩
        · obtain ⟨c, hc, hw⟩ := hfive i hi
          exact ⟨c, hc, hphase c hw⟩
  · cases h

end WaitState.Blockable

end Steps

/-- Along every run in which the network thread makes no call that waits and never all workers
do, each waiting call has somebody to complete it; and a call that breaks this can be followed
by one that nobody completes. -/
theorem waiting_answerable {s : WaitState} {tr : List (WaitOp × Unit)}
    (hrun : Run (StepRel.guard LeavesAnswerers (StepRel.ofFn waitStep)) WaitState.start tr s) :
    s.Answerable ∧
      ∀ op out s', waitStep s op = some (out, s') → ¬ LeavesAnswerers s op → s'.Blockable := by
  have hinv : s.WaitInv ∧ s.Engaged := by
    refine hrun.invariant (I := fun s ↦ s.WaitInv ∧ s.Engaged)
      ⟨WaitState.waitInv_start, fun _ _ h ↦ nomatch h⟩ ?_
    rintro t op out u ⟨hi, he⟩ ⟨hok, hstep⟩
    exact ⟨hi.step hok hstep, he.step hstep⟩
  exact ⟨hinv.1.answerable, fun op out s' hstep hbad ↦ .of_unanswered hinv.1 hinv.2 hbad hstep⟩

/-- An application thread goes online and waits; the network thread receives the response. -/
theorem waiting_answerable_app :
    ∃ tr s, Run (StepRel.guard LeavesAnswerers (StepRel.ofFn waitStep)) WaitState.start tr s ∧
      s.phase 0 = .waiting ∧ s.flow 0 = .answered ∧ s.Answerable := by
  let steps := StepRel.guard LeavesAnswerers (StepRel.ofFn waitStep)
  let s1 : WaitState := { WaitState.start with connected := true, net := .callback none }
  let s2 : WaitState := { s1 with net := .service }
  let s3 : WaitState := { s2.setPhase 0 .checked with next := 1 }
  let s4 : WaitState := (s3.setPhase 0 .waiting).setFlow 0 .queued
  let s5 : WaitState := s4.setFlow 0 .sent
  have hestablish : steps WaitState.start .establish () s1 := ⟨trivial, rfl⟩
  have hreturn : steps s1 .returnNet () s2 := ⟨trivial, rfl⟩
  have hbegin : steps s2 (.begin .app) () s3 := ⟨trivial, rfl⟩
  have henqueue : steps s3 (.enqueue 0 true) () s4 := by
    refine ⟨⟨fun ended ↦ NetActivity.noConfusion, ⟨0, by decide⟩, WorkerActivity.noConfusion, ?_⟩, rfl⟩
    rintro ⟨c, hc, -⟩
    cases hc
  have hsend : steps s4 (.send 0) () s5 := ⟨trivial, rfl⟩
  have hreceive : steps s5 (.receive 0 true) () (s5.setFlow 0 .answered) := ⟨trivial, rfl⟩
  have hrun := (((((Run.nil.snoc hestablish).snoc hreturn).snoc hbegin).snoc henqueue).snoc
    hsend).snoc hreceive
  exact ⟨_, _, hrun, rfl, rfl, (waiting_answerable hrun).1⟩

/-- A device that goes online in `conn_state_change_cb` waits for a request that the network
thread would have to send. -/
theorem online_in_callback_blocks :
    ∃ tr s, Run (StepRel.ofFn waitStep) WaitState.start tr s ∧
      tr.map Prod.fst = [.establish, .begin .net, .enqueue 0 true] ∧ ¬ s.Answerable := by
  obtain ⟨s, hexec, hs⟩ : ∃ s, exec waitStep WaitState.start
      [.establish, .begin .net, .enqueue 0 true] =
        some ([(.establish, ()), (.begin .net, ()), (.enqueue 0 true, ())], s) ∧
      s.phase 0 = .waiting ∧ s.flow 0 = .queued ∧ s.net = .inCall none 0 :=
    ⟨_, rfl, rfl, rfl, rfl⟩
  refine ⟨_, s, Run.of_exec _ hexec, rfl, fun hans ↦ ?_⟩
  exact (hans 0 hs.1).1 ⟨hs.2.1, none, 0, hs.2.2, hs.1⟩

end LedaSdk.Leda
