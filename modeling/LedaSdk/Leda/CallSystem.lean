import LedaSdk.Base.Run
import LedaSdk.Leda.PendingReply

/-!
# Calls, responses and the list of pending replies

The interleavings of any number of `leda_send_method` and `leda_asyn_send_method` calls
(`sdk/leda.c:877–1072`), each known by its message id, with the response branch of
`threadpool_recv_proc` (`leda.c:671–686`). Every function that uses the list is one step;
the outcomes of allocation, of `wsc_add_msg` and of the clock are part of the label.
-/

namespace LedaSdk.Leda
open LedaSdk.Base

/-- Program point of the call with a given id. -/
inductive CallPhase where
  /-- The id has not been used. -/
  | idle
  | inserted
  | sendFailed (ret : Int32)
  | sent
  | located
  | waiting
  | clockFailed
  | timedOut
  | woken
  | replied (code : Int32)
  /-- `leda_send_method` has returned. -/
  | done (ret : Int32)
  | reportFailed (ret : Int32)
  /-- `leda_asyn_send_method` has returned. -/
  | reported (ret : Int32)
  deriving DecidableEq, Repr

/-- The two ways to send a request. -/
inductive CallKind where
  | sync
  | report
  deriving DecidableEq, Repr

/-- Which kind of call is at this point; none when the id is unused. -/
def CallPhase.kind : CallPhase → Option CallKind
  | .idle => none
  | .reportFailed _ | .reported _ => some .report
  | _ => some .sync

/-- The list and the program point of every call. -/
structure CallState where
  replies : ReplyList
  phase : UInt32 → CallPhase

/-- Nothing pending and no call begun. -/
def CallState.init : CallState := ⟨[], fun _ ↦ .idle⟩

/-- Move one call to a program point. -/
def CallState.setPhase (s : CallState) (id : UInt32) (p : CallPhase) : CallState :=
  { s with phase := fun i ↦ if i = id then p else s.phase i }

/-- Steps of the calls and of the response tasks. -/
inductive CallOp where
  /-- `_ws_insert_reply` in `leda_send_method`. -/
  | insert (id : UInt32) (mallocOk semInitOk : Bool)
  /-- `wsc_add_msg` in `leda_send_method`. -/
  | addMsg (id : UInt32) (ret : Int32)
  /-- The lookup that `_ws_get_reply_result` begins with. -/
  | locate (id : UInt32)
  /-- `clock_gettime`. -/
  | clock (id : UInt32) (ok : Bool)
  /-- `sem_timedwait` returns 0. -/
  | wake (id : UInt32)
  /-- `sem_timedwait` returns -1. -/
  | timeout (id : UInt32)
  /-- `*code = reply->code`. -/
  | readCode (id : UInt32)
  /-- `_ws_remove_reply` and the returns that follow it. -/
  | remove (id : UInt32)
  /-- `wsc_add_msg` in `leda_asyn_send_method`. -/
  | report (id : UInt32) (ret : Int32)
  /-- The response branch of `threadpool_recv_proc`; the payload is the printed text. -/
  | respond (msgId code : Int32) (payload : Option (List UInt8))
  deriving DecidableEq, Repr

/-- What a step shows: the result and `*code` of `_ws_get_reply_result`, the return value of
the call, an invocation of `report_reply_cb`. -/
structure CallOut where
  result : Option (Int32 × Int32) := none
  ret : Option Int32 := none
  replyCb : Option (UInt32 × Int32) := none
  deriving DecidableEq, Repr

/-- `leda_send_method` from a result of `_ws_get_reply_result`, `leda.c:965–972`. -/
def sendMethodRet (ret code : Int32) : Int32 := if ret ≠ leSuccess then ret else code

/-- What a call shows when it returns a result of `_ws_get_reply_result`. -/
def resultOut (ret code : Int32) : CallOut :=
  { result := some (ret, code), ret := some (sendMethodRet ret code) }

/-- The program points at which a call removes its entry, with what it then returns. -/
def CallPhase.onRemove : CallPhase → Option (CallOut × CallPhase)
  | .sendFailed ret => some ({ ret := some ret }, .done ret)
  | .clockFailed => some (resultOut leErrorUnknown 0, .done (sendMethodRet leErrorUnknown 0))
  | .timedOut => some (resultOut leErrorTimeout 0, .done (sendMethodRet leErrorTimeout 0))
  | .replied code => some (resultOut leSuccess code, .done (sendMethodRet leSuccess code))
  | .reportFailed ret => some ({ ret := some ret }, .reported ret)
  | _ => none

/-- What a removal finds, shows and leaves. -/
theorem CallPhase.onRemove_cases {p p' : CallPhase} {o : CallOut}
    (h : p.onRemove = some (o, p')) :
    (∃ ret, p = .sendFailed ret ∧ o = { ret := some ret } ∧ p' = .done ret) ∨
    (∃ ret code, (p = .clockFailed ∧ ret = leErrorUnknown ∨ p = .timedOut ∧ ret = leErrorTimeout ∨
        p = .replied code ∧ ret = leSuccess) ∧
      o = resultOut ret code ∧ p' = .done (sendMethodRet ret code)) ∨
    (∃ ret, p = .reportFailed ret ∧ o = { ret := some ret } ∧ p' = .reported ret) := by
  cases p with
  | sendFailed ret =>
    cases h
    exact .inl ⟨ret, rfl, rfl, rfl⟩
  | clockFailed =>
    cases h
    exact .inr (.inl ⟨_, _, .inl ⟨rfl, rfl⟩, rfl, rfl⟩)
  | timedOut =>
    cases h
    exact .inr (.inl ⟨_, _, .inr (.inl ⟨rfl, rfl⟩), rfl, rfl⟩)
  | replied code =>
    cases h
    exact .inr (.inl ⟨_, _, .inr (.inr ⟨rfl, rfl⟩), rfl, rfl⟩)
  | reportFailed ret =>
    cases h
    exact .inr (.inr ⟨ret, rfl, rfl, rfl⟩)
  | _ => cases h

/-- One step; `cbSet` says whether `report_reply_cb` is registered. -/
def callStep (cbSet : Bool) (s : CallState) : CallOp → Option (CallOut × CallState)
  | .insert id mallocOk semInitOk =>
    if s.phase id = .idle then
      let (ret, replies) := wsInsertReply mallocOk semInitOk id.toInt32 s.replies
      if ret ≠ leSuccess then some ({ ret := some ret }, s.setPhase id (.done ret))
      else some ({}, { s with replies }.setPhase id .inserted)
    else none
  | .addMsg id ret =>
    if s.phase id = .inserted then
      some ({}, s.setPhase id (if ret ≠ leSuccess then .sendFailed ret else .sent))
    else none
  | .locate id =>
    if s.phase id = .sent then
      match wsGetReplyByMsgId id.toInt32 s.replies with
      | none =>
        some (resultOut leErrorInvaildParam 0,
          s.setPhase id (.done (sendMethodRet leErrorInvaildParam 0)))
      | some _ => some ({}, s.setPhase id .located)
    else none
  | .clock id ok =>
    if s.phase id = .located then
      some ({}, s.setPhase id (if ok then .waiting else .clockFailed))
    else none
  | .wake id => do
    let r ← wsGetReplyByMsgId id.toInt32 s.replies
    if s.phase id = .waiting ∧ r.sem ≠ 0 then
      some ({}, { s with replies := semTake id.toInt32 s.replies }.setPhase id .woken)
    else none
  | .timeout id => do
    let r ← wsGetReplyByMsgId id.toInt32 s.replies
    if s.phase id = .waiting ∧ r.sem = 0 then some ({}, s.setPhase id .timedOut) else none
  | .readCode id => do
    let r ← wsGetReplyByMsgId id.toInt32 s.replies
    if s.phase id = .woken then some ({}, s.setPhase id (.replied r.code)) else none
  | .remove id => do
    let (o, p) ← (s.phase id).onRemove
    some (o, { s with replies := wsRemoveReply id.toInt32 s.replies }.setPhase id p)
  | .report id ret =>
    if s.phase id = .idle then
      if ret ≠ leSuccess then some ({}, s.setPhase id (.reportFailed ret))
      else some ({ ret := some ret }, s.setPhase id (.reported ret))
    else none
  | .respond msgId code payload =>
    match payload with
    | none => some ({}, s)
    | some text =>
      let (ret, replies) := wsSetReplyResult msgId code (some text) s.replies
      some ({ replyCb := if ret ≠ leSuccess ∧ cbSet then some (msgId.toUInt32, code) else none },
        { s with replies })

/-! ### What a step can do -/

/-- The id of the call that a step belongs to or that a response names. -/
def CallOp.actor : CallOp → UInt32
  | .insert id _ _ | .addMsg id _ | .locate id | .clock id _ | .wake id | .timeout id
  | .readCode id | .remove id | .report id _ => id
  | .respond msgId _ _ => msgId.toUInt32

/-- The entry of the call with this id. -/
def CallState.entry (s : CallState) (id : UInt32) : Option WsMsgReply :=
  wsGetReplyByMsgId id.toInt32 s.replies

/-- The steps of `callStep`, one constructor for each outcome. -/
inductive CallStep (cbSet : Bool) : StepRel CallState CallOp CallOut
  | insertFailed {s : CallState} {id : UInt32} {m k : Bool} {ret : Int32}
      (hp : s.phase id = .idle) (hret : ret ≠ leSuccess) :
      CallStep cbSet s (.insert id m k) { ret := some ret } (s.setPhase id (.done ret))
  | inserted {s : CallState} {id : UInt32} (hp : s.phase id = .idle) :
      CallStep cbSet s (.insert id true true) {}
        ({ s with replies := ⟨id.toInt32, leErrorUnknown, none, 0⟩ :: s.replies }.setPhase id
          .inserted)
  | addMsg {s : CallState} {id : UInt32} {ret : Int32} (hp : s.phase id = .inserted) :
      CallStep cbSet s (.addMsg id ret) {}
        (s.setPhase id (if ret ≠ leSuccess then .sendFailed ret else .sent))
  | notLocated {s : CallState} {id : UInt32} (hp : s.phase id = .sent)
      (hr : s.entry id = none) :
      CallStep cbSet s (.locate id) (resultOut leErrorInvaildParam 0)
        (s.setPhase id (.done (sendMethodRet leErrorInvaildParam 0)))
  | located {s : CallState} {id : UInt32} {r : WsMsgReply} (hp : s.phase id = .sent)
      (hr : s.entry id = some r) :
      CallStep cbSet s (.locate id) {} (s.setPhase id .located)
  | clock {s : CallState} {id : UInt32} {ok : Bool} (hp : s.phase id = .located) :
      CallStep cbSet s (.clock id ok) {} (s.setPhase id (if ok then .waiting else .clockFailed))
  | wake {s : CallState} {id : UInt32} {r : WsMsgReply} (hp : s.phase id = .waiting)
      (hr : s.entry id = some r) (hsem : r.sem ≠ 0) :
      CallStep cbSet s (.wake id) {}
        ({ s with replies := semTake id.toInt32 s.replies }.setPhase id .woken)
  | timeout {s : CallState} {id : UInt32} {r : WsMsgReply} (hp : s.phase id = .waiting)
      (hr : s.entry id = some r) (hsem : r.sem = 0) :
      CallStep cbSet s (.timeout id) {} (s.setPhase id .timedOut)
  | readCode {s : CallState} {id : UInt32} {r : WsMsgReply} (hp : s.phase id = .woken)
      (hr : s.entry id = some r) :
      CallStep cbSet s (.readCode id) {} (s.setPhase id (.replied r.code))
  | remove {s : CallState} {id : UInt32} {o : CallOut} {p : CallPhase}
      (hp : (s.phase id).onRemove = some (o, p)) :
      CallStep cbSet s (.remove id) o
        ({ s with replies := wsRemoveReply id.toInt32 s.replies }.setPhase id p)
  | reportFailed {s : CallState} {id : UInt32} {ret : Int32} (hp : s.phase id = .idle) :
      CallStep cbSet s (.report id ret) {} (s.setPhase id (.reportFailed ret))
  | reported {s : CallState} {id : UInt32} {ret : Int32} (hp : s.phase id = .idle) :
      CallStep cbSet s (.report id ret) { ret := some ret } (s.setPhase id (.reported ret))
  | ignored {s : CallState} {m c : Int32} : CallStep cbSet s (.respond m c none) {} s
  | unknown {s : CallState} {m c : Int32} {text : List UInt8}
      (hr : s.entry m.toUInt32 = none) :
      CallStep cbSet s (.respond m c (some text))
        { replyCb := if cbSet then some (m.toUInt32, c) else none } s
  | answered {s : CallState} {m c : Int32} {text : List UInt8} {r : WsMsgReply}
      (hr : s.entry m.toUInt32 = some r) :
      CallStep cbSet s (.respond m c (some text)) {}
        { s with replies :=
          KeyedList.modify WsMsgReply.msgId m (·.setResult c (some text)) s.replies }

/-- Every step of `callStep` is one of these. -/
theorem CallStep.of_callStep {cbSet : Bool} {s t : CallState} {a : CallOp} {o : CallOut}
    (h : callStep cbSet s a = some (o, t)) : CallStep cbSet s a o t := by
  cases a with
  | insert id m k =>
    simp only [callStep] at h
    split at h
    · next hp =>
      split at h
      · next hret =>
        obtain ⟨rfl, rfl⟩ := Prod.mk.inj (Option.some.inj h)
        exact .insertFailed hp hret
      · next hret =>
        obtain ⟨rfl, rfl⟩ := Prod.mk.inj (Option.some.inj h)
        obtain ⟨rfl, rfl, heq⟩ := wsInsertReply_success (not_not.mp hret)
        rw [heq]
        exact .inserted hp
    · cases h
  | addMsg id ret =>
    simp only [callStep] at h
    split at h
    · next hp =>
      obtain ⟨rfl, rfl⟩ := Prod.mk.inj (Option.some.inj h)
      exact .addMsg hp
    · cases h
  | locate id =>
    simp only [callStep] at h
    split at h
    · next hp =>
      split at h
      · next hr =>
        obtain ⟨rfl, rfl⟩ := Prod.mk.inj (Option.some.inj h)
        exact .notLocated hp hr
      · next hr =>
        obtain ⟨rfl, rfl⟩ := Prod.mk.inj (Option.some.inj h)
        exact .located hp hr
    · cases h
  | clock id ok =>
    simp only [callStep] at h
    split at h
    · next hp =>
      obtain ⟨rfl, rfl⟩ := Prod.mk.inj (Option.some.inj h)
      exact .clock hp
    · cases h
  | wake id =>
    obtain ⟨r, hr, h⟩ := Option.bind_eq_some_iff.mp h
    split at h
    · next hp =>
      obtain ⟨rfl, rfl⟩ := Prod.mk.inj (Option.some.inj h)
      exact .wake hp.1 hr hp.2
    · cases h
  | timeout id =>
    obtain ⟨r, hr, h⟩ := Option.bind_eq_some_iff.mp h
    split at h
    · next hp =>
      obtain ⟨rfl, rfl⟩ := Prod.mk.inj (Option.some.inj h)
      exact .timeout hp.1 hr hp.2
    · cases h
  | readCode id =>
    obtain ⟨r, hr, h⟩ := Option.bind_eq_some_iff.mp h
    split at h
    · next hp =>
      obtain ⟨rfl, rfl⟩ := Prod.mk.inj (Option.some.inj h)
      exact .readCode hp hr
    · cases h
  | remove id =>
    obtain ⟨⟨o', p⟩, hp, h⟩ := Option.bind_eq_some_iff.mp h
    obtain ⟨rfl, rfl⟩ := Prod.mk.inj (Option.some.inj h)
    exact .remove hp
  | report id ret =>
    simp only [callStep] at h
    split at h
    · next hp =>
      split at h
      · obtain ⟨rfl, rfl⟩ := Prod.mk.inj (Option.some.inj h)
        exact .reportFailed hp
      · obtain ⟨rfl, rfl⟩ := Prod.mk.inj (Option.some.inj h)
        exact .reported hp
    · cases h
  | respond m c payload =>
    cases payload with
    | none =>
      obtain ⟨rfl, rfl⟩ := Prod.mk.inj (Option.some.inj h)
      exact .ignored
    | some text =>
      cases hr : wsGetReplyByMsgId m s.replies with
      | none =>
        have hne : leErrorUnknown ≠ leSuccess := by decide
        simp only [callStep, wsSetReplyResult_absent hr, hne, ne_eq, not_false_eq_true,
          true_and] at h
        obtain ⟨rfl, rfl⟩ := Prod.mk.inj (Option.some.inj h)
        exact .unknown hr
      | some r =>
        simp only [callStep, wsSetReplyResult_present hr] at h
        obtain ⟨rfl, rfl⟩ := Prod.mk.inj (Option.some.inj h)
        exact .answered hr

end LedaSdk.Leda
