import LedaSdk.AliWs.BufferMgmt

/-!
# Starting and stopping the websocket client

`sdk/utility/ali_ws/ws_client.c:16–95` and `ws_client.h`: `wsc_init` and
`ws_client_destroy` on the globals of the client. The network thread is counted here and
runs elsewhere. A `char *` is an address or null.
-/

namespace LedaSdk.AliWs
open LedaSdk.Base

/-- A pointer: the address of what it points to, or null. -/
abbrev Ptr := Option Nat

/-- `wsc_param_conn`, `ws_client.h:4–11`; `wsc_conn_t` (`leda.c:91–99`) has the same members. -/
structure WscParamConn where
  url : Ptr
  timeout : Int32
  caPath : Ptr
  certPath : Ptr
  keyPath : Ptr
  protocol : Ptr
  deriving DecidableEq

/-- The functions that are registered with the client, `leda.c:792–875`. -/
inductive WscCallback where
  | cbWsEstab
  | cbWsClose
  | cbWsRecv
  deriving DecidableEq

/-- `wsc_param_cb`, `ws_client.h:35–42`, without the users' data, which is null. -/
structure WscParamCb where
  pCbEstablish : Option WscCallback
  pCbClose : Option WscCallback
  pCbRecv : Option WscCallback
  deriving DecidableEq

/-- The globals `g_cbs`, `force_exit` and those of the message buffers, and the number of
network threads that have been started. -/
structure WsClient where
  gCbs : Option WscParamCb
  forceExit : Bool
  buf : WsBuf
  networkThreads : Nat
  deriving DecidableEq

/-- The globals before any call. -/
def WsClient.zero : WsClient := ⟨none, false, .zero, 0⟩

/-- Results of the system calls made by one `wsc_init`. -/
structure WscInitEnv where
  cbsOk : Bool
  buf : InitEnv
  threadOk : Bool

/-- `wsc_init`, `ws_client.c:19–70`. -/
def wscInit (env : WscInitEnv) (pc : WscParamConn) (cb : WscParamCb) (w : WsClient) :
    Int32 × WsClient :=
  if pc.url = none then (leErrorInvaildParam, w)
  else if env.cbsOk = false then (leErrorAllocatingMem, { w with gCbs := none })
  else
    let w := { w with gCbs := some cb, forceExit := false }
    let (ret, buf) := clientBufMgmtInit env.buf wscInitSingleBufSize wscInitMaxBufCnt w.buf
    if ret ≠ leSuccess then (ret, { w with gCbs := none, buf := buf })
    else if env.threadOk then
      (leSuccess, { w with buf := buf, networkThreads := w.networkThreads + 1 })
    else (leErrorUnknown, { w with gCbs := none, buf := (clientBufMgmtDestroy buf).2 })

/-- `ws_client_destroy`, `ws_client.c:81–95`. -/
def wsClientDestroy (w : WsClient) : Int32 × WsClient :=
  let (ret, buf) := clientBufMgmtDestroy w.buf
  (ret, { w with forceExit := true, gCbs := none, buf := buf })

section Lemmas
variable {env : WscInitEnv} {pc : WscParamConn} {cb : WscParamCb} {w : WsClient}

/-- Starting the client with a URL registers the callbacks exactly if it succeeds. -/
theorem gCbs_wscInit (hurl : pc.url ≠ none) :
    (wscInit env pc cb w).2.gCbs = if (wscInit env pc cb w).1 = leSuccess then some cb else none := by
  rw [wscInit, if_neg hurl]
  by_cases hcbs : env.cbsOk = false
  · rw [if_pos hcbs]
    rfl
  · rw [if_neg hcbs]
    by_cases hret :
        (clientBufMgmtInit env.buf wscInitSingleBufSize wscInitMaxBufCnt w.buf).1 = leSuccess
    · cases env.threadOk with
      | true => simp [hret]
      | false => simp [hret, leErrorUnknown_ne]
    · simp [hret]

end Lemmas

/-- An initialisation of the queue leaves a row exactly if it succeeds. -/
theorem items_clientBufMgmtInit (env : InitEnv) (size count : Int32) {b : WsBuf}
    (hb : b.items = none) :
    (clientBufMgmtInit env size count b).1 = leSuccess ↔
      (clientBufMgmtInit env size count b).2.items ≠ none := by
  have hmem : leErrorAllocatingMem ≠ leSuccess := by decide
  have hmutex : leErrorCreatingMutex ≠ leSuccess := by decide
  unfold clientBufMgmtInit
  split
  · dsimp only
    split
    · split
      · exact iff_of_true rfl (Option.some_ne_none _)
      · exact iff_of_false hmem (not_not.mpr rfl)
    · exact iff_of_false hmem (not_not.mpr rfl)
  · exact iff_of_false hmutex (not_not.mpr hb)

theorem items_clientBufMgmtDestroy (b : WsBuf) : (clientBufMgmtDestroy b).2.items = none := by
  unfold clientBufMgmtDestroy
  split
  · next h => exact h
  · rfl

/-- What `wsc_init` leaves where it finds no queue: the callbacks, the queue and one more
network thread if it succeeds, and neither callbacks nor queue if it fails. -/
theorem wscInit_cases (env : WscInitEnv) (pc : WscParamConn) (cb : WscParamCb)
    {w : WsClient} (hcbs : w.gCbs = none) (hbuf : w.buf.items = none) :
    ((wscInit env pc cb w).1 ≠ leSuccess ∧ ∃ flag buf, buf.items = none ∧
      (flag = w.forceExit ∨ flag = false) ∧
      (wscInit env pc cb w).2 = { w with gCbs := none, forceExit := flag, buf := buf }) ∨
    ((wscInit env pc cb w).1 = leSuccess ∧ ∃ buf, buf.items ≠ none ∧
      (wscInit env pc cb w).2 = { w with
        gCbs := some cb, forceExit := false, buf := buf,
        networkThreads := w.networkThreads + 1 }) := by
  have hmem : leErrorAllocatingMem ≠ leSuccess := by decide
  have hparam : leErrorInvaildParam ≠ leSuccess := by decide
  have hitems := items_clientBufMgmtInit env.buf wscInitSingleBufSize wscInitMaxBufCnt hbuf
  rw [wscInit]
  by_cases hurl : pc.url = none
  · rw [if_pos hurl]
    exact .inl ⟨hparam, w.forceExit, w.buf, hbuf, .inl rfl, by rw [← hcbs]⟩
  rw [if_neg hurl]
  by_cases hok : env.cbsOk = false
  · rw [if_pos hok]
    exact .inl ⟨hmem, w.forceExit, w.buf, hbuf, .inl rfl, rfl⟩
  rw [if_neg hok]
  by_cases hret : (clientBufMgmtInit env.buf wscInitSingleBufSize wscInitMaxBufCnt w.buf).1 = leSuccess
  · cases hthread : env.threadOk with
    | true =>
      right
      simp only [hret, ne_eq, not_true_eq_false, if_false, if_true]
      exact ⟨trivial, _, hitems.mp hret, rfl⟩
    | false =>
      left
      simp only [hret, ne_eq, not_true_eq_false, if_false, Bool.false_eq_true]
      exact ⟨leErrorUnknown_ne, false, _, items_clientBufMgmtDestroy _, .inr rfl, rfl⟩
  · left
    simp only [hret, ne_eq, not_false_eq_true, if_true]
    exact ⟨trivial, false, _, not_not.mp (mt hitems.mpr hret), .inr rfl, rfl⟩

end LedaSdk.AliWs
