import Mathlib.Data.Option.Basic

/-!
# The network thread and its connections

`sdk/utility/ali_ws/ws_client_network.c:137–149` and `ws_client_callback.c:46–88`: the loop
of `thread_wsc_network` makes a connection whenever `g_wsi` is null, and the callbacks of
libwebsockets announce that it is established or over. Connections are numbered in the
order in which they are made. `cb_ws_estab` and `cb_ws_close` keep `g_conn_state` in step.
-/

namespace LedaSdk.AliWs

/-- The callback reasons that end a connection, `ws_client_callback.c:74–85`. -/
inductive CloseReason where
  | connectionError
  | closed
  deriving DecidableEq

/-- Where the network thread is between two of its actions. -/
inductive NetPoint where
  /-- In the loop of `thread_wsc_network`. -/
  | loop
  /-- In the callback for the end of a connection, after `p_cb_close`. -/
  | closing (reason : CloseReason)
  /-- In the callback for `CLOSED`, after `g_wsi = NULL`. -/
  | clearing
  deriving DecidableEq

/-- The connection that `g_wsi` points to, how many have been made, whether `g_conn_state` is
`LEDA_WS_CONNECTED`, and the point of the network thread. -/
structure Network where
  gWsi : Option Nat
  made : Nat
  connected : Bool
  point : NetPoint
  deriving DecidableEq

/-- No connection yet. -/
def Network.start : Network := ⟨none, 0, false, .loop⟩

/-- What the network thread does to its connection. -/
inductive NetOp where
  /-- `lws_client_connect_via_info`, which sets `g_wsi` if it succeeds. -/
  | connect (ok : Bool)
  | establish
  /-- The end of the connection is announced and `cb_ws_close` runs. -/
  | close (reason : CloseReason)
  /-- `g_wsi = NULL` in the callback. -/
  | resetWsi
  /-- `buf_mgmt_client_clear_msg` in the callback. -/
  | clear
  deriving DecidableEq

/-- One action of the network thread. -/
def Network.step (n : Network) : NetOp → Option Network
  | .connect ok =>
    if n.point = .loop ∧ n.gWsi = none then
      if ok then some { n with gWsi := some n.made, made := n.made + 1 } else some n
    else none
  | .establish =>
    if n.point = .loop ∧ n.gWsi ≠ none ∧ n.connected = false then some { n with connected := true }
    else none
  | .close reason =>
    if n.point = .loop ∧ n.gWsi ≠ none then
      some { n with connected := false, point := .closing reason }
    else none
  | .resetWsi =>
    match n.point with
    | .closing .connectionError => some { n with gWsi := none, point := .loop }
    | .closing .closed => some { n with gWsi := none, point := .clearing }
    | _ => none
  | .clear => if n.point = .clearing then some { n with point := .loop } else none

/-- `g_conn_state` says connected only while `g_wsi` points to the last connection made and
none is being closed. -/
structure Network.Coherent (n : Network) : Prop where
  last : ∀ conn, n.gWsi = some conn → n.made = conn + 1
  connected_loop : n.connected = true → n.point = .loop
  connected_wsi : n.connected = true → n.gWsi ≠ none

/-- A clear of the queue is still to come in the callback that runs. -/
def Network.ClearAhead (n : Network) : Prop := n.point = .closing .closed ∨ n.point = .clearing

instance (n : Network) : Decidable n.ClearAhead := inferInstanceAs (Decidable (_ ∨ _))

namespace Network
variable {n n' : Network} {op : NetOp}

theorem coherent_start : start.Coherent where
  last _ h := nomatch h
  connected_loop h := nomatch h
  connected_wsi h := nomatch h

/-- What each action finds and leaves. -/
theorem step_cases (h : n.step op = some n') :
    (∃ ok, op = .connect ok ∧ n.point = .loop ∧ n.gWsi = none ∧
      n' = if ok then { n with gWsi := some n.made, made := n.made + 1 } else n) ∨
    (op = .establish ∧ n.point = .loop ∧ n.gWsi ≠ none ∧ n.connected = false ∧
      n' = { n with connected := true }) ∨
    (∃ reason, op = .close reason ∧ n.point = .loop ∧ n.gWsi ≠ none ∧
      n' = { n with connected := false, point := .closing reason }) ∨
    (op = .resetWsi ∧ n.point = .closing .connectionError ∧
      n' = { n with gWsi := none, point := .loop }) ∨
    (op = .resetWsi ∧ n.point = .closing .closed ∧
      n' = { n with gWsi := none, point := .clearing }) ∨
    (op = .clear ∧ n.point = .clearing ∧ n' = { n with point := .loop }) := by
  cases op with
  | connect ok =>
    left
    simp only [step] at h
    split at h
    · next hc =>
      refine ⟨ok, rfl, hc.1, hc.2, ?_⟩
      cases ok <;> exact (Option.some.inj h).symm
    · cases h
  | establish =>
    right; left
    simp only [step] at h
    split at h
    · next hc => exact ⟨rfl, hc.1, hc.2.1, hc.2.2, (Option.some.inj h).symm⟩
    · cases h
  | close reason =>
    right; right; left
    simp only [step] at h
    split at h
    · next hc => exact ⟨reason, rfl, hc.1, hc.2, (Option.some.inj h).symm⟩
    · cases h
  | resetWsi =>
    right; right; right
    simp only [step] at h
    split at h
    · next hp => exact .inl ⟨rfl, hp, (Option.some.inj h).symm⟩
    · next hp => exact .inr (.inl ⟨rfl, hp, (Option.some.inj h).symm⟩)
    · cases h
  | clear =>
    right; right; right; right; right
    simp only [step] at h
    split at h
    · next hp => exact ⟨rfl, hp, (Option.some.inj h).symm⟩
    · cases h

/-- Every action keeps `g_conn_state` in step. -/
theorem Coherent.step (hn : n.Coherent) (h : n.step op = some n') : n'.Coherent := by
  have hdown (m : Network) (hlast : ∀ conn, m.gWsi = some conn → m.made = conn + 1)
      (hoff : m.connected = false) : m.Coherent :=
    ⟨hlast, fun hc ↦ absurd (hoff.symm.trans hc) (by decide),
      fun hc ↦ absurd (hoff.symm.trans hc) (by decide)⟩
  have hoff (hpoint : n.point ≠ .loop) : n.connected = false :=
    Bool.eq_false_iff.mpr fun hc ↦ hpoint (hn.connected_loop hc)
  rcases step_cases h with ⟨ok, -, -, hw, rfl⟩ | ⟨-, hp, hw, -, rfl⟩ | ⟨reason, -, -, -, rfl⟩ |
    ⟨-, hp, rfl⟩ | ⟨-, hp, rfl⟩ | ⟨-, hp, rfl⟩
  · cases ok with
    | false => exact hn
    | true =>
      refine hdown _ (fun conn hc ↦ ?_) (Bool.eq_false_iff.mpr fun hc ↦ hn.connected_wsi hc hw)
      cases hc
      rfl
  · exact ⟨hn.last, fun _ ↦ hp, fun _ ↦ hw⟩
  · exact hdown _ hn.last rfl
  · exact hdown _ (fun conn hc ↦ nomatch hc) (hoff (by rw [hp]; decide))
  · exact hdown _ (fun conn hc ↦ nomatch hc) (hoff (by rw [hp]; decide))
  · exact hdown _ hn.last (hoff (by rw [hp]; decide))

/-- The loop has no clear ahead. -/
theorem not_clearAhead_of_loop (hp : n.point = .loop) : ¬ n.ClearAhead := by
  rintro (h | h) <;> cases hp.symm.trans h

/-- While a connection is up no clear is to come. -/
theorem Coherent.not_clearAhead (hn : n.Coherent) (hup : n.connected = true) : ¬ n.ClearAhead :=
  not_clearAhead_of_loop (hn.connected_loop hup)

end Network

end LedaSdk.AliWs
