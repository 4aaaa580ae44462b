import LedaSdk.AliWs.Fifo
import LedaSdk.AliWs.Network

/-!
# Wake-ups of the network thread

`notify_network` (`ws_client_network.c:61–65`) asks for a `CLIENT_WRITEABLE` callback after a
push and after a pop that emptied a slot (`wsc_buffer_mgmt.c:94–97,128–131`). The update of the
queue and the request are separate steps, so other threads and the end of the connection come
between them. On an established connection each request is answered by one callback. Before,
`g_wsi` is set already, but the handshake of libwebsockets uses the same writable events for
itself and drops what was asked for.
-/

namespace LedaSdk.AliWs
open LedaSdk.Base

/-- The network thread, the queue, the requests that are outstanding on the connection of
`g_wsi`, the pushes that have yet to call `notify_network`, and whether a pop has. -/
structure WakeState where
  net : Network
  buf : WsBuf
  requests : Nat
  notifying : Nat
  popped : Bool

/-- The state after the initialisation of the queue. -/
def WakeState.start (buf : WsBuf) : WakeState := ⟨.start, buf, 0, 0, false⟩

/-- `notify_network`, `ws_client_network.c:61–65`. -/
def notifyNetwork (s : WakeState) : WakeState :=
  if s.net.gWsi = none then s else { s with requests := s.requests + 1 }

/-- A step of a thread that pushes or of the network thread. -/
inductive WakeOp where
  /-- `client_buf_mgmt_push` up to its unlock, on any thread. -/
  | push (msg : List UInt8) (type : Int32) (reallocOk : Bool)
  /-- The `notify_network` of a push. -/
  | notify
  /-- `client_buf_mgmt_pop` up to its unlock, in the callback for `CLIENT_WRITEABLE`. -/
  | writeable (cb : Offer → Int32)
  /-- The `notify_network` of a pop. -/
  | notifyPop
  /-- A writable event before the connection is established: libwebsockets takes it for the
  handshake and drops what was asked for. -/
  | handshake
  | net (op : NetOp)

/-- One step; `none` also where the queue would access memory outside a block. -/
def wakeStep (lwsPre : Nat) (s : WakeState) : WakeOp → Option (Option Outcome × WakeState)
  | .push msg type reallocOk => do
    let (o, buf) ← clientBufMgmtPush lwsPre reallocOk (some msg) type s.buf
    some (some o, { s with buf := buf, notifying := s.notifying + if o.notify then 1 else 0 })
  | .notify =>
    if 0 < s.notifying then
      some (none, notifyNetwork { s with notifying := s.notifying - 1 })
    else none
  | .writeable cb =>
    if s.popped = false ∧ s.net.connected = true ∧ 0 < s.requests then do
      let (o, buf) ← clientBufMgmtPop lwsPre cb s.buf
      some (some o, { s with buf := buf, requests := s.requests - 1, popped := o.notify })
    else none
  | .notifyPop =>
    if s.popped then some (none, notifyNetwork { s with popped := false }) else none
  | .handshake =>
    if s.popped = false ∧ s.net.point = .loop ∧ s.net.gWsi ≠ none ∧ s.net.connected = false then
      some (none, { s with requests := 0 })
    else none
  | .net op =>
    if s.popped then none
    else do
      let net ← s.net.step op
      match op with
      | .connect true => some (none, { s with net := net, requests := 0 })
      | .clear => do
        let buf ← bufMgmtClientClearMsg s.buf
        some (none, { s with net := net, buf := buf })
      | _ => some (none, { s with net := net })

/-- The slot at the read position holds a message. -/
def WsBuf.ReadSlotFull (g : WsBuf) : Prop :=
  ∃ item, g.slots[CyclicQueue.norm g.state.maxBufCnt g.state.rdIndex]? = some item ∧
    item.bufLen ≠ 0

/-- No queued message is without a pending wake-up: on an established connection, with no
push or pop about to notify, a request is outstanding if the read position holds a message. -/
def WakeState.WakeUpOutstanding (s : WakeState) : Prop :=
  s.net.connected = true → s.notifying = 0 → s.popped = false → s.buf.ReadSlotFull →
    0 < s.requests

/-- What a pop would offer. -/
def WsBuf.readOffer (lwsPre : Nat) (g : WsBuf) : Option Offer :=
  ((g.queue lwsPre).cells[(g.queue lwsPre).rdPos]?).join

/-- Steps that lose no wake-up: a push notifies an established connection, or another push or a
clear is to come; a pop is taken whole, or another push or request is to come; and no
connection ends by `CONNECTION_ERROR` with a message at the read position. -/
def KeepsWakeUp (lwsPre : Nat) (s : WakeState) : WakeOp → Prop
  | .notify =>
    s.buf.ReadSlotFull →
      1 < s.notifying ∨ s.net.connected = true ∨ s.net.ClearAhead
  | .writeable cb =>
    ∀ offer, s.buf.readOffer lwsPre = some offer →
      SizeTakes (cb offer) offer.bufLen ∨ 0 < s.notifying ∨ 1 < s.requests
  | .net (.close .connectionError) => s.buf.ReadSlotFull → 0 < s.notifying
  | _ => True

/-! ### The read position -/

section ReadPosition
variable {lwsPre count : Nat} {size : Int32} {g g' : WsBuf} {o : Outcome}

theorem WsBuf.Ready.readSlotFull_iff (hg : g.Ready lwsPre size count) :
    g.ReadSlotFull ↔ g.readOffer lwsPre ≠ none := by
  have hcell : g.readOffer lwsPre =
      (g.slots[CyclicQueue.norm g.state.maxBufCnt g.state.rdIndex]?).bind
        (MsgBufItem.content lwsPre) := by
    rw [readOffer, queue_cell, hg.rdPos_eq]
  rw [hcell]
  cases hslot : g.slots[CyclicQueue.norm g.state.maxBufCnt g.state.rdIndex]? with
  | none => simp [ReadSlotFull, hslot]
  | some item => simp [ReadSlotFull, hslot]

/-- A push that does not notify leaves the read position as it was. -/
theorem WsBuf.Ready.push {msg : List UInt8} {type : Int32} {ok : Bool} (hpre : 0 < lwsPre)
    (hsize : lwsPre < size.toInt) (hg : g.Ready lwsPre size count)
    (h : clientBufMgmtPush lwsPre ok (some msg) type g = some (o, g')) :
    g'.Ready lwsPre size count ∧ (o.notify = true ∨ o.notify = false ∧
      g'.readOffer lwsPre = g.readOffer lwsPre) := by
  rcases clientBufMgmtPush_cases hpre hsize hg h with ⟨-, -, rfl, -, heq, hg'⟩ | ⟨-, rfl, -, hg'⟩
  · refine ⟨hg', .inr ⟨rfl, ?_⟩⟩
    rw [readOffer, heq, CyclicQueue.rdPos_wrapWr]
    rfl
  · exact ⟨hg', .inl rfl⟩

/-- A pop notifies exactly if it offered a message that was taken whole; else it leaves the
read position as it was. -/
theorem WsBuf.Ready.pop {cb : Offer → Int32} (hg : g.Ready lwsPre size count)
    (h : clientBufMgmtPop lwsPre cb g = some (o, g')) :
    g'.Ready lwsPre size count ∧
      ((o.notify = true ∧ ∃ offer, g.readOffer lwsPre = some offer ∧
          SizeTakes (cb offer) offer.bufLen) ∨
        (o.notify = false ∧ g'.readOffer lwsPre = g.readOffer lwsPre ∧
          ∀ offer, g.readOffer lwsPre = some offer → ¬ SizeTakes (cb offer) offer.bufLen)) := by
  have hwrap (heq : g'.queue lwsPre = (g.queue lwsPre).wrapRd) :
      g'.readOffer lwsPre = g.readOffer lwsPre := by
    rw [readOffer, heq, CyclicQueue.rdPos_wrapRd]
    rfl
  rcases clientBufMgmtPop_cases hg h with ⟨hnone, rfl, -, heq, hg'⟩ |
    ⟨a, hsome, hlt, rfl, -, heq, hg'⟩ | ⟨a, hsome, hle, rfl, -, hg'⟩
  · refine ⟨hg', .inr ⟨rfl, hwrap heq, fun offer ho ↦ ?_⟩⟩
    cases hnone.symm.trans ho
  · refine ⟨hg', .inr ⟨rfl, hwrap heq, fun offer ho ↦ ?_⟩⟩
    obtain rfl := Option.some.inj (hsome.symm.trans ho)
    exact Nat.not_le.mpr hlt
  · exact ⟨hg', .inl ⟨rfl, a, hsome, hle⟩⟩

/-- After a clear the read position is empty. -/
theorem WsBuf.Ready.clear (hpre : 0 < lwsPre) (hsize : lwsPre < size.toInt)
    (hg : g.Ready lwsPre size count) (h : bufMgmtClientClearMsg g = some g') :
    g'.Ready lwsPre size count ∧ ¬ g'.ReadSlotFull := by
  have hstep : AliWs.queueStep lwsPre g .clear = some ({ ret := leSuccess }, g') := by
    rw [AliWs.queueStep, h]
    rfl
  refine ⟨hg.queueStep hpre hsize hstep, ?_⟩
  rintro ⟨item, hitem, hne⟩
  simp only [bufMgmtClientClearMsg, hg.items_eq, Option.bind_eq_bind, Option.bind_some] at h
  split at h
  · next hle =>
    rw [← Option.some.inj h, WsBuf.slots_some] at hitem
    have hzero (n : Nat) : CyclicQueue.norm n 0 = 0 := by
      unfold CyclicQueue.norm
      split <;> rfl
    rw [hzero, List.getElem?_append_left (by
      rw [List.length_map, List.length_take, Nat.min_eq_left hle]; decide),
      List.getElem?_map] at hitem
    obtain ⟨old, -, rfl⟩ := Option.map_eq_some_iff.mp hitem
    exact hne rfl
  · cases h

end ReadPosition

/-! ### The invariant -/

/-- A wake-up is due: a push or a pop is yet to notify, a request is outstanding on an
established connection, or a clear is to come. -/
def WakeState.Due (s : WakeState) : Prop :=
  0 < s.notifying ∨ s.popped = true ∨ (0 < s.requests ∧ s.net.connected = true) ∨
    s.net.ClearAhead

/-- The queue is ready, and a wake-up is due whenever the read position holds a message. -/
structure WakeState.WakeInv (lwsPre count : Nat) (size : Int32) (s : WakeState) : Prop where
  ready : s.buf.Ready lwsPre size count
  coherent : s.net.Coherent
  popped_connected : s.popped = true → s.net.connected = true
  due : s.buf.readOffer lwsPre ≠ none → s.Due

section Steps
variable {lwsPre count : Nat} {size : Int32} {s s' : WakeState} {op : WakeOp}
  {out : Option Outcome}

private theorem notifyNetwork_cases (s : WakeState) :
    (s.net.gWsi = none ∧ notifyNetwork s = s) ∨
      (s.net.gWsi ≠ none ∧ notifyNetwork s = { s with requests := s.requests + 1 }) := by
  by_cases h : s.net.gWsi = none
  · exact .inl ⟨h, if_pos h⟩
  · exact .inr ⟨h, if_neg h⟩

/-- What each step finds and leaves. -/
theorem wakeStep_cases (h : wakeStep lwsPre s op = some (out, s')) :
    (∃ msg type ok o buf, op = .push msg type ok ∧
      clientBufMgmtPush lwsPre ok (some msg) type s.buf = some (o, buf) ∧
      s' = { s with buf := buf, notifying := s.notifying + if o.notify then 1 else 0 }) ∨
    (op = .notify ∧ 0 < s.notifying ∧
      s' = notifyNetwork { s with notifying := s.notifying - 1 }) ∨
    (∃ cb o buf, op = .writeable cb ∧ s.popped = false ∧ s.net.connected = true ∧
      0 < s.requests ∧ clientBufMgmtPop lwsPre cb s.buf = some (o, buf) ∧
      s' = { s with buf := buf, requests := s.requests - 1, popped := o.notify }) ∨
    (op = .notifyPop ∧ s.popped = true ∧ s' = notifyNetwork { s with popped := false }) ∨
    (op = .handshake ∧ s.net.connected = false ∧ s' = { s with requests := 0 }) ∨
    (∃ netOp net, op = .net netOp ∧ s.popped = false ∧ s.net.step netOp = some net ∧
      ((netOp = .connect true ∧ s' = { s with net := net, requests := 0 }) ∨
        (∃ buf, netOp = .clear ∧ bufMgmtClientClearMsg s.buf = some buf ∧
          s' = { s with net := net, buf := buf }) ∨
        (netOp ≠ .connect true ∧ netOp ≠ .clear ∧ s' = { s with net := net }))) := by
  cases op with
  | push msg type ok =>
    left
    obtain ⟨⟨o, buf⟩, hpush, h⟩ := Option.bind_eq_some_iff.mp h
    obtain ⟨-, rfl⟩ := Prod.mk.inj (Option.some.inj h)
    exact ⟨msg, type, ok, o, buf, rfl, hpush, rfl⟩
  | notify =>
    right; left
    simp only [wakeStep] at h
    split at h
    · next hn => exact ⟨rfl, hn, (Prod.mk.inj (Option.some.inj h)).2.symm⟩
    · cases h
  | writeable cb =>
    right; right; left
    simp only [wakeStep] at h
    split at h
    · next hc =>
      obtain ⟨⟨o, buf⟩, hpop, h⟩ := Option.bind_eq_some_iff.mp h
      obtain ⟨-, rfl⟩ := Prod.mk.inj (Option.some.inj h)
      exact ⟨cb, o, buf, rfl, hc.1, hc.2.1, hc.2.2, hpop, rfl⟩
    · cases h
  | notifyPop =>
    right; right; right; left
    simp only [wakeStep] at h
    split at h
    · next hp => exact ⟨rfl, hp, (Prod.mk.inj (Option.some.inj h)).2.symm⟩
    · cases h
  | handshake =>
    right; right; right; right; left
    simp only [wakeStep] at h
    split at h
    · next hc => exact ⟨rfl, hc.2.2.2, (Prod.mk.inj (Option.some.inj h)).2.symm⟩
    · cases h
  | net netOp =>
    right; right; right; right; right
    simp only [wakeStep] at h
    split at h
    · cases h
    · next hp =>
      obtain ⟨net, hnet, h⟩ := Option.bind_eq_some_iff.mp h
      refine ⟨netOp, net, rfl, by simpa using hp, hnet, ?_⟩
      split at h
      · exact .inl ⟨rfl, (Prod.mk.inj (Option.some.inj h)).2.symm⟩
      · obtain ⟨buf, hbuf, h⟩ := Option.bind_eq_some_iff.mp h
        exact .inr (.inl ⟨buf, rfl, hbuf, (Prod.mk.inj (Option.some.inj h)).2.symm⟩)
      · next hne hnc => exact .inr (.inr ⟨hne, hnc, (Prod.mk.inj (Option.some.inj h)).2.symm⟩)

/-- An action of the network thread on its connection leaves a wake-up due. -/
private theorem WakeState.Due.net {net : Network} {netOp : NetOp} (hdue : s.Due)
    (hcoherent : s.net.Coherent) (hpopped : s.popped = false)
    (hok : netOp = .close .connectionError → 0 < s.notifying)
    (hstep : s.net.step netOp = some net) (hclear : netOp ≠ .clear) :
    WakeState.Due { s with net := net, requests := if netOp = .connect true then 0 else s.requests } := by
  by_cases hn : 0 < s.notifying
  · exact .inl hn
  · have hdue' : s.net.connected = true ∨ s.net.ClearAhead := by
      rcases hdue with h | h | h | h
      · exact absurd h hn
      · rw [hpopped] at h
        cases h
      · exact .inl h.2
      · exact .inr h
    have hpoint (hp : s.net.point ≠ .loop) (hnot : ¬ s.net.ClearAhead) : False := by
      rcases hdue' with h | h
      · exact hp (hcoherent.connected_loop h)
      · exact hnot h
    rcases Network.step_cases hstep with ⟨ok, rfl, hp, hw, -⟩ | ⟨rfl, hp, -, hoff, -⟩ |
      ⟨reason, rfl, -, -, rfl⟩ | ⟨rfl, hp, rfl⟩ | ⟨rfl, -, rfl⟩ | ⟨rfl, -, -⟩
    · rcases hdue' with h | h
      · exact absurd hw (hcoherent.connected_wsi h)
      · exact absurd h (Network.not_clearAhead_of_loop hp)
    · rcases hdue' with h | h
      · cases hoff.symm.trans h
      · exact absurd h (Network.not_clearAhead_of_loop hp)
    · cases reason with
      | connectionError => exact absurd (hok rfl) hn
      | closed => exact .inr (.inr (.inr (.inl rfl)))
    · refine (hpoint (by rw [hp]; decide) ?_).elim
      rintro (h | h) <;> cases hp.symm.trans h
    · exact .inr (.inr (.inr (.inr rfl)))
    · exact absurd rfl hclear

/-- A step that loses no wake-up keeps the invariant. -/
theorem WakeState.WakeInv.step (hpre : 0 < lwsPre) (hsize : lwsPre < size.toInt)
    (hinv : s.WakeInv lwsPre count size) (hok : KeepsWakeUp lwsPre s op)
    (h : wakeStep lwsPre s op = some (out, s')) : s'.WakeInv lwsPre count size := by
  rcases wakeStep_cases h with ⟨msg, type, ok, o, buf, rfl, hpush, rfl⟩ | ⟨rfl, hn, rfl⟩ |
    ⟨cb, o, buf, rfl, hpopped, hconn, hreq, hpop, rfl⟩ | ⟨rfl, hpopped, rfl⟩ | ⟨rfl, hoff, rfl⟩ |
    ⟨netOp, net, rfl, hpopped, hnet, hcase⟩
  · obtain ⟨hready, hnotify⟩ := hinv.ready.push hpre hsize hpush
    refine ⟨hready, hinv.coherent, hinv.popped_connected, fun hfull ↦ ?_⟩
    rcases hnotify with hyes | ⟨hno, hsame⟩
    · rw [hyes]
      exact .inl (Nat.succ_pos _)
    · rw [hsame] at hfull
      rw [hno]
      exact hinv.due hfull
  · rcases notifyNetwork_cases { s with notifying := s.notifying - 1 } with ⟨hw, heq⟩ | ⟨hw, heq⟩
    · rw [heq]
      refine ⟨hinv.ready, hinv.coherent, hinv.popped_connected, fun hfull ↦ ?_⟩
      rcases hok (hinv.ready.readSlotFull_iff.mpr hfull) with hmore | hconn | hclear
      · exact .inl (Nat.sub_pos_of_lt hmore)
      · exact absurd hw (hinv.coherent.connected_wsi hconn)
      · exact .inr (.inr (.inr hclear))
    · rw [heq]
      refine ⟨hinv.ready, hinv.coherent, hinv.popped_connected, fun hfull ↦ ?_⟩
      rcases hok (hinv.ready.readSlotFull_iff.mpr hfull) with hmore | hconn | hclear
      · exact .inl (Nat.sub_pos_of_lt hmore)
      · exact .inr (.inr (.inl ⟨Nat.succ_pos _, hconn⟩))
      · exact .inr (.inr (.inr hclear))
  · obtain ⟨hready, hnotify⟩ := hinv.ready.pop hpop
    refine ⟨hready, hinv.coherent, fun _ ↦ hconn, fun hfull ↦ ?_⟩
    rcases hnotify with ⟨hyes, -⟩ | ⟨-, hsame, hkept⟩
    · exact .inr (.inl hyes)
    · rw [hsame] at hfull
      obtain ⟨offer, ho⟩ := Option.ne_none_iff_exists'.mp hfull
      rcases hok offer ho with htakes | hn | hmore
      · exact absurd htakes (hkept offer ho)
      · exact .inl hn
      · exact .inr (.inr (.inl ⟨Nat.sub_pos_of_lt hmore, hconn⟩))
  · have hconn := hinv.popped_connected hpopped
    have hw := hinv.coherent.connected_wsi hconn
    rw [notifyNetwork, if_neg hw]
    refine ⟨hinv.ready, hinv.coherent, fun _ ↦ hconn, fun _ ↦ ?_⟩
    exact .inr (.inr (.inl ⟨Nat.succ_pos _, hconn⟩))
  · refine ⟨hinv.ready, hinv.coherent, hinv.popped_connected, fun hfull ↦ ?_⟩
    rcases hinv.due hfull with h | h | ⟨-, h⟩ | h
    · exact .inl h
    · exact .inr (.inl h)
    · cases hoff.symm.trans h
    · exact .inr (.inr (.inr h))
  · have hcoherent := hinv.coherent.step hnet
    have hnone (p : s.popped = true) : False := by rw [hpopped] at p; cases p
    have hdue (hfull : s.buf.readOffer lwsPre ≠ none) (hne : netOp ≠ .clear) :=
      (hinv.due hfull).net hinv.coherent hpopped (fun he ↦ by
        subst he
        exact hok (hinv.ready.readSlotFull_iff.mpr hfull)) hnet hne
    rcases hcase with ⟨rfl, rfl⟩ | ⟨buf, rfl, hbuf, rfl⟩ | ⟨hne, hnc, rfl⟩
    · exact ⟨hinv.ready, hcoherent, fun p ↦ (hnone p).elim, fun hfull ↦ hdue hfull (by decide)⟩
    · obtain ⟨hready, hempty⟩ := hinv.ready.clear hpre hsize hbuf
      refine ⟨hready, hcoherent, fun p ↦ (hnone p).elim, fun hfull ↦ ?_⟩
      exact absurd (hready.readSlotFull_iff.mpr hfull) hempty
    · refine ⟨hinv.ready, hcoherent, fun p ↦ (hnone p).elim, fun hfull ↦ ?_⟩
      have hkeep := hdue hfull hnc
      rw [if_neg hne] at hkeep
      exact hkeep

theorem WakeState.WakeInv.outstanding (hinv : s.WakeInv lwsPre count size) :
    s.WakeUpOutstanding := by
  intro hconn hn hpopped hfull
  rcases hinv.due (hinv.ready.readSlotFull_iff.mp hfull) with h | h | ⟨h, -⟩ | h
  · exact absurd h (by rw [hn]; decide)
  · rw [hpopped] at h
    cases h
  · exact h
  · exact absurd h (hinv.coherent.not_clearAhead hconn)

/-- A message that nobody is about to announce stalls on the next connection to be established. -/
private theorem exists_stall (hfull : s.buf.ReadSlotFull) (hn : s.notifying = 0)
    (hpopped : s.popped = false) (hoff : s.net.connected = false)
    (hpoint : s.net.point = .closing .connectionError ∨ s.net.point = .loop) :
    ∃ tr t, Run (StepRel.ofFn (wakeStep lwsPre)) s tr t ∧ ¬ t.WakeUpOutstanding := by
  obtain ⟨⟨gWsi, made, connected, point⟩, buf, requests, notifying, popped⟩ := s
  dsimp only at hfull hn hpopped hoff hpoint
  subst hn hpopped hoff
  let again : List WakeOp := [.net (.connect true), .net .establish]
  obtain ⟨tr, conn, made', hrun⟩ : ∃ tr conn made', Run (StepRel.ofFn (wakeStep lwsPre))
      ⟨⟨gWsi, made, false, point⟩, buf, requests, 0, false⟩ tr
      ⟨⟨some conn, made', true, .loop⟩, buf, 0, 0, false⟩ := by
    rcases hpoint with rfl | rfl
    · exact ⟨_, _, _, Run.of_exec _ (show exec _ _ (.net .resetWsi :: again) = some (_, _) from rfl)⟩
    · cases gWsi with
      | none => exact ⟨_, _, _, Run.of_exec _ (show exec _ _ again = some (_, _) from rfl)⟩
      | some conn =>
        -- A handshake is under way.
        exact ⟨_, _, _, Run.of_exec _ (show exec _ _ [.handshake, .net .establish] = some (_, _)
          from rfl)⟩
  refine ⟨tr, _, hrun, fun hout ↦ ?_⟩
  exact Nat.lt_irrefl 0 (hout rfl rfl rfl hfull)

/-- A step that loses a wake-up can be followed by others to a message without one. -/
theorem WakeState.WakeInv.exists_stall_of_lost (hinv : s.WakeInv lwsPre count size)
    (hbad : ¬ KeepsWakeUp lwsPre s op) (h : wakeStep lwsPre s op = some (out, s')) :
    ∃ tr t, Run (StepRel.ofFn (wakeStep lwsPre)) s' tr t ∧ ¬ t.WakeUpOutstanding := by
  rcases wakeStep_cases h with ⟨msg, type, ok, o, buf, rfl, -, -⟩ | ⟨rfl, hn, rfl⟩ |
    ⟨cb, o, buf, rfl, -, hconn, -, hpop, rfl⟩ | ⟨rfl, -, -⟩ | ⟨rfl, -, -⟩ |
    ⟨netOp, net, rfl, hpopped, hnet, hcase⟩
  · exact absurd trivial hbad
  · simp only [KeepsWakeUp, Classical.not_imp, not_or] at hbad
    obtain ⟨hfull, hone, hdead, hclear⟩ := hbad
    have hoff : s.net.connected = false := Bool.eq_false_iff.mpr hdead
    have hpopped : s.popped = false := Bool.eq_false_iff.mpr fun hp ↦
      hdead (hinv.popped_connected hp)
    have hpoint : s.net.point = .closing .connectionError ∨ s.net.point = .loop := by
      cases hp : s.net.point with
      | loop => exact .inr rfl
      | closing reason =>
        cases reason with
        | connectionError => exact .inl rfl
        | closed => exact absurd (.inl hp) hclear
      | clearing => exact absurd (.inr hp) hclear
    have hnone : s.notifying - 1 = 0 := by omega
    rcases notifyNetwork_cases { s with notifying := s.notifying - 1 } with ⟨-, heq⟩ | ⟨-, heq⟩
    · rw [heq]
      exact exists_stall hfull hnone hpopped hoff hpoint
    · rw [heq]
      exact exists_stall hfull hnone hpopped hoff hpoint
  · -- The callback did not take the message whole.
    simp only [KeepsWakeUp, not_forall, not_or] at hbad
    obtain ⟨offer, ho, hkept, hn, hreq⟩ := hbad
    obtain ⟨hready, hnotify⟩ := hinv.ready.pop hpop
    rcases hnotify with ⟨-, offer', ho', htakes⟩ | ⟨hno, hsame, -⟩
    · obtain rfl := Option.some.inj (ho.symm.trans ho')
      exact absurd htakes hkept
    · refine ⟨[], _, .nil, fun hout ↦ ?_⟩
      have hfull : buf.ReadSlotFull := by
        rw [hready.readSlotFull_iff, hsame, ho]
        exact Option.some_ne_none _
      have hpos := hout hconn (Nat.eq_zero_of_not_pos hn) hno hfull
      dsimp only at hpos
      omega
  · exact absurd trivial hbad
  · exact absurd trivial hbad
  · have hreason : netOp = .close .connectionError := by
      cases netOp with
      | close reason =>
        cases reason with
        | connectionError => rfl
        | closed => exact absurd trivial hbad
      | connect ok => exact absurd trivial hbad
      | establish => exact absurd trivial hbad
      | resetWsi => exact absurd trivial hbad
      | clear => exact absurd trivial hbad
    subst hreason
    simp only [KeepsWakeUp, Classical.not_imp] at hbad
    rcases hcase with ⟨hno, -⟩ | ⟨buf, hno, -, -⟩ | ⟨-, -, rfl⟩
    · cases hno
    · cases hno
    · rcases Network.step_cases hnet with ⟨ok, hno, -⟩ | ⟨hno, -⟩ | ⟨reason, he, -, -, rfl⟩ |
        ⟨hno, -⟩ | ⟨hno, -⟩ | ⟨hno, -⟩
      · cases hno
      · cases hno
      · cases he
        exact exists_stall hbad.1 (Nat.eq_zero_of_not_pos hbad.2) hpopped rfl (.inl rfl)
      · cases hno
      · cases hno
      · cases hno

end Steps

/-! ### Over whole runs -/

/-- Along every run whose steps lose no wake-up, each queued message has one pending; and a
step that loses one can be followed by others to a message without. -/
theorem wakeUp_outstanding {lwsPre : Nat} {env : InitEnv} {size maxBufCnt : Int32} {g0 g : WsBuf}
    {s : WakeState} {tr : List (WakeOp × Option Outcome)} (hpre : 0 < lwsPre)
    (hsize : lwsPre < size.toInt)
    (hinit : clientBufMgmtInit env size maxBufCnt g0 = (leSuccess, g))
    (hrun : Run (StepRel.guard (KeepsWakeUp lwsPre) (StepRel.ofFn (wakeStep lwsPre)))
      (WakeState.start g) tr s) :
    s.WakeUpOutstanding ∧
      ∀ op out s', wakeStep lwsPre s op = some (out, s') → ¬ KeepsWakeUp lwsPre s op →
        ∃ tr' t, Run (StepRel.ofFn (wakeStep lwsPre)) s' tr' t ∧ ¬ t.WakeUpOutstanding := by
  obtain ⟨hready, hholds⟩ := ready_of_clientBufMgmtInit lwsPre (by omega) hinit
  have hstart : (WakeState.start g).WakeInv lwsPre maxBufCnt.toInt.toNat size := by
    refine ⟨hready, Network.coherent_start, fun h ↦ (nomatch h), fun hfull ↦ ?_⟩
    exact absurd hholds.head_eq hfull
  have hinv : s.WakeInv lwsPre maxBufCnt.toInt.toNat size :=
    hrun.invariant hstart fun _ _ _ _ hi ⟨hok, hstep⟩ ↦ hi.step hpre hsize hok hstep
  exact ⟨hinv.outstanding, fun op out s' hstep hbad ↦ hinv.exists_stall_of_lost hbad hstep⟩

/-- A push into the freshly initialised queue of `wsc_init`. -/
private theorem exists_push : ∃ g, g.ReadSlotFull ∧
    clientBufMgmtPush 16 true (some [65]) 1 (initialised wscInitSingleBufSize wscInitMaxBufCnt) =
      some ({ ret := leSuccess, notify := true }, g) := by
  obtain ⟨hready, hholds⟩ := ready_wscInit
  have hroom : ([] : List Offer).length < ((initialised wscInitSingleBufSize
      wscInitMaxBufCnt).queue 16).capacity := by
    rw [hready.capacity_eq]
    decide
  obtain ⟨⟨o, g⟩, hpush⟩ := Option.isSome_iff_exists.mp (clientBufMgmtPush_isSome true 1
    (by decide) hready (by decide) (show [(65 : UInt8)].length + 1 + 16 < sizeMod by decide)
    (hholds.wrPos_free hroom))
  rcases clientBufMgmtPush_cases (by decide) (by decide) hready hpush with
    ⟨hf, -⟩ | ⟨-, rfl, heq, hg⟩
  · cases hf
  · refine ⟨g, ?_, hpush⟩
    rw [hg.readSlotFull_iff, WsBuf.readOffer, heq, (hholds.put hroom _).head_eq]
    exact Option.some_ne_none _

/-- On an established connection a push that has notified has its request outstanding. -/
theorem wakeUp_outstanding_push :
    ∃ tr s, Run (StepRel.guard (KeepsWakeUp 16) (StepRel.ofFn (wakeStep 16)))
        (WakeState.start (initialised wscInitSingleBufSize wscInitMaxBufCnt)) tr s ∧
      s.net.connected = true ∧ s.notifying = 0 ∧ s.popped = false ∧ s.buf.ReadSlotFull ∧
      0 < s.requests := by
  obtain ⟨g, hfull, hpush⟩ := exists_push
  let steps := StepRel.guard (KeepsWakeUp 16) (StepRel.ofFn (wakeStep 16))
  let buf := initialised wscInitSingleBufSize wscInitMaxBufCnt
  let net : Network := ⟨some 0, 1, true, .loop⟩
  have hconnect : steps (WakeState.start buf) (.net (.connect true)) none
      ⟨{ net with connected := false }, buf, 0, 0, false⟩ := ⟨trivial, rfl⟩
  have hestablish : steps ⟨{ net with connected := false }, buf, 0, 0, false⟩ (.net .establish) none
      ⟨net, buf, 0, 0, false⟩ := ⟨trivial, rfl⟩
  have hstored : steps ⟨net, buf, 0, 0, false⟩ (.push [65] 1 true)
      (some { ret := leSuccess, notify := true }) ⟨net, g, 0, 1, false⟩ := by
    refine ⟨trivial, ?_⟩
    simp only [StepRel.ofFn, wakeStep, buf, hpush]
    rfl
  have hnotify : steps ⟨net, g, 0, 1, false⟩ .notify none ⟨net, g, 1, 0, false⟩ :=
    ⟨fun _ ↦ .inr (.inl rfl), rfl⟩
  have hnotified := (((Run.nil.snoc hconnect).snoc hestablish).snoc hstored).snoc hnotify
  refine ⟨_, _, hnotified, rfl, rfl, rfl, hfull, ?_⟩
  exact (wakeUp_outstanding (by decide) (by decide)
    clientBufMgmtInit_wscInit hnotified).1
    rfl rfl rfl hfull

/-- A response pushed while `g_wsi` is null waits on the next connection without a request. -/
theorem push_between_connections_stalls :
    ∃ tr s, Run (StepRel.ofFn (wakeStep 16))
        (WakeState.start (initialised wscInitSingleBufSize wscInitMaxBufCnt)) tr s ∧
      tr.map Prod.fst =
        [.push [65] 1 true, .notify, .net (.connect true), .net .establish] ∧
      ¬ s.WakeUpOutstanding := by
  obtain ⟨g, hfull, hpush⟩ := exists_push
  have hstored : wakeStep 16 (WakeState.start (initialised wscInitSingleBufSize wscInitMaxBufCnt))
      (.push [65] 1 true) = some (some { ret := leSuccess, notify := true },
        ⟨.start, g, 0, 1, false⟩) := by
    simp only [wakeStep, WakeState.start, hpush]
    rfl
  have hrest : Run (StepRel.ofFn (wakeStep 16)) ⟨.start, g, 0, 1, false⟩ _ _ :=
    Run.of_exec _ (show exec _ _ [.notify, .net (.connect true), .net .establish] = some (_, _)
      from rfl)
  refine ⟨_, _, (Run.single (R := StepRel.ofFn (wakeStep 16)) hstored).append hrest, rfl, ?_⟩
  intro hout
  exact Nat.lt_irrefl 0 (hout rfl rfl rfl hfull)

end LedaSdk.AliWs
