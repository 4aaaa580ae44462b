import LedaSdk.AliWs.Fifo
import LedaSdk.AliWs.Network

/-!
# Traffic and the connection it belongs to

`leda_send_rsp` (`sdk/leda.c:501–541`), the test of `g_conn_state` in `leda_send_method`
(`leda.c:914–918`) and the three actions of the close callback
(`ws_client_callback.c:74–85`). Responses and requests are queued by pool workers and
callers at any time after the step that stamps them with a connection. The clear is taken to
empty the whole queue.
-/

namespace LedaSdk.Leda
open LedaSdk.Base LedaSdk.AliWs

/-- What is sent: the response to a request of the server, or a request of the caller. -/
inductive TrafficKind where
  | response
  | request
  deriving DecidableEq

/-- A response or request with the connection on which its request was received, or which was
up when `g_conn_state` was tested. -/
structure Stamp where
  kind : TrafficKind
  conn : Nat
  deriving DecidableEq

/-- A queued message with its stamp. -/
structure Message where
  stamp : Stamp
  offer : Offer
  deriving DecidableEq

/-- The network thread, what workers and callers have yet to queue, and the queue. -/
structure TrafficState where
  net : Network
  work : List Stamp
  queue : CyclicQueue Message

/-- An empty queue of `count` slots. -/
def emptyQueue (count : Nat) : CyclicQueue Message := ⟨List.replicate count none, 0, 0⟩

@[simp] theorem capacity_emptyQueue (count : Nat) : (emptyQueue count).capacity = count := by
  rw [emptyQueue, CyclicQueue.capacity, List.length_replicate]

/-- Nothing received, tested or queued. -/
def TrafficState.start (count : Nat) : TrafficState := ⟨.start, [], emptyQueue count⟩

/-- A step of the network thread, of a pool worker or of a caller. -/
inductive TrafficOp where
  /-- `cb_ws_recv` passes a request of the server to the pool. -/
  | receive
  /-- The test of `g_conn_state` in `leda_send_method` and `leda_asyn_send_method`. -/
  | check
  /-- `wsc_add_msg` in `leda_send_rsp` and in the two senders; `stored` is whether it succeeds. -/
  | enqueue (i : Nat) (msg : List UInt8) (stored : Bool)
  /-- `lws_write` in the callback for `CLIENT_WRITEABLE`; `taken` is whether it takes all. -/
  | write (taken : Bool)
  | net (op : NetOp)

/-- What a step hands to `lws_write`, and on which connection. -/
abbrev Written := Option (Message × Nat)

/-- Work that belongs to the connection that is up. -/
def TrafficState.begin (kind : TrafficKind) (s : TrafficState) : Option TrafficState :=
  s.net.gWsi.map fun conn ↦ { s with work := ⟨kind, conn⟩ :: s.work }

/-- One step. -/
def trafficStep (s : TrafficState) : TrafficOp → Option (Written × TrafficState)
  | .receive =>
    if s.net.connected then (s.begin .response).map fun s' ↦ (none, s') else none
  | .check =>
    if s.net.connected then (s.begin .request).map fun s' ↦ (none, s') else some (none, s)
  | .enqueue i msg stored => do
    let stamp ← s.work[i]?
    let queue := if stored then s.queue.put ⟨stamp, sealMsg msg 0⟩ else s.queue.wrapWr
    some (none, { s with work := s.work.eraseIdx i, queue := queue })
  | .write taken =>
    if s.net.connected then do
      let conn ← s.net.gWsi
      match (s.queue.cells[s.queue.rdPos]?).join with
      | none => some (none, { s with queue := s.queue.wrapRd })
      | some m =>
        some (some (m, conn), { s with queue := if taken then s.queue.drop else s.queue.wrapRd })
    else none
  | .net op => do
    let net ← s.net.step op
    let queue := if op = .clear then emptyQueue s.queue.capacity else s.queue
    some (none, { s with net := net, queue := queue })

/-- A history of steps with what they wrote. -/
abbrev TrafficTrace := List (TrafficOp × Written)

/-- Nothing is handed to `lws_write` on a later connection than its own. -/
def NoLeak (tr : TrafficTrace) : Prop :=
  ∀ e ∈ tr, ∀ m conn, e.2 = some (m, conn) → ¬ m.stamp.conn < conn

/-- A message of this connection may be queued: the connection is the last one made and is up,
or the queue is about to be cleared. -/
def TrafficState.Serves (s : TrafficState) (conn : Nat) : Prop :=
  (s.net.made = conn + 1 ∧ s.net.connected = true) ∨ s.net.ClearAhead

/-- No message is queued. -/
def TrafficState.NothingQueued (s : TrafficState) : Prop :=
  ∀ (i : Nat) (m : Message), (s.queue.cells[i]?).join ≠ some m

/-- Steps that keep traffic on its connection: what is queued belongs to the connection that is
up or is about to be cleared, and no connection ends by `CONNECTION_ERROR` with messages queued. -/
def KeepsToConnection (s : TrafficState) : TrafficOp → Prop
  | .enqueue i _ true => ∀ stamp, s.work[i]? = some stamp → s.Serves stamp.conn
  | .net (.close .connectionError) => s.NothingQueued
  | _ => True

/-! ### The buffers -/

section Buffers
variable {lwsPre count i : Nat} {size : Int32} {g g' : WsBuf} {o : Outcome} {s : TrafficState}

/-- A push on the buffers is an enqueue, once the stamps are forgotten. -/
theorem enqueue_of_push {msg : List UInt8} {ok : Bool} {stamp : Stamp} (hpre : 0 < lwsPre)
    (hsize : lwsPre < size.toInt) (hg : g.Ready lwsPre size count)
    (hq : g.queue lwsPre = s.queue.map Message.offer) (hstamp : s.work[i]? = some stamp)
    (hpush : clientBufMgmtPush lwsPre ok (some msg) 0 g = some (o, g')) :
    ∃ s', trafficStep s (.enqueue i msg o.notify) = some (none, s') ∧
      g'.queue lwsPre = s'.queue.map Message.offer := by
  rcases clientBufMgmtPush_cases hpre hsize hg hpush with ⟨-, -, rfl, -, heq, -⟩ | ⟨-, rfl, heq, -⟩
  · refine ⟨{ s with work := s.work.eraseIdx i, queue := s.queue.wrapWr }, ?_, ?_⟩
    · rw [trafficStep, hstamp]
      rfl
    · rw [heq, hq, CyclicQueue.map_wrapWr]
  · refine ⟨{ s with work := s.work.eraseIdx i, queue := s.queue.put ⟨stamp, sealMsg msg 0⟩ }, ?_, ?_⟩
    · rw [trafficStep, hstamp]
      rfl
    · rw [heq, hq, CyclicQueue.map_put]

/-- A pop on the buffers is a write, once the stamps are forgotten. -/
theorem write_of_pop {cb : Offer → Int32} {conn : Nat} (hg : g.Ready lwsPre size count)
    (hq : g.queue lwsPre = s.queue.map Message.offer) (hup : s.net.connected = true)
    (hw : s.net.gWsi = some conn) (hpop : clientBufMgmtPop lwsPre cb g = some (o, g')) :
    ∃ w s', trafficStep s (.write o.notify) = some (w, s') ∧
      o.offered = w.map (fun e ↦ e.1.offer) ∧ g'.queue lwsPre = s'.queue.map Message.offer := by
  have hcell := clientBufMgmtPop_cases hg hpop
  rw [hq, CyclicQueue.rdPos_map, CyclicQueue.cell_map] at hcell
  have hstep (taken : Bool) : trafficStep s (.write taken) =
      match (s.queue.cells[s.queue.rdPos]?).join with
      | none => some (none, { s with queue := s.queue.wrapRd })
      | some m =>
        some (some (m, conn), { s with queue := if taken then s.queue.drop else s.queue.wrapRd }) := by
    simp only [trafficStep, hup, hw, if_true, Option.bind_eq_bind, Option.bind_some]
  rw [hstep]
  rcases hcell with ⟨hnone, rfl, -, heq, -⟩ | ⟨a, hsome, -, rfl, -, heq, -⟩ |
    ⟨a, hsome, -, rfl, heq, -⟩
  · rw [Option.map_eq_none_iff.mp hnone]
    exact ⟨none, _, rfl, rfl, by rw [heq, CyclicQueue.map_wrapRd]⟩
  · obtain ⟨m, hm, rfl⟩ := Option.map_eq_some_iff.mp hsome
    rw [hm]
    exact ⟨some (m, conn), _, rfl, rfl, by rw [heq, ← CyclicQueue.map_wrapRd]; rfl⟩
  · obtain ⟨m, hm, rfl⟩ := Option.map_eq_some_iff.mp hsome
    rw [hm]
    exact ⟨some (m, conn), _, rfl, rfl, by rw [heq, ← CyclicQueue.map_drop]; rfl⟩

end Buffers

/-! ### The invariant -/

section Steps
variable {s s' : TrafficState} {op : TrafficOp} {out : Written}

/-- Every queued message belongs to the connection that is served. -/
structure TrafficState.QueueServed (s : TrafficState) : Prop where
  coherent : s.net.Coherent
  served : ∀ (i : Nat) (m : Message), (s.queue.cells[i]?).join = some m → s.Serves m.stamp.conn

private theorem nothing_emptyQueue (count i : Nat) (m : Message) :
    ((emptyQueue count).cells[i]?).join ≠ some m := by
  intro h
  rw [emptyQueue, List.getElem?_replicate] at h
  split at h <;> cases h

theorem TrafficState.queueServed_start (count : Nat) :
    (TrafficState.start count).QueueServed where
  coherent := Network.coherent_start
  served i m h := absurd h (nothing_emptyQueue count i m)

/-- Without a connection up and without a clear to come nothing is queued. -/
theorem TrafficState.QueueServed.nothing (h : s.QueueServed) (hoff : s.net.connected = false)
    (hno : ¬ s.net.ClearAhead) : s.NothingQueued := by
  intro i m hm
  rcases h.served i m hm with ⟨-, hon⟩ | hclear
  · cases hoff.symm.trans hon
  · exact hno hclear

/-- The queue after a step holds what it held before or what the step stored. -/
theorem trafficStep_queue (h : trafficStep s op = some (out, s')) (hop : ∀ netOp, op ≠ .net netOp) :
    s'.net = s.net ∧ ∀ (i : Nat) (m : Message), (s'.queue.cells[i]?).join = some m →
      (s.queue.cells[i]?).join = some m ∨
        ∃ j msg, op = .enqueue j msg true ∧ s.work[j]? = some m.stamp := by
  cases op with
  | receive =>
    simp only [trafficStep, TrafficState.begin, Option.map_map] at h
    split at h
    · obtain ⟨conn, -, heq⟩ := Option.map_eq_some_iff.mp h
      obtain ⟨-, rfl⟩ := Prod.mk.inj heq
      exact ⟨rfl, fun i m hm ↦ .inl hm⟩
    · cases h
  | check =>
    simp only [trafficStep, TrafficState.begin, Option.map_map] at h
    split at h
    · obtain ⟨conn, -, heq⟩ := Option.map_eq_some_iff.mp h
      obtain ⟨-, rfl⟩ := Prod.mk.inj heq
      exact ⟨rfl, fun i m hm ↦ .inl hm⟩
    · obtain ⟨-, rfl⟩ := Prod.mk.inj (Option.some.inj h)
      exact ⟨rfl, fun i m hm ↦ .inl hm⟩
  | enqueue j msg stored =>
    obtain ⟨stamp, hstamp, h⟩ := Option.bind_eq_some_iff.mp h
    obtain ⟨-, rfl⟩ := Prod.mk.inj (Option.some.inj h)
    refine ⟨rfl, fun i m hm ↦ ?_⟩
    cases stored with
    | false => exact .inl hm
    | true =>
      rcases CyclicQueue.cell_of_put hm with hold | rfl
      · exact .inl hold
      · exact .inr ⟨j, msg, rfl, hstamp⟩
  | write taken =>
    simp only [trafficStep] at h
    split at h
    · obtain ⟨conn, -, h⟩ := Option.bind_eq_some_iff.mp h
      split at h
      · obtain ⟨-, rfl⟩ := Prod.mk.inj (Option.some.inj h)
        exact ⟨rfl, fun i m hm ↦ .inl hm⟩
      · obtain ⟨-, rfl⟩ := Prod.mk.inj (Option.some.inj h)
        refine ⟨rfl, fun i m hm ↦ .inl ?_⟩
        cases taken with
        | false => exact hm
        | true => exact CyclicQueue.cell_of_drop hm
    · cases h
  | net netOp => exact absurd rfl (hop netOp)

/-- An action of the network thread keeps every queued message served. -/
private theorem TrafficState.QueueServed.net {netOp : NetOp} (hinv : s.QueueServed)
    (hok : KeepsToConnection s (.net netOp)) (h : trafficStep s (.net netOp) = some (out, s')) :
    s'.QueueServed := by
  obtain ⟨net, hnet, h⟩ := Option.bind_eq_some_iff.mp h
  obtain ⟨-, rfl⟩ := Prod.mk.inj (Option.some.inj h)
  refine ⟨hinv.coherent.step hnet, fun i m hm ↦ ?_⟩
  have hoff (hp : s.net.point ≠ .loop) : s.net.connected = false :=
    Bool.eq_false_iff.mpr fun hc ↦ hp (hinv.coherent.connected_loop hc)
  rcases Network.step_cases hnet with ⟨ok, rfl, hp, hw, -⟩ | ⟨rfl, hp, -, hc, -⟩ |
    ⟨reason, rfl, hp, -, rfl⟩ | ⟨rfl, hp, rfl⟩ | ⟨rfl, hp, rfl⟩ | ⟨rfl, -, -⟩
  · have hdown : s.net.connected = false :=
      Bool.eq_false_iff.mpr fun hc ↦ hinv.coherent.connected_wsi hc hw
    exact absurd hm (hinv.nothing hdown (Network.not_clearAhead_of_loop hp) i m)
  · exact absurd hm (hinv.nothing hc (Network.not_clearAhead_of_loop hp) i m)
  · cases reason with
    | connectionError => exact absurd hm (hok i m)
    | closed => exact .inr (.inl rfl)
  · have hno : ¬ s.net.ClearAhead := by rintro (h | h) <;> cases hp.symm.trans h
    exact absurd hm (hinv.nothing (hoff (by rw [hp]; decide)) hno i m)
  · exact .inr (.inr rfl)
  · exact absurd hm (nothing_emptyQueue _ i m)

/-- A step that keeps traffic on its connection keeps every queued message served. -/
theorem TrafficState.QueueServed.step (hinv : s.QueueServed) (hok : KeepsToConnection s op)
    (h : trafficStep s op = some (out, s')) : s'.QueueServed := by
  by_cases hop : ∃ netOp, op = .net netOp
  · obtain ⟨netOp, rfl⟩ := hop
    exact hinv.net hok h
  · obtain ⟨hnet, hqueue⟩ := trafficStep_queue h fun netOp he ↦ hop ⟨netOp, he⟩
    refine ⟨by rw [hnet]; exact hinv.coherent, fun i m hm ↦ ?_⟩
    unfold Serves
    rw [hnet]
    rcases hqueue i m hm with hold | ⟨j, msg, rfl, hstamp⟩
    · exact hinv.served i m hold
    · exact hok m.stamp hstamp

/-- What a step writes was queued, and goes to the connection that is up. -/
theorem trafficStep_written {m : Message} {conn : Nat}
    (h : trafficStep s op = some (some (m, conn), s')) :
    s.net.connected = true ∧ s.net.gWsi = some conn ∧
      ∃ i : Nat, (s.queue.cells[i]?).join = some m := by
  cases op with
  | receive =>
    simp only [trafficStep] at h
    split at h
    · obtain ⟨_, -, heq⟩ := Option.map_eq_some_iff.mp h
      cases heq
    · cases h
  | check =>
    simp only [trafficStep] at h
    split at h
    · obtain ⟨_, -, heq⟩ := Option.map_eq_some_iff.mp h
      cases heq
    · cases h
  | enqueue j msg stored =>
    obtain ⟨_, -, heq⟩ := Option.bind_eq_some_iff.mp h
    cases heq
  | write taken =>
    simp only [trafficStep] at h
    split at h
    · next hup =>
      obtain ⟨conn', hw, h⟩ := Option.bind_eq_some_iff.mp h
      split at h
      · cases h
      · next hm =>
        obtain ⟨hout, -⟩ := Prod.mk.inj (Option.some.inj h)
        obtain ⟨rfl, rfl⟩ := Prod.mk.inj (Option.some.inj hout)
        exact ⟨hup, hw, _, hm⟩
    · cases h
  | net netOp =>
    obtain ⟨_, -, heq⟩ := Option.bind_eq_some_iff.mp h
    cases heq

end Steps

/-- Along every run that keeps traffic on its connection, nothing is written on a later one. -/
theorem traffic_stays (count : Nat) {s : TrafficState} {tr : TrafficTrace}
    (hrun : Run (StepRel.guard KeepsToConnection (StepRel.ofFn trafficStep))
      (TrafficState.start count) tr s) : NoLeak tr := by
  have hinv : s.QueueServed ∧ NoLeak tr := by
    induction hrun with
    | nil => exact ⟨TrafficState.queueServed_start count, fun e he ↦ nomatch he⟩
    | @snoc tr s s' op out prior step ih =>
      obtain ⟨hserved, hnone⟩ := ih
      refine ⟨hserved.step step.1 step.2, fun e he m conn hwritten ↦ ?_⟩
      rcases List.mem_append.mp he with hold | hnew
      · exact hnone e hold m conn hwritten
      · obtain rfl := List.mem_singleton.mp hnew
        dsimp only at hwritten
        subst hwritten
        obtain ⟨hup, hw, i, hm⟩ := trafficStep_written step.2
        have hlast := hserved.coherent.last conn hw
        rcases hserved.served i m hm with ⟨hown, -⟩ | hclear
        · omega
        · exact absurd hclear (hserved.coherent.not_clearAhead hup)
  exact hinv.2

/-! ### Two runs -/

section Runs
variable {s : TrafficState}

/-- A message in an otherwise empty queue is what the next write offers. -/
private theorem write_only {net : Network} {work : List Stamp} {m : Message} {conn : Nat}
    (hup : net.connected = true) (hw : net.gWsi = some conn) :
    trafficStep ⟨net, work, (emptyQueue 1024).put m⟩ (.write true) =
      some (some (m, conn), ⟨net, work, ((emptyQueue 1024).put m).drop⟩) := by
  have hholds : (emptyQueue 1024).Holds [] :=
    CyclicQueue.holds_nil (fun x hx ↦ List.eq_of_mem_replicate hx) rfl rfl
  have hroom : ([] : List Message).length < (emptyQueue 1024).capacity := by
    rw [capacity_emptyQueue]
    decide
  have hhead := (hholds.put hroom m).head_eq
  simp only [trafficStep, hup, hw, hhead, if_true, Option.bind_eq_bind, Option.bind_some,
    List.nil_append, List.head?_cons]

/-- A response that is queued while its connection is up is written on it. -/
theorem traffic_stays_response :
    ∃ tr s, Run (StepRel.guard KeepsToConnection (StepRel.ofFn trafficStep))
        (TrafficState.start 1024) tr s ∧
      (⟨⟨.response, 0⟩, sealMsg [65] 0⟩, 0) ∈ tr.filterMap Prod.snd ∧ NoLeak tr := by
  let steps := StepRel.guard KeepsToConnection (StepRel.ofFn trafficStep)
  let up : Network := ⟨some 0, 1, true, .loop⟩
  let m : Message := ⟨⟨.response, 0⟩, sealMsg [65] 0⟩
  have hconnect : steps (TrafficState.start 1024) (.net (.connect true)) none
      ⟨{ up with connected := false }, [], emptyQueue 1024⟩ := ⟨trivial, rfl⟩
  have hestablish : steps ⟨{ up with connected := false }, [], emptyQueue 1024⟩ (.net .establish)
      none ⟨up, [], emptyQueue 1024⟩ := ⟨trivial, rfl⟩
  have hreceive : steps ⟨up, [], emptyQueue 1024⟩ .receive none
      ⟨up, [m.stamp], emptyQueue 1024⟩ := ⟨trivial, rfl⟩
  have henqueue : steps ⟨up, [m.stamp], emptyQueue 1024⟩ (.enqueue 0 [65] true) none
      ⟨up, [], (emptyQueue 1024).put m⟩ := by
    refine ⟨fun stamp hstamp ↦ ?_, rfl⟩
    cases hstamp
    exact .inl ⟨rfl, rfl⟩
  have hwrite : steps ⟨up, [], (emptyQueue 1024).put m⟩ (.write true) (some (m, 0))
      ⟨up, [], ((emptyQueue 1024).put m).drop⟩ := ⟨trivial, write_only rfl rfl⟩
  have hrun := ((((Run.nil.snoc hconnect).snoc hestablish).snoc hreceive).snoc henqueue).snoc hwrite
  exact ⟨_, _, hrun, by simp [m], traffic_stays 1024 hrun⟩

/-- A response that a worker queues after the clear of its connection is written on the next
one. -/
theorem late_response_leaks :
    ∃ tr s, Run (StepRel.ofFn trafficStep) (TrafficState.start 1024) tr s ∧
      (⟨⟨.response, 0⟩, sealMsg [65] 0⟩, 1) ∈ tr.filterMap Prod.snd ∧ ¬ NoLeak tr := by
  let steps := StepRel.ofFn trafficStep
  let m : Message := ⟨⟨.response, 0⟩, sealMsg [65] 0⟩
  have hclosing : Run steps (TrafficState.start 1024) _
      ⟨⟨none, 1, false, .clearing⟩, [m.stamp], emptyQueue 1024⟩ :=
    Run.of_exec _ (show exec _ _ [.net (.connect true), .net .establish, .receive,
      .net (.close .closed), .net .resetWsi] = some ([_, _, _, _, _], _) from rfl)
  have hclear : steps ⟨⟨none, 1, false, .clearing⟩, [m.stamp], emptyQueue 1024⟩ (.net .clear) none
      ⟨⟨none, 1, false, .loop⟩, [m.stamp], emptyQueue 1024⟩ := by
    simp only [steps, StepRel.ofFn, trafficStep, capacity_emptyQueue]
    rfl
  have hreopen : Run steps ⟨⟨none, 1, false, .loop⟩, [m.stamp], emptyQueue 1024⟩ _
      ⟨⟨some 1, 2, true, .loop⟩, [], (emptyQueue 1024).put m⟩ :=
    Run.of_exec _ (show exec _ _ [.enqueue 0 [65] true, .net (.connect true), .net .establish] =
      some ([_, _, _], _) from rfl)
  have hwrite : steps ⟨⟨some 1, 2, true, .loop⟩, [], (emptyQueue 1024).put m⟩ (.write true)
      (some (m, 1)) ⟨⟨some 1, 2, true, .loop⟩, [], ((emptyQueue 1024).put m).drop⟩ :=
    write_only rfl rfl
  refine ⟨_, _, ((hclosing.snoc hclear).append hreopen).snoc hwrite, by simp [m], fun hnone ↦ ?_⟩
  exact hnone _ (List.mem_append_right _ (List.mem_singleton_self _)) m 1 rfl (by decide)

end Runs

end LedaSdk.Leda
