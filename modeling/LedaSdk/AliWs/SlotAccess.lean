import LedaSdk.AliWs.QueueContract

/-!
# What a pop removes and where a push writes

Results about single calls in every state that a run from a successful
`client_buf_mgmt_init` reaches: when `client_buf_mgmt_pop` keeps a message that was not
sent (`wsc_buffer_mgmt.c:113–131`), and when the writes of `client_buf_mgmt_push` stay
inside the slot (`wsc_buffer_mgmt.c:74–90`).
-/

namespace LedaSdk.AliWs
open LedaSdk.Base

variable {lwsPre count : Nat} {env : InitEnv} {size maxBufCnt : Int32} {g0 g g' h : WsBuf}
  {tr : QueueTrace}

/-! ### Pop -/

/-- `cb_pop_msg`, `ws_client_callback.c:8–16`: `usr` is the connection or null, and
`lwsWrite` is what `lws_write` returns for an offer on a connection. -/
def cbPopMsg {W : Type} (lwsWrite : W → Offer → Int32) (usr : Option W) : Offer → Int32 :=
  fun offer ↦
    match usr with
    | none => -1
    | some wsi => lwsWrite wsi offer

/-- The pop with this callback removes the message `a` at the read position if the callback
says that all its bytes were taken; else it reports an error and changes nothing except
that a read index past the last slot is replaced by the slot it stands for. -/
structure PopsWhenSent (lwsPre : Nat) (cb : Offer → Int32) (a : Offer) (g g' : WsBuf)
    (o : Outcome) : Prop where
  removes_iff : g'.state.rdIndex = (g.queue lwsPre).rdPos + 1 ∧
    ((g'.queue lwsPre).cells[(g.queue lwsPre).rdPos]?).join = none ↔ TakesAll (cb a) a.bufLen
  sent : TakesAll (cb a) a.bufLen → o.ret = leSuccess ∧ g'.queue lwsPre = (g.queue lwsPre).drop
  kept : ¬ TakesAll (cb a) a.bufLen → o.ret = leErrorUnknown ∧ g'.slots = g.slots ∧
    g'.state = { g.state with rdIndex := (g.queue lwsPre).rdPos } ∧
    (g'.queue lwsPre).contents = (g.queue lwsPre).contents

private theorem contents_wrapRd (c : CyclicQueue Offer) : c.wrapRd.contents = c.contents := by
  have he : c.wrapRd.ahead = c.ahead := by
    ext1 j
    rw [CyclicQueue.ahead, CyclicQueue.rdPos_wrapRd, CyclicQueue.ahead]
    rfl
  rw [CyclicQueue.contents, he, CyclicQueue.capacity_wrapRd, CyclicQueue.contents]

/-- The comparison in `size_t` agrees with the one of integers unless the value is negative
and, converted, reaches the length. -/
theorem sizeTakes_iff_takesAll (ret : Int32) {len : Nat} (hlen : 0 < len) :
    (SizeTakes ret len ↔ TakesAll ret len) ↔ 0 ≤ ret.toInt ∨ toSize ret.toInt < len := by
  unfold SizeTakes TakesAll
  by_cases h0 : 0 ≤ ret.toInt
  · rw [toSize_int32 h0]
    omega
  · omega

private theorem state_of_kept {cb : Offer → Int32} {o : Outcome} {a : Offer}
    (hg : g.Ready lwsPre size count) (hlt : toSize (cb a).toInt < a.bufLen)
    (ha : ((g.queue lwsPre).cells[(g.queue lwsPre).rdPos]?).join = some a)
    (hpop : clientBufMgmtPop lwsPre cb g = some (o, g')) :
    g'.state = { g.state with rdIndex := (g.queue lwsPre).rdPos } := by
  rcases clientBufMgmtPop_cases hg hpop with ⟨hn, -⟩ | ⟨b, -, -, -, -, heq, hr⟩ | ⟨b, hb, hle, -⟩
  · rw [hn] at ha
    cases ha
  · have hrd : g'.state.rdIndex = (g.queue lwsPre).rdPos := congrArg CyclicQueue.rd heq
    have hwr : g'.state.wrIndex = g.state.wrIndex := congrArg CyclicQueue.wr heq
    have hsz := hr.size_eq.trans hg.size_eq.symm
    have hct := hr.count_eq.trans hg.count_eq.symm
    change g'.state = ⟨_, g.state.wrIndex, g.state.singleBufSize, g.state.maxBufCnt⟩
    rw [← hrd, ← hwr, ← hsz, ← hct]
  · rw [ha] at hb
    cases hb
    omega

/-- Whatever the callback returns, a pop at a message has a result; it keeps what was not
sent and removes what was, exactly if the returned value is not negative or, converted to
`size_t`, is still below the length of the message. -/
theorem clientBufMgmtPop_popsWhenSent_iff (hpre : 0 < lwsPre) (hsize : lwsPre < size.toInt)
    (hinit : clientBufMgmtInit env size maxBufCnt g0 = (leSuccess, g))
    (hrun : Run (StepRel.ofFn (queueStep lwsPre)) g tr h) {a : Offer}
    (ha : ((h.queue lwsPre).cells[(h.queue lwsPre).rdPos]?).join = some a)
    (cb : Offer → Int32) :
    ∃ o h', clientBufMgmtPop lwsPre cb h = some (o, h') ∧
      (PopsWhenSent lwsPre cb a h h' o ↔
        0 ≤ (cb a).toInt ∨ toSize (cb a).toInt < a.bufLen) := by
  obtain ⟨hready, -⟩ := ready_of_clientBufMgmtInit lwsPre (by omega) hinit
  have hr := hready.queueRun hpre hsize hrun
  have hin : (h.queue lwsPre).rdPos < (h.queue lwsPre).capacity := by
    by_contra hc
    rw [List.getElem?_eq_none (by simpa [CyclicQueue.capacity] using hc)] at ha
    cases ha
  have hn : 0 < maxBufCnt.toInt.toNat := by
    rw [← hr.capacity_eq]
    omega
  have hlen : 0 < a.bufLen := by
    rw [WsBuf.queue_cell] at ha
    obtain ⟨item, -, hcontent⟩ := Option.bind_eq_some_iff.mp ha
    unfold MsgBufItem.content at hcontent
    split at hcontent
    · cases hcontent
    · cases hcontent
      apply Nat.pos_of_ne_zero
      assumption
  obtain ⟨⟨o, h'⟩, hpop⟩ := Option.isSome_iff_exists.mp (clientBufMgmtPop_isSome cb hr hn)
  refine ⟨o, h', hpop, ?_⟩
  rw [← sizeTakes_iff_takesAll _ hlen]
  have hempty : ((h.queue lwsPre).drop.cells[(h.queue lwsPre).rdPos]?).join = none := by
    change (((h.queue lwsPre).cells.set _ none)[(h.queue lwsPre).rdPos]?).join = none
    rw [List.getElem?_set_self hin]
    rfl
  rcases clientBufMgmtPop_cases hr hpop with ⟨hnone, -⟩ | ⟨b, hb, hlt, rfl, hslots, heq, -⟩ |
    ⟨b, hb, hle, rfl, heq, -⟩
  · rw [hnone] at ha
    cases ha
  · -- The comparison called the message unsent, so it is kept.
    obtain rfl : a = b := Option.some.inj (ha.symm.trans hb)
    have hnot : ¬ SizeTakes (cb a) a.bufLen := Nat.not_le.mpr hlt
    constructor
    · intro hp
      refine iff_of_false hnot fun ht ↦ ?_
      exact absurd (hp.sent ht).1 leErrorUnknown_ne
    · intro hiff
      have hta : ¬ TakesAll (cb a) a.bufLen := fun ht ↦ hnot (hiff.mpr ht)
      refine ⟨iff_of_false ?_ hta, fun ht ↦ absurd ht hta, fun _ ↦ ⟨rfl, hslots, ?_, ?_⟩⟩
      · rintro ⟨-, hcell⟩
        rw [heq] at hcell
        exact absurd (ha.symm.trans hcell) (by simp)
      · exact state_of_kept hr hlt ha hpop
      · rw [heq, contents_wrapRd]
  · -- The comparison called the message sent, so it is removed.
    obtain rfl : a = b := Option.some.inj (ha.symm.trans hb)
    have hrd : h'.state.rdIndex = (h.queue lwsPre).rdPos + 1 := congrArg CyclicQueue.rd heq
    constructor
    · intro hp
      exact iff_of_true hle (hp.removes_iff.mp ⟨hrd, by rw [heq]; exact hempty⟩)
    · intro hiff
      have hta := hiff.mp hle
      exact ⟨iff_of_true ⟨hrd, by rw [heq]; exact hempty⟩ hta, fun _ ↦ ⟨rfl, heq⟩,
        fun hk ↦ absurd hta hk⟩

/-- A message that `lws_write` took whole, and one of which it took a part. -/
theorem clientBufMgmtPop_popsWhenSent_iff_stored :
    ∃ h, Run (StepRel.ofFn (queueStep 16)) (initialised 32 2)
        [(.push [65] 1 true, { ret := leSuccess, notify := true })] h ∧
      (∃ o h', clientBufMgmtPop 16 (cbPopMsg (fun (_ : Unit) _ ↦ 2) (some ())) h = some (o, h') ∧
        o.ret = leSuccess ∧ (h'.queue 16).contents = []) ∧
      ∃ o h', clientBufMgmtPop 16 (cbPopMsg (fun (_ : Unit) _ ↦ 1) (some ())) h = some (o, h') ∧
        o.ret = leErrorUnknown ∧ (h'.queue 16).contents = [sealMsg [65] 1] := by
  have hinit := clientBufMgmtInit_allOk 32 (show 0 ≤ (2 : Int32).toInt by decide) WsBuf.zero
  obtain ⟨hready, hholds⟩ := ready_of_clientBufMgmtInit 16 (by decide) hinit
  obtain ⟨h, hrun, -, -, hq⟩ := exists_run_push (by decide) (by decide) hready hholds [65] 1
    (by decide) 1 (by decide)
  have hpop := clientBufMgmtPop_popsWhenSent_iff (by decide) (by decide) hinit hrun hq.head_eq
  refine ⟨h, hrun, ?_, ?_⟩
  · obtain ⟨o, h', he, hiff⟩ := hpop (cbPopMsg (fun (_ : Unit) _ ↦ 2) (some ()))
    obtain ⟨hret, hdrop⟩ := (hiff.mpr (.inl (by decide))).sent (by
      change (2 : Int) ≤ (2 : Int32).toInt
      decide)
    exact ⟨o, h', he, hret, by rw [hdrop]; exact hq.drop.contents_eq⟩
  · obtain ⟨o, h', he, hiff⟩ := hpop (cbPopMsg (fun (_ : Unit) _ ↦ 1) (some ()))
    obtain ⟨hret, -, -, hcont⟩ := (hiff.mpr (.inl (by decide))).kept (by
      change ¬ (2 : Int) ≤ (1 : Int32).toInt
      decide)
    exact ⟨o, h', he, hret, hcont.trans hq.contents_eq⟩

/-- Without a connection the callback returns -1 and the pop removes the message. -/
theorem pop_removes_unsent :
    ∃ h h', Run (StepRel.ofFn (queueStep 16))
        (initialised wscInitSingleBufSize wscInitMaxBufCnt)
        [(.push [65] 1 true, { ret := leSuccess, notify := true })] h ∧
      (h.queue 16).contents = [sealMsg [65] 1] ∧
      ¬ TakesAll (cbPopMsg (fun (_ : Unit) _ ↦ 0) none (sealMsg [65] 1)) 2 ∧
      clientBufMgmtPop 16 (cbPopMsg (fun (_ : Unit) _ ↦ 0) none) h =
        some ({ ret := leSuccess, offered := some (sealMsg [65] 1), notify := true }, h') ∧
      (h'.queue 16).contents = [] := by
  obtain ⟨hready, hholds⟩ := ready_wscInit
  obtain ⟨h, hrun, hr, -, hq⟩ := exists_run_push (by decide) (by decide) hready hholds [65] 1
    (by decide) 1 (by decide)
  obtain ⟨h', hpop, -, heq⟩ := exists_step_pop hr (by decide) hq
    (cbPopMsg (fun (_ : Unit) _ ↦ 0) none) (by decide)
  refine ⟨h, h', hrun, hq.contents_eq, by change ¬ (2 : Int) ≤ (-1 : Int32).toInt; decide, hpop, ?_⟩
  rw [heq]
  exact hq.drop.contents_eq

/-! ### Push -/

/-- The sizes that the call computes fit `size_t`. -/
def QueueOp.Representable (lwsPre : Nat) : QueueOp → Prop
  | .push msg _ _ => msg.length + 1 + lwsPre < sizeMod
  | _ => True

/-- The call does not shrink a slot below the message it still holds. -/
def QueueOp.KeepsOldLength (lwsPre : Nat) (g : WsBuf) : QueueOp → Prop
  | .push msg _ ok => ¬ g.ShrinksBelow lwsPre msg ok
  | _ => True

/-- In every reachable state each slot has the configured size and room for its message
behind `LWS_PRE`, and the next call stays inside the slots exactly if it does not shrink
one below the message it still holds. -/
theorem slots_have_room (hpre : 0 < lwsPre) (hsize : lwsPre < size.toInt)
    (hcount : maxMsgBufCount ≤ maxBufCnt.toInt)
    (hinit : clientBufMgmtInit env size maxBufCnt g0 = (leSuccess, g))
    (hrun : Run (StepRel.ofFn (queueStep lwsPre)) g tr h) :
    (∀ item ∈ h.slots, size.toInt ≤ item.buf.length ∧
      lwsPre + item.bufLen ≤ item.buf.length) ∧
    ∀ op : QueueOp, op.Representable lwsPre →
      ((queueStep lwsPre h op).isSome ↔ op.KeepsOldLength lwsPre h) := by
  obtain ⟨hready, -⟩ := ready_of_clientBufMgmtInit lwsPre (by omega) hinit
  have hr := hready.queueRun hpre hsize hrun
  have hn : maxMsgBufCount ≤ maxBufCnt.toInt.toNat := by omega
  have hpos : 0 < maxBufCnt.toInt.toNat := Nat.lt_of_lt_of_le (by decide) hn
  constructor
  · intro item hm
    have hs := hr.sized item hm
    have hle := hs.size_le
    refine ⟨by omega, ?_⟩
    by_cases hz : item.bufLen = 0
    · omega
    · exact hs.len_le hz
  · intro op hop
    cases op with
    | push msg type ok => exact clientBufMgmtPush_isSome_iff ok type hsize hr hpos hop
    | pop cb => exact iff_of_true (clientBufMgmtPop_isSome cb hr hpos) trivial
    | clear =>
      obtain ⟨h', hclear, -⟩ := bufMgmtClientClearMsg_eq hr hn
      exact iff_of_true (by rw [queueStep, hclear]; rfl) trivial

/-- After a message was pushed and popped, one longer than a slot of `wsc_init`'s queue fits, since
its slot grows. -/
theorem slots_have_room_after_pop :
    ∃ tr h, Run (StepRel.ofFn (queueStep 16))
        (initialised wscInitSingleBufSize wscInitMaxBufCnt) tr h ∧ tr.length = 2 ∧
      (queueStep 16 h (.push (List.replicate 5000 65) 1 true)).isSome := by
  obtain ⟨hready, hholds⟩ := ready_wscInit
  obtain ⟨h1, hrun1, hr1, -, hq1⟩ := exists_run_push (by decide) (by decide) hready hholds [65] 1
    (by decide) 1 (by decide)
  obtain ⟨h, hpop, hr, heq⟩ := exists_step_pop hr1 (by decide) hq1 (fun _ ↦ 2) (by decide)
  have hq : (h.queue 16).Holds [] := heq ▸ hq1.drop
  have hrun := hrun1.snoc (R := StepRel.ofFn (queueStep 16)) hpop
  refine ⟨_, h, hrun, rfl, ?_⟩
  apply ((slots_have_room (by decide) (by decide) (by decide) clientBufMgmtInit_wscInit hrun).2
    _ _).mpr
  · rintro ⟨-, -, item, hitem, hlt⟩
    -- The queue is empty, so the slot under the write index is.
    have hfree := hq.wrPos_free (by rw [hr.capacity_eq]; decide)
    rw [hr.wrPos_eq] at hitem
    rw [WsBuf.queue_cell, hitem, Option.bind_some, MsgBufItem.content_eq_none_iff] at hfree
    rw [hfree] at hlt
    exact absurd hlt (Nat.not_lt_zero _)
  · change (List.replicate 5000 (65 : UInt8)).length + 1 + 16 < sizeMod
    rw [List.length_replicate]
    decide

/-- When `wsc_init`'s queue is full and its oldest message has 5000 bytes, storing one of
2100 bytes clears more bytes than the slot has left. -/
theorem push_clears_past_slot :
    ∃ tr h, Run (StepRel.ofFn (queueStep 16))
        (initialised wscInitSingleBufSize wscInitMaxBufCnt) tr h ∧ tr.length = 1024 ∧
      queueStep 16 h (.push (List.replicate 2100 66) 1 true) = none := by
  obtain ⟨hready, hholds⟩ := ready_wscInit
  have hlong : (List.replicate 5000 (65 : UInt8)).length + 1 + 16 < sizeMod := by
    rw [List.length_replicate]
    decide
  have hnew : (List.replicate 2100 (66 : UInt8)).length + 1 + 16 < sizeMod := by
    rw [List.length_replicate]
    decide
  obtain ⟨h1, hrun1, hr1, -, hq1⟩ := exists_run_push (by decide) (by decide) hready hholds
    (List.replicate 5000 65) 1 hlong 1 (by decide)
  obtain ⟨h2, hrun2, hr2, -, hq2⟩ := exists_run_push (by decide) (by decide) hr1 hq1 [65] 1
    (by decide) 1023 (by decide)
  refine ⟨_, h2, hrun1.append hrun2,
    by rw [List.length_append, List.length_replicate, List.length_replicate], ?_⟩
  rw [← Option.not_isSome_iff_eq_none, queueStep,
    clientBufMgmtPush_isSome_iff true 1 (by decide) hr2 (by decide) hnew, not_not]
  -- The write position has come round to the oldest message.
  have hpos : (h2.queue 16).wrPos = (h2.queue 16).rdPos := by
    have hlt := CyclicQueue.rdPos_lt (c := h2.queue 16) (by rw [hr2.capacity_eq]; decide)
    have hfull : wscInitMaxBufCnt.toInt.toNat = 1024 := rfl
    rw [hq2.wrPos_eq, hr2.capacity_eq, hfull]
    rw [hr2.capacity_eq, hfull] at hlt
    simp only [List.nil_append, List.length_append, List.length_replicate]
    omega
  have hhead := hq2.head_eq
  rw [← hpos, WsBuf.queue_cell] at hhead
  obtain ⟨item, hitem, hcontent⟩ := Option.bind_eq_some_iff.mp
    (hhead.trans (show _ = some (sealMsg (List.replicate 5000 65) 1) from rfl))
  refine ⟨rfl, ?_, item, by rw [hr2.wrPos_eq]; exact hitem, ?_⟩
  · rw [hr2.size_eq, List.length_replicate]
    decide
  · have hb : item.bufLen = 5001 := by
      unfold MsgBufItem.content at hcontent
      split at hcontent
      · cases hcontent
      · have hlen : item.bufLen = (List.replicate 5000 (65 : UInt8)).length + 1 :=
          congrArg Offer.bufLen (Option.some.inj hcontent)
        rw [hlen, List.length_replicate]
    rw [List.length_replicate, hb]
    decide

end LedaSdk.AliWs
