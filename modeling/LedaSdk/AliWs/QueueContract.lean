import LedaSdk.AliWs.Fifo

/-!
# What the outgoing queue promises

Results over whole runs that start from a successful `client_buf_mgmt_init`: the refinement
of the FIFO for users that keep at most `max_buf_cnt` messages undelivered, what is left
after a clear, and when a push that reports success keeps its promise.
-/

namespace LedaSdk.AliWs
open LedaSdk.Base

variable {lwsPre count : Nat} {env : InitEnv} {size maxBufCnt : Int32} {g0 g g' h : WsBuf}
  {q : List Offer} {tr : QueueTrace} {op : QueueOp} {o : Outcome}

/-! ### Refinement of the FIFO -/

/-- Calls of a user that never has more than `count` messages undelivered and whose
callbacks return a byte count. -/
def InContract (lwsPre count : Nat) (before : QueueTrace) : QueueOp → Prop
  | .push msg _ _ =>
    msg ≠ [] ∧ msg.length + 1 + lwsPre < sizeMod ∧ (undelivered before).length < count
  | .pop cb => ∀ offer, 0 ≤ (cb offer).toInt
  | .clear => False

/-- The slots that hold a message are the cyclic interval of `len` slots from `rd_index`,
which ends before `wr_index`; an index equal to `max_buf_cnt` stands for zero. -/
structure WsBuf.OccupiesInterval (g : WsBuf) (len : Nat) : Prop where
  rd_le : g.state.rdIndex ≤ g.state.maxBufCnt
  wr_le : g.state.wrIndex ≤ g.state.maxBufCnt
  len_le : len ≤ g.state.maxBufCnt
  wr_eq : g.state.wrIndex % g.state.maxBufCnt =
    (g.state.rdIndex + len) % g.state.maxBufCnt
  nonempty_iff : ∀ i item, g.slots[i]? = some item →
    (item.bufLen ≠ 0 ↔ ∃ j, j < len ∧ i = (g.state.rdIndex + j) % g.state.maxBufCnt)

private theorem FifoStep.takesAll {room : Nat} {q q' : List Offer}
    (h : FifoStep room SizeTakes q op o q')
    (hcb : ∀ cb, op = .pop cb → ∀ offer, 0 ≤ (cb offer).toInt) :
    FifoStep room TakesAll q op o q' := by
  have hiff (cb : Offer → Int32) (a : Offer) (he : op = .pop cb) :
      SizeTakes (cb a) a.bufLen ↔ TakesAll (cb a) a.bufLen := by
    have h0 := hcb cb he a
    rw [SizeTakes, TakesAll, toSize_int32 h0]
    omega
  cases h with
  | pushed h => exact .pushed h
  | refused h => exact .refused h
  | popEmpty => exact .popEmpty
  | popKept h => exact .popKept fun ht ↦ h ((hiff _ _ rfl).mpr ht)
  | popTaken h => exact .popTaken ((hiff _ _ rfl).mp h)
  | cleared => exact .cleared

private theorem occupiesInterval_of_holds (hg : g.Ready lwsPre size count)
    (hq : (g.queue lwsPre).Holds q) : g.OccupiesInterval q.length := by
  have hc := hg.capacity_eq
  have hm := hg.count_eq
  have hr : g.state.rdIndex ≤ count := hc ▸ hq.rd_le
  have hw : g.state.wrIndex ≤ count := hc ▸ hq.wr_le
  have hrd : (g.queue lwsPre).rdPos = g.state.rdIndex % count := by
    rw [← hg.rdPos_eq, hm, CyclicQueue.norm_eq_mod hr]
  have hwr : (g.queue lwsPre).wrPos = g.state.wrIndex % count := by
    rw [← hg.wrPos_eq, hm, CyclicQueue.norm_eq_mod hw]
  refine ⟨hm ▸ hr, hm ▸ hw, hm ▸ hc ▸ hq.length_le, ?_, ?_⟩
  · rw [hm, ← hwr, hq.wrPos_eq, hc, hrd, Nat.mod_add_mod]
  · intro i item hi
    have hil : i < (g.queue lwsPre).capacity := by
      rw [hc, ← hg.length_eq]
      exact (List.getElem?_eq_some_iff.mp hi).1
    have hsome := hq.isSome_iff hil
    rw [WsBuf.queue_cell, hi, Option.bind_some, hc] at hsome
    rw [hm]
    constructor
    · intro hne
      obtain ⟨j, hj, he⟩ := hsome.mp (by
        rw [Option.isSome_iff_ne_none]
        exact fun hn ↦ hne ((MsgBufItem.content_eq_none_iff _).mp hn))
      exact ⟨j, hj, by rw [he, hrd, Nat.mod_add_mod]⟩
    · rintro ⟨j, hj, he⟩ hz
      have := hsome.mpr ⟨j, hj, by rw [he, hrd, Nat.mod_add_mod]⟩
      rw [(MsgBufItem.content_eq_none_iff _).mpr hz] at this
      cases this

private theorem fifoSafe_of_inContract (hg : g.Ready lwsPre size count)
    (hq : (g.queue lwsPre).Holds (undelivered tr)) (hop : InContract lwsPre count tr op) :
    FifoSafe lwsPre g op := by
  cases op with
  | push msg type ok => exact .inl ((hg.hasFreeSlot_iff hq).mpr hop.2.2)
  | pop cb => trivial
  | clear => exact hop.elim

/-- While the user keeps the contract, the buffers run as the FIFO does, the occupied
slots are the cyclic interval between the indices, and the next call has a result. -/
theorem clientBufMgmt_refines_fifo (hpre : 0 < lwsPre) (hsize : lwsPre < size.toInt)
    (hinit : clientBufMgmtInit env size maxBufCnt g0 = (leSuccess, g))
    (hrun : Run (StepRel.ofFn (queueStep lwsPre)) g tr g')
    (hok : Along (InContract lwsPre maxBufCnt.toInt.toNat) tr) :
    Run (FifoStep (roomOf lwsPre size) TakesAll) [] tr (undelivered tr) ∧
      g'.slots.length = maxBufCnt.toInt.toNat ∧
      g'.OccupiesInterval (undelivered tr).length ∧
      (0 < maxBufCnt.toInt → ∀ op, InContract lwsPre maxBufCnt.toInt.toNat tr op →
        (queueStep lwsPre g' op).isSome) := by
  obtain ⟨hready, hholds⟩ := ready_of_clientBufMgmtInit lwsPre (by omega) hinit
  have hinv : g'.Ready lwsPre size maxBufCnt.toInt.toNat ∧
      (g'.queue lwsPre).Holds (undelivered tr) ∧
      Run (FifoStep (roomOf lwsPre size) TakesAll) [] tr (undelivered tr) := by
    induction hrun with
    | nil => exact ⟨hready, hholds, .nil⟩
    | @snoc tr g1 g2 op o prior step ih =>
      obtain ⟨hok1, hop⟩ := Along.concat_iff.mp hok
      obtain ⟨hr, hq, hf⟩ := ih hok1
      obtain ⟨q', hstep, hq'⟩ :=
        queueStep_fifo hpre hsize hr hq (fifoSafe_of_inContract hr hq hop) step
      have hf' : Run (FifoStep (roomOf lwsPre size) TakesAll) [] (tr ++ [(op, o)]) q' := by
        apply hf.snoc
        apply hstep.takesAll
        rintro cb rfl
        exact hop
      rw [← eq_undelivered_of_fifoRun hf']
      exact ⟨hr.queueStep hpre hsize step, hq', hf'⟩
  obtain ⟨hr, hq, hf⟩ := hinv
  refine ⟨hf, hr.length_eq, occupiesInterval_of_holds hr hq, ?_⟩
  intro hn op hop
  cases op with
  | push msg type ok =>
    apply clientBufMgmtPush_isSome ok type hsize hr (by omega) hop.2.1
    apply hq.wrPos_free
    rw [hr.capacity_eq]
    exact hop.2.2
  | pop cb => exact clientBufMgmtPop_isSome cb hr (by omega)
  | clear => exact hop.elim

/-- A two-slot queue that stores a message, delivers it and stores another one. -/
theorem clientBufMgmt_refines_fifo_two :
    Run (FifoStep (roomOf 16 32) TakesAll) []
      [(.push [65] 1 true, { ret := leSuccess, notify := true }),
        (.pop (fun _ ↦ 2), { ret := leSuccess, offered := some (sealMsg [65] 1), notify := true }),
        (.push [66] 0 true, { ret := leSuccess, notify := true })] [sealMsg [66] 0] := by
  have hinit := clientBufMgmtInit_allOk 32 (show 0 ≤ (2 : Int32).toInt by decide) WsBuf.zero
  let ops : List QueueOp := [.push [65] 1 true, .pop (fun _ ↦ 2), .push [66] 0 true]
  obtain ⟨g', hexec⟩ : ∃ g', exec (queueStep 16) (initialised 32 2) ops = some ([_, _, _], g') := ⟨_, rfl⟩
  refine (clientBufMgmt_refines_fifo (by decide) (by decide) hinit (Run.of_exec _ hexec) ?_).1
  refine ((Along.nil.concat _ ?_).concat _ ?_).concat _ ?_
  · exact ⟨by decide, by decide, by decide⟩
  · exact fun _ ↦ show 0 ≤ (2 : Int32).toInt by decide
  · exact ⟨by decide, by decide, by decide⟩

/-! ### Clearing -/

/-- A queue with enough free slots stores one message after the other. -/
theorem exists_run_push (hpre : 0 < lwsPre) (hsize : lwsPre < size.toInt)
    (hg : g.Ready lwsPre size count) (hq : (g.queue lwsPre).Holds q) (msg : List UInt8)
    (type : Int32) (hlen : msg.length + 1 + lwsPre < sizeMod) (k : Nat)
    (hk : q.length + k ≤ count) :
    ∃ g', Run (StepRel.ofFn (queueStep lwsPre)) g
        (List.replicate k (.push msg type true, { ret := leSuccess, notify := true })) g' ∧
      g'.Ready lwsPre size count ∧ (g'.queue lwsPre).rdPos = (g.queue lwsPre).rdPos ∧
      (g'.queue lwsPre).Holds (q ++ List.replicate k (sealMsg msg type)) := by
  induction k with
  | zero => exact ⟨g, .nil, hg, rfl, by simpa using hq⟩
  | succ k ih =>
    obtain ⟨g1, hrun, hg1, hrd, hq1⟩ := ih (by omega)
    have hroom : (q ++ List.replicate k (sealMsg msg type)).length < (g1.queue lwsPre).capacity := by
      rw [hg1.capacity_eq, List.length_append, List.length_replicate]
      omega
    obtain ⟨⟨o, g2⟩, hpush⟩ := Option.isSome_iff_exists.mp
      (clientBufMgmtPush_isSome true type hsize hg1 (by omega) hlen
        (hq1.wrPos_free hroom))
    rcases clientBufMgmtPush_cases hpre hsize hg1 hpush with ⟨hf, -⟩ | ⟨-, rfl, heq, hg2⟩
    · cases hf
    · refine ⟨g2, ?_, hg2, by rw [heq, CyclicQueue.rdPos_put, hrd], ?_⟩
      · rw [List.replicate_succ']
        exact hrun.snoc hpush
      · rw [heq, List.replicate_succ', ← List.append_assoc]
        exact hq1.put hroom _

/-- The oldest message is popped by a callback that takes it whole. -/
theorem exists_step_pop (hg : g.Ready lwsPre size count) (hn : 0 < count)
    {offer : Offer} (hq : (g.queue lwsPre).Holds (offer :: q)) (cb : Offer → Int32)
    (hcb : offer.bufLen ≤ toSize (cb offer).toInt) :
    ∃ g', queueStep lwsPre g (.pop cb) =
        some ({ ret := leSuccess, offered := some offer, notify := true }, g') ∧
      g'.Ready lwsPre size count ∧ g'.queue lwsPre = (g.queue lwsPre).drop := by
  obtain ⟨⟨o, g'⟩, hpop⟩ := Option.isSome_iff_exists.mp (clientBufMgmtPop_isSome cb hg hn)
  rcases clientBufMgmtPop_cases hg hpop with
    ⟨hnone, -⟩ | ⟨b, hb, hlt, -⟩ | ⟨b, hb, -, rfl, heq, hg'⟩
  · rw [hq.head_eq] at hnone
    cases hnone
  · obtain rfl : offer = b := Option.some.inj (hq.head_eq.symm.trans hb)
    omega
  · obtain rfl : offer = b := Option.some.inj (hq.head_eq.symm.trans hb)
    exact ⟨g', hpop, hg', heq⟩

/-- A call offers what a cell held, and a cell holds only what it held before or what the
call stored. -/
private theorem queueStep_provenance (hpre : 0 < lwsPre) (hsize : lwsPre < size.toInt)
    (hg : g.Ready lwsPre size count) (hstep : queueStep lwsPre g op = some (o, g')) :
    (∀ a, o.offered = some a → ∃ i : Nat, ((g.queue lwsPre).cells[i]?).join = some a) ∧
      ∀ (i : Nat) (a : Offer), ((g'.queue lwsPre).cells[i]?).join = some a →
        ((g.queue lwsPre).cells[i]?).join = some a ∨ storedBy (op, o) = some a := by
  cases op with
  | push msg type ok =>
    rcases clientBufMgmtPush_cases hpre hsize hg hstep with
      ⟨-, -, rfl, -, heq, -⟩ | ⟨-, rfl, heq, -⟩
    · refine ⟨fun a ha ↦ (by cases ha), fun i a hc ↦ ?_⟩
      rw [heq] at hc
      exact .inl hc
    · refine ⟨fun a ha ↦ (by cases ha), fun i a hc ↦ ?_⟩
      rw [heq] at hc
      rcases CyclicQueue.cell_of_put hc with hold | rfl
      · exact .inl hold
      · exact .inr (by simp [storedBy])
  | pop cb =>
    rcases clientBufMgmtPop_cases hg hstep with ⟨-, rfl, -, heq, -⟩ |
      ⟨b, hb, -, rfl, -, heq, -⟩ | ⟨b, hb, -, rfl, heq, -⟩
    · refine ⟨fun a ha ↦ (by cases ha), fun i a hc ↦ ?_⟩
      rw [heq] at hc
      exact .inl hc
    · refine ⟨fun a ha ↦ ⟨_, hb.trans ha⟩, fun i a hc ↦ ?_⟩
      rw [heq] at hc
      exact .inl hc
    · refine ⟨fun a ha ↦ ⟨_, hb.trans ha⟩, fun i a hc ↦ ?_⟩
      rw [heq] at hc
      exact .inl (CyclicQueue.cell_of_drop hc)
  | clear =>
    obtain ⟨g1, h1, heq⟩ := Option.map_eq_some_iff.mp hstep
    obtain ⟨rfl, rfl⟩ := Prod.mk.inj heq
    refine ⟨fun a ha ↦ (by cases ha), fun i a hc ↦ .inl ?_⟩
    rw [WsBuf.queue_cell] at hc ⊢
    obtain ⟨item, hi, hcontent⟩ := Option.bind_eq_some_iff.mp hc
    rcases slot_after_clear h1 hi with hz | hold
    · rw [(MsgBufItem.content_eq_none_iff _).mpr hz] at hcontent
      cases hcontent
    · rw [hold, Option.bind_some, hcontent]

/-- From empty slots on, only messages stored since then are offered. -/
private theorem offered_since_empty (hpre : 0 < lwsPre) (hsize : lwsPre < size.toInt)
    (hg : g.Ready lwsPre size count) (hempty : ∀ item ∈ g.slots, item.bufLen = 0)
    (hrun : Run (StepRel.ofFn (queueStep lwsPre)) g tr g') :
    ∀ e ∈ tr, ∀ a, e.2.offered = some a → ∃ e' ∈ tr, storedBy e' = some a := by
  have hinv : g'.Ready lwsPre size count ∧
      (∀ (i : Nat) (a : Offer), ((g'.queue lwsPre).cells[i]?).join = some a →
        ∃ e' ∈ tr, storedBy e' = some a) ∧
      ∀ e ∈ tr, ∀ a, e.2.offered = some a → ∃ e' ∈ tr, storedBy e' = some a := by
    induction hrun with
    | nil =>
      refine ⟨hg, fun i a hc ↦ ?_, by simp⟩
      rw [WsBuf.queue_cell] at hc
      obtain ⟨item, hi, hcontent⟩ := Option.bind_eq_some_iff.mp hc
      rw [(MsgBufItem.content_eq_none_iff _).mpr (hempty item (List.mem_of_getElem? hi))]
        at hcontent
      cases hcontent
    | @snoc tr g1 g2 op o prior step ih =>
      obtain ⟨hr, hcells, hoff⟩ := ih
      obtain ⟨ho, hc⟩ := queueStep_provenance hpre hsize hr step
      have hmono {a : Offer} (h : ∃ e' ∈ tr, storedBy e' = some a) :
          ∃ e' ∈ tr ++ [(op, o)], storedBy e' = some a := by
        obtain ⟨e', he', hs⟩ := h
        exact ⟨e', List.mem_append_left _ he', hs⟩
      refine ⟨hr.queueStep hpre hsize step, ?_, ?_⟩
      · intro i a hcell
        rcases hc i a hcell with hold | hnew
        · exact hmono (hcells i a hold)
        · exact ⟨(op, o), by simp, hnew⟩
      · intro e he a ha
        rcases List.mem_append.mp he with hl | hl
        · exact hmono (hoff e hl a ha)
        · obtain rfl := List.mem_singleton.mp hl
          obtain ⟨i, hcell⟩ := ho a ha
          exact hmono (hcells i a hcell)
  exact hinv.2.2

/-- After a clear of `wsc_init`'s queue the slots are empty, only later messages are
offered and these in the order of a FIFO that starts empty, exactly if no slot from
`MAX_MSG_BUF_COUNT` on held a message. -/
theorem clear_empties_iff (hpre : 0 < lwsPre) (hlt : (lwsPre : Int) < 2048)
    (hinit : clientBufMgmtInit env wscInitSingleBufSize wscInitMaxBufCnt g0 = (leSuccess, g))
    (hrun : Run (StepRel.ofFn (queueStep lwsPre)) g tr h) :
    ∃ h', queueStep lwsPre h .clear = some ({ ret := leSuccess }, h') ∧
      (((∀ item ∈ h'.slots, item.bufLen = 0) ∧
        (∀ tr' k, Run (StepRel.ofFn (queueStep lwsPre)) h' tr' k →
          ∀ e ∈ tr', ∀ a, e.2.offered = some a → ∃ e' ∈ tr', storedBy e' = some a) ∧
        ∀ tr' k, Run (StepRel.guard (FifoSafe lwsPre) (StepRel.ofFn (queueStep lwsPre))) h' tr' k →
          Run (FifoStep (roomOf lwsPre wscInitSingleBufSize) SizeTakes) [] tr' (undelivered tr'))
        ↔ h.ClearReaches) := by
  have hsize : lwsPre < wscInitSingleBufSize.toInt := hlt
  obtain ⟨hready, -⟩ := ready_of_clientBufMgmtInit lwsPre (by decide) hinit
  have hr := hready.queueRun hpre hsize hrun
  obtain ⟨h', hclear, hrd, hwr, -, hr'⟩ := bufMgmtClientClearMsg_eq hr (by decide)
  have hstep : queueStep lwsPre h .clear = some ({ ret := leSuccess }, h') := by
    rw [queueStep, hclear]
    rfl
  refine ⟨h', hstep, ?_⟩
  rw [← slots_empty_after_clear_iff hr hclear]
  constructor
  · exact And.left
  · intro hempty
    refine ⟨hempty, fun tr' k hk ↦ offered_since_empty hpre hsize hr' hempty hk, ?_⟩
    intro tr' k hk
    have hholds : (h'.queue lwsPre).Holds [] := by
      refine CyclicQueue.holds_nil ?_ hrd hwr
      intro x hx
      obtain ⟨item, hm, rfl⟩ := List.mem_map.mp hx
      exact (MsgBufItem.content_eq_none_iff _).mpr (hempty item hm)
    obtain ⟨q', hf, -, -⟩ := queueRun_fifo hpre hsize hr' hholds hk
    rw [← eq_undelivered_of_fifoRun hf]
    exact hf

/-- After two messages were pushed and one of them popped, a clear leaves the queue empty. -/
theorem clear_empties_iff_one_left :
    ∃ tr h h', Run (StepRel.ofFn (queueStep 16))
        (initialised wscInitSingleBufSize wscInitMaxBufCnt) tr h ∧ tr.length = 3 ∧
      (h.queue 16).contents = [sealMsg [65] 1] ∧
      queueStep 16 h .clear = some ({ ret := leSuccess }, h') ∧
      ∀ item ∈ h'.slots, item.bufLen = 0 := by
  obtain ⟨hready, hholds⟩ := ready_wscInit
  obtain ⟨h1, hrun1, hr1, hrd1, hq1⟩ := exists_run_push (by decide) (by decide) hready hholds [65] 1
    (by decide) 2 (by decide)
  obtain ⟨h, hpop, hr, heq⟩ := exists_step_pop hr1 (by decide) hq1 (fun _ ↦ 2) (by decide)
  have hrun := hrun1.snoc (R := StepRel.ofFn (queueStep 16)) hpop
  have hq : (h.queue 16).Holds [sealMsg [65] 1] := heq ▸ hq1.drop
  have hrd : (h.queue 16).rdPos = 1 := by
    have hlt := CyclicQueue.rdPos_lt (c := h1.queue 16) (by rw [hr1.capacity_eq]; decide)
    rw [heq, CyclicQueue.rdPos_drop _ hlt, hrd1, ← hready.rdPos_eq, hr1.capacity_eq]
    rfl
  obtain ⟨h', hstep, hiff⟩ := clear_empties_iff (show 0 < 16 by decide) (by decide)
    clientBufMgmtInit_wscInit hrun
  refine ⟨_, h, h', hrun, rfl, hq.contents_eq, hstep, (hiff.mpr ?_).1⟩
  intro i item hi hitem
  by_contra hne
  -- The one message left is in the slot after the first.
  have hlt : i < (h.queue 16).capacity := by
    rw [hr.capacity_eq, ← hr.length_eq]
    exact (List.getElem?_eq_some_iff.mp hitem).1
  have hsome : (((h.queue 16).cells[i]?).join).isSome := by
    rw [WsBuf.queue_cell, hitem, Option.bind_some, Option.isSome_iff_ne_none]
    exact fun hnone ↦ hne ((MsgBufItem.content_eq_none_iff item).mp hnone)
  obtain ⟨j, hj, rfl⟩ := (hq.isSome_iff hlt).mp hsome
  obtain rfl : j = 0 := Nat.lt_one_iff.mp hj
  rw [hrd, hr.capacity_eq] at hi
  exact absurd hi (by decide)

/-- Nine messages pushed and one clear leave the ninth in its slot. -/
theorem clear_leaves_ninth_message :
    ∃ g h, Run (StepRel.ofFn (queueStep 16)) (initialised wscInitSingleBufSize wscInitMaxBufCnt)
        (List.replicate 9 (.push [65] 1 true, { ret := leSuccess, notify := true })) g ∧
      queueStep 16 g .clear = some ({ ret := leSuccess }, h) ∧
      ¬ ∀ item ∈ h.slots, item.bufLen = 0 := by
  obtain ⟨hready, hholds⟩ := ready_wscInit
  obtain ⟨g, hrun, hg, hrd, hq⟩ := exists_run_push (by decide) (by decide) hready hholds [65] 1
    (by decide) 9 (by decide)
  obtain ⟨h, hclear, -, -, -, -⟩ := bufMgmtClientClearMsg_eq hg (by decide)
  refine ⟨g, h, hrun, by rw [queueStep, hclear]; rfl, ?_⟩
  rw [slots_empty_after_clear_iff hg hclear]
  intro hreach
  -- The ninth slot lies beyond `MAX_MSG_BUF_COUNT` and holds the ninth message.
  have hninth := hq.ahead_eq 8 (by rw [hg.capacity_eq]; decide)
  have hpos : ((g.queue 16).rdPos + 8) % (g.queue 16).capacity = 8 := by
    rw [hrd, ← hready.rdPos_eq, hg.capacity_eq]
    rfl
  rw [CyclicQueue.ahead, hpos, WsBuf.queue_cell] at hninth
  obtain ⟨item, hitem, hcontent⟩ := Option.bind_eq_some_iff.mp
    (hninth.trans (show _ = some (sealMsg [65] 1) from rfl))
  rw [(MsgBufItem.content_eq_none_iff _).mpr (hreach 8 item (by decide) hitem)] at hcontent
  cases hcontent

/-! ### The promise of a push -/

/-- A call that reports an error and changes neither a slot nor the delivery order. -/
def Rejects (lwsPre : Nat) (g : WsBuf) (result : Option (Outcome × WsBuf)) : Prop :=
  ∃ o g', result = some (o, g') ∧ o.ret ≠ leSuccess ∧ g'.slots = g.slots ∧
    (g'.queue lwsPre).contents = (g.queue lwsPre).contents

/-- Whatever the row holds, `client_buf_mgmt_push` rejects a message exactly when it
cannot grow the slot it is about to write. -/
theorem clientBufMgmtPush_rejects_iff (hpre : 0 < lwsPre) (hsize : lwsPre < size.toInt)
    (hg : g.Ready lwsPre size count) (msg : List UInt8) (type : Int32) (ok : Bool) :
    Rejects lwsPre g (clientBufMgmtPush lwsPre ok (some msg) type g) ↔
      0 < count ∧ CannotGrow lwsPre size msg ok := by
  constructor
  · rintro ⟨o, g', hpush, hret, -, -⟩
    rcases clientBufMgmtPush_cases hpre hsize hg hpush with ⟨hok, hgrow, -⟩ | ⟨-, rfl, -⟩
    · refine ⟨Nat.pos_of_ne_zero fun hz ↦ ?_, hok, hgrow⟩
      have hnil : g.slots = [] := List.eq_nil_of_length_eq_zero (hg.length_eq.trans hz)
      simp [clientBufMgmtPush, hg.items_eq, hnil] at hpush
    · exact absurd rfl hret
  · rintro ⟨hn, rfl, hgrow⟩
    obtain ⟨g', hpush, hslots, heq, -⟩ :=
      clientBufMgmtPush_refused type hsize hg hn hgrow
    refine ⟨_, g', hpush, by decide, hslots, ?_⟩
    rw [heq]
    rfl

/-- `wsc_add_msg` rejects a message for its arguments or because the push does. -/
theorem wscAddMsg_rejects_iff (hpre : 0 < lwsPre) (hsize : lwsPre < size.toInt)
    (hg : g.Ready lwsPre size count) (msg : List UInt8) (type : Int32) (ok : Bool) :
    Rejects lwsPre g (wscAddMsg lwsPre ok (some msg) type g) ↔
      (msg = [] ∨ 1 < type.toInt ∨ type.toInt < 0) ∨
        0 < count ∧ CannotGrow lwsPre size msg ok := by
  unfold wscAddMsg
  split
  · next hbad =>
    have hargs : msg = [] ∨ 1 < type.toInt ∨ type.toInt < 0 := by simpa using hbad
    refine iff_of_true ⟨_, g, rfl, by decide, rfl, rfl⟩ (.inl hargs)
  · next hgood =>
    have hargs : ¬ (msg = [] ∨ 1 < type.toInt ∨ type.toInt < 0) := by simpa using hgood
    rw [clientBufMgmtPush_rejects_iff hpre hsize hg, or_iff_right hargs]

/-- A full queue keeps its messages from a new one exactly if the new one cannot be stored
for lack of memory; and along calls that never store into a full queue nor clear only a
part of one, every message reported as stored since the last clear was delivered or is
still queued, in that order. -/
theorem push_keeps_undelivered_iff (hpre : 0 < lwsPre) (hsize : lwsPre < size.toInt)
    (hinit : clientBufMgmtInit env size maxBufCnt g0 = (leSuccess, g)) :
    (∀ tr h, Run (StepRel.ofFn (queueStep lwsPre)) g tr h →
      ¬ h.HasFreeSlot → ∀ msg type ok,
        (Rejects lwsPre h (clientBufMgmtPush lwsPre ok (some msg) type h) ↔
          0 < maxBufCnt.toInt ∧ CannotGrow lwsPre size msg ok) ∧
        (Rejects lwsPre h (wscAddMsg lwsPre ok (some msg) type h) ↔
          (msg = [] ∨ 1 < type.toInt ∨ type.toInt < 0) ∨
            0 < maxBufCnt.toInt ∧ CannotGrow lwsPre size msg ok)) ∧
    ∀ tr h, Run (StepRel.guard (FifoSafe lwsPre) (StepRel.ofFn (queueStep lwsPre))) g tr h →
      accepted tr = delivered tr ++ (h.queue lwsPre).contents := by
  obtain ⟨hready, hholds⟩ := ready_of_clientBufMgmtInit lwsPre (by omega) hinit
  constructor
  · intro tr h hrun _ msg type ok
    have hr := hready.queueRun hpre hsize hrun
    rw [clientBufMgmtPush_rejects_iff hpre hsize hr, wscAddMsg_rejects_iff hpre hsize hr,
      Int.lt_toNat]
    exact ⟨Iff.rfl, Iff.rfl⟩
  · intro tr h hrun
    obtain ⟨q, hf, -, hq⟩ := queueRun_fifo hpre hsize hready hholds hrun
    rw [hq.contents_eq]
    exact accepted_eq_of_fifoRun hf

/-- A queue of one slot of 32 bytes that holds a message of one byte. -/
private def oneStored : WsBuf :=
  ⟨⟨0, 1, 32, 1⟩, some [⟨List.replicate 16 0 ++ [65, 0] ++ List.replicate 14 0, 2, 1⟩]⟩

private theorem run_oneStored :
    Run (StepRel.ofFn (queueStep 16)) (initialised 32 1)
      [(.push [65] 1 true, { ret := leSuccess, notify := true })] oneStored :=
  Run.single (R := StepRel.ofFn (queueStep 16)) rfl

private theorem not_hasFreeSlot_oneStored : ¬ oneStored.HasFreeSlot := by
  rintro ⟨item, hm, hz⟩
  obtain rfl := List.mem_singleton.mp hm
  cases hz

/-- Without memory a full one-slot queue rejects a message that needs more of it. -/
theorem push_keeps_undelivered_iff_one :
    ∃ h, Run (StepRel.ofFn (queueStep 16)) (initialised 32 1)
        [(.push [65] 1 true, { ret := leSuccess, notify := true })] h ∧ ¬ h.HasFreeSlot ∧
      Rejects 16 h (wscAddMsg 16 false (some (List.replicate 20 66)) 1 h) := by
  have hinit := clientBufMgmtInit_allOk 32 (show 0 ≤ (1 : Int32).toInt by decide) WsBuf.zero
  refine ⟨oneStored, run_oneStored, not_hasFreeSlot_oneStored, ?_⟩
  apply (((push_keeps_undelivered_iff (by decide) (by decide) hinit).1 _ _ run_oneStored
    not_hasFreeSlot_oneStored _ _ _).2).mpr
  exact .inr ⟨by decide, rfl, by decide⟩

/-- A one-slot queue reports a second message as stored and loses the first. -/
theorem push_overwrites_undelivered :
    ∃ h h', Run (StepRel.ofFn (queueStep 16)) (initialised 32 1)
        [(.push [65] 1 true, { ret := leSuccess, notify := true })] h ∧ ¬ h.HasFreeSlot ∧
      wscAddMsg 16 true (some [66]) 1 h = some ({ ret := leSuccess, notify := true }, h') ∧
      h'.slots ≠ h.slots ∧ (h'.queue 16).contents = [sealMsg [66] 1] :=
  ⟨oneStored, _, run_oneStored, not_hasFreeSlot_oneStored, rfl, by decide, by decide⟩

end LedaSdk.AliWs
