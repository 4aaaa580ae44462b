import LedaSdk.AliWs.SlotInvariant
import Mathlib.Data.List.DropRight

/-!
# The outgoing queue as a FIFO

What the message buffers are for: an unbounded first-in first-out list of messages, each
offered to the network until it is taken whole. `queueStep_fifo` matches one call on the
buffers with one FIFO step; it fails for a push that finds no free slot and for a clear
that leaves messages behind, so both are conditions of it.
-/

namespace LedaSdk.AliWs
open LedaSdk.Base

/-- A history of calls on the queue with what they returned. -/
abbrev QueueTrace := List (QueueOp × Outcome)

/-- One call on the FIFO of undelivered offers, oldest first. Messages shorter than `room`
are stored without allocation; `takes ret len` says that the callback result `ret` means
that all `len` bytes were taken. -/
inductive FifoStep (room : Nat) (takes : Int32 → Nat → Prop) :
    StepRel (List Offer) QueueOp Outcome
  | pushed {q : List Offer} {msg : List UInt8} {type : Int32} {ok : Bool}
      (h : ok = true ∨ msg.length < room) :
      FifoStep room takes q (.push msg type ok) { ret := leSuccess, notify := true }
        (q ++ [sealMsg msg type])
  | refused {q : List Offer} {msg : List UInt8} {type : Int32} (h : room ≤ msg.length) :
      FifoStep room takes q (.push msg type false) { ret := leErrorAllocatingMem } q
  | popEmpty {cb : Offer → Int32} :
      FifoStep room takes [] (.pop cb) { ret := leSuccess } []
  | popKept {q : List Offer} {a : Offer} {cb : Offer → Int32} (h : ¬ takes (cb a) a.bufLen) :
      FifoStep room takes (a :: q) (.pop cb) { ret := leErrorUnknown, offered := some a } (a :: q)
  | popTaken {q : List Offer} {a : Offer} {cb : Offer → Int32} (h : takes (cb a) a.bufLen) :
      FifoStep room takes (a :: q) (.pop cb)
        { ret := leSuccess, offered := some a, notify := true } q
  | cleared {q : List Offer} : FifoStep room takes q .clear { ret := leSuccess } []

/-- The callback took at least `len` bytes. -/
def TakesAll (ret : Int32) (len : Nat) : Prop := (len : Int) ≤ ret.toInt

/-- The comparison that `client_buf_mgmt_pop` makes, in `size_t`. -/
def SizeTakes (ret : Int32) (len : Nat) : Prop := len ≤ toSize ret.toInt

/-- Length from which a message needs more than the configured buffer. -/
def roomOf (lwsPre : Nat) (size : Int32) : Nat := size.toInt.toNat - lwsPre

/-! ### What a history says -/

/-- The offer stored by a call, if it is a push that reported success. -/
def storedBy : QueueOp × Outcome → Option Offer
  | (.push msg type _, o) => if o.ret = leSuccess then some (sealMsg msg type) else none
  | _ => none

/-- The offer delivered by a call, if it is a pop that reported success. -/
def deliveredBy : QueueOp × Outcome → Option Offer
  | (.pop _, o) => if o.ret = leSuccess then o.offered else none
  | _ => none

/-- The call is not a clear. -/
def keepsMessages : QueueOp × Outcome → Bool
  | (.clear, _) => false
  | _ => true

/-- Part of the history after its last clear. -/
def sinceClear (tr : QueueTrace) : QueueTrace := tr.rtakeWhile keepsMessages

/-- Offers whose push reported success since the last clear, in push order. -/
def accepted (tr : QueueTrace) : List Offer := (sinceClear tr).filterMap storedBy

/-- Offers that the callback took since the last clear, in the order of delivery. -/
def delivered (tr : QueueTrace) : List Offer := (sinceClear tr).filterMap deliveredBy

/-- Accepted offers that have not been delivered. -/
def undelivered (tr : QueueTrace) : List Offer := (accepted tr).drop (delivered tr).length

private theorem accepted_concat (tr : QueueTrace) (e : QueueOp × Outcome)
    (h : keepsMessages e = true) : accepted (tr ++ [e]) = accepted tr ++ (storedBy e).toList := by
  rw [accepted, accepted, sinceClear, List.rtakeWhile_concat_pos _ _ _ h, List.filterMap_append,
    sinceClear]
  cases hs : storedBy e <;> simp [hs]

private theorem delivered_concat (tr : QueueTrace) (e : QueueOp × Outcome)
    (h : keepsMessages e = true) :
    delivered (tr ++ [e]) = delivered tr ++ (deliveredBy e).toList := by
  rw [delivered, delivered, sinceClear, List.rtakeWhile_concat_pos _ _ _ h,
    List.filterMap_append, sinceClear]
  cases hs : deliveredBy e <;> simp [hs]

private theorem sinceClear_clear (tr : QueueTrace) (o : Outcome) :
    sinceClear (tr ++ [(.clear, o)]) = [] :=
  List.rtakeWhile_concat_neg _ _ _ (by simp [keepsMessages])

variable {lwsPre count room : Nat} {takes : Int32 → Nat → Prop} {size : Int32}
  {g g' : WsBuf} {q q' : List Offer} {tr : QueueTrace} {op : QueueOp} {o : Outcome}

/-- Along a FIFO run, what was accepted is what was delivered followed by what is queued. -/
theorem accepted_eq_of_fifoRun (h : Run (FifoStep room takes) [] tr q) :
    accepted tr = delivered tr ++ q := by
  induction h with
  | nil => rfl
  | @snoc tr q q' op o prior step ih =>
    cases step with
    | pushed h =>
      rw [accepted_concat _ _ rfl, delivered_concat _ _ rfl, ih]
      simp [storedBy, deliveredBy]
    | refused h =>
      rw [accepted_concat _ _ rfl, delivered_concat _ _ rfl, ih]
      simp [storedBy, deliveredBy, leErrorAllocatingMem, leSuccess]
    | popEmpty =>
      rw [accepted_concat _ _ rfl, delivered_concat _ _ rfl, ih]
      simp [storedBy, deliveredBy]
    | popKept h =>
      rw [accepted_concat _ _ rfl, delivered_concat _ _ rfl, ih]
      simp [storedBy, deliveredBy, leErrorUnknown, leSuccess]
    | popTaken h =>
      rw [accepted_concat _ _ rfl, delivered_concat _ _ rfl, ih]
      simp [storedBy, deliveredBy]
    | cleared =>
      rw [accepted, delivered, sinceClear_clear]
      rfl

/-- The state of a FIFO run is what its history leaves undelivered. -/
theorem eq_undelivered_of_fifoRun (h : Run (FifoStep room takes) [] tr q) :
    q = undelivered tr := by
  rw [undelivered, accepted_eq_of_fifoRun h, List.drop_left]

/-! ### One call on the buffers -/

/-- Some slot holds no message. -/
def WsBuf.HasFreeSlot (g : WsBuf) : Prop := ∃ item ∈ g.slots, item.bufLen = 0

/-- No slot outside the range that a clear resets holds a message. -/
def WsBuf.ClearReaches (g : WsBuf) : Prop :=
  ∀ i item, maxMsgBufCount ≤ i → g.slots[i]? = some item → item.bufLen = 0

/-- A push of `msg` has to grow its slot and `realloc` fails. -/
def CannotGrow (lwsPre : Nat) (size : Int32) (msg : List UInt8) (ok : Bool) : Prop :=
  ok = false ∧ size.toInt < lwsPre + sizeAdd msg.length 1

/-- The calls that the buffers carry out as the FIFO does: every pop, a push that finds a
free slot or cannot grow its own, a clear that reaches all messages. -/
def FifoSafe (lwsPre : Nat) (g : WsBuf) : QueueOp → Prop
  | .push msg _ ok => g.HasFreeSlot ∨ CannotGrow lwsPre g.state.singleBufSize msg ok
  | .pop _ => True
  | .clear => g.ClearReaches

/-- The cell of the queue at a slot is what the slot holds. -/
theorem WsBuf.queue_cell (lwsPre : Nat) (g : WsBuf) (i : Nat) :
    ((g.queue lwsPre).cells[i]?).join = (g.slots[i]?).bind (MsgBufItem.content lwsPre) := by
  simp only [WsBuf.queue, List.getElem?_map]
  cases g.slots[i]? <;> rfl

/-- A slot is free exactly when the queue is shorter than the row. -/
theorem WsBuf.Ready.hasFreeSlot_iff (hg : g.Ready lwsPre size count)
    (hq : (g.queue lwsPre).Holds q) : g.HasFreeSlot ↔ q.length < count := by
  have hl := hq.length_lt_iff
  rw [hg.capacity_eq] at hl
  rw [hl, WsBuf.HasFreeSlot]
  constructor
  · rintro ⟨item, hm, he⟩
    obtain ⟨i, hi, rfl⟩ := List.mem_iff_getElem.mp hm
    refine ⟨i, by rw [← hg.length_eq]; exact hi, ?_⟩
    rw [WsBuf.queue_cell, List.getElem?_eq_getElem hi, Option.bind_some]
    exact (MsgBufItem.content_eq_none_iff _).mpr he
  · rintro ⟨i, hi, he⟩
    rw [← hg.length_eq] at hi
    refine ⟨g.slots[i], List.getElem_mem hi, ?_⟩
    rw [WsBuf.queue_cell, List.getElem?_eq_getElem hi, Option.bind_some] at he
    exact (MsgBufItem.content_eq_none_iff _).mp he

/-- Every call on a ready row leaves it ready. -/
theorem WsBuf.Ready.queueStep (hpre : 0 < lwsPre) (hsize : lwsPre < size.toInt)
    (hg : g.Ready lwsPre size count) (h : queueStep lwsPre g op = some (o, g')) :
    g'.Ready lwsPre size count := by
  cases op with
  | push msg type ok =>
    rcases clientBufMgmtPush_cases hpre hsize hg h with ⟨_, _, _, _, _, hr⟩ | ⟨_, _, _, hr⟩
    · exact hr
    · exact hr
  | pop cb =>
    rcases clientBufMgmtPop_cases hg h with ⟨_, _, _, _, hr⟩ | ⟨_, _, _, _, _, _, hr⟩ |
      ⟨_, _, _, _, _, hr⟩
    · exact hr
    · exact hr
    · exact hr
  | clear =>
    obtain ⟨g1, h1, heq⟩ := Option.map_eq_some_iff.mp h
    obtain ⟨-, rfl⟩ := Prod.mk.inj heq
    have hn : maxMsgBufCount ≤ count := by
      rw [bufMgmtClientClearMsg, hg.items_eq] at h1
      simp only [Option.bind_eq_bind, Option.bind_some] at h1
      split at h1
      · next hle => rw [← hg.length_eq]; exact hle
      · cases h1
    obtain ⟨g2, h2, -, -, -, hr⟩ := bufMgmtClientClearMsg_eq hg hn
    rw [h1] at h2
    rw [Option.some.inj h2]
    exact hr

/-- A slot after a clear is empty or as it was. -/
theorem slot_after_clear {i : Nat} {item : MsgBufItem} (h : bufMgmtClientClearMsg g = some g')
    (hi : g'.slots[i]? = some item) : item.bufLen = 0 ∨ g.slots[i]? = some item := by
  simp only [bufMgmtClientClearMsg, Option.bind_eq_bind, Option.bind_eq_some_iff] at h
  obtain ⟨items, hitems, h⟩ := h
  have hslots : g.slots = items := by rw [WsBuf.slots, hitems]; rfl
  rw [hslots]
  split at h
  · next hle =>
    have hlen : ((items.take maxMsgBufCount).map
        (fun item ↦ ({ item with bufLen := 0 } : MsgBufItem))).length = maxMsgBufCount := by
      rw [List.length_map, List.length_take, Nat.min_eq_left hle]
    rw [← Option.some.inj h, WsBuf.slots_some] at hi
    by_cases hlt : i < maxMsgBufCount
    · left
      rw [List.getElem?_append_left (by rw [hlen]; exact hlt), List.getElem?_map] at hi
      obtain ⟨old, -, rfl⟩ := Option.map_eq_some_iff.mp hi
      rfl
    · right
      rw [List.getElem?_append_right (by omega), hlen, List.getElem?_drop,
        Nat.add_sub_cancel' (by omega)] at hi
      exact hi
  · cases h

/-- A clear leaves exactly the messages beyond `MAX_MSG_BUF_COUNT`. -/
theorem slots_empty_after_clear_iff (hg : g.Ready lwsPre size count)
    (h : bufMgmtClientClearMsg g = some g') :
    (∀ item ∈ g'.slots, item.bufLen = 0) ↔ g.ClearReaches := by
  rw [bufMgmtClientClearMsg, hg.items_eq] at h
  simp only [Option.bind_eq_bind, Option.bind_some] at h
  split at h
  · next hle =>
    rw [← Option.some.inj h, WsBuf.slots_some]
    constructor
    · intro hall i item hi hget
      apply hall item (List.mem_append_right _ _)
      rw [List.mem_iff_getElem?]
      refine ⟨i - maxMsgBufCount, ?_⟩
      rw [List.getElem?_drop, Nat.add_sub_cancel' hi]
      exact hget
    · intro hreach item hm
      rcases List.mem_append.mp hm with ht | hd
      · obtain ⟨old, -, rfl⟩ := List.mem_map.mp ht
        rfl
      · obtain ⟨i, hi⟩ := List.mem_iff_getElem?.mp hd
        rw [List.getElem?_drop] at hi
        exact hreach _ _ (Nat.le_add_right _ _) hi
  · cases h

private theorem indices_after_clear (h : bufMgmtClientClearMsg g = some g') :
    g'.state.rdIndex = 0 ∧ g'.state.wrIndex = 0 := by
  simp only [bufMgmtClientClearMsg, Option.bind_eq_bind, Option.bind_eq_some_iff] at h
  obtain ⟨items, -, h⟩ := h
  split at h
  · rw [← Option.some.inj h]
    exact ⟨rfl, rfl⟩
  · cases h

/-- One call under `FifoSafe` is one FIFO step with the same outcome. -/
theorem queueStep_fifo (hpre : 0 < lwsPre) (hsize : lwsPre < size.toInt)
    (hg : g.Ready lwsPre size count) (hq : (g.queue lwsPre).Holds q)
    (hsafe : FifoSafe lwsPre g op) (h : queueStep lwsPre g op = some (o, g')) :
    ∃ q', FifoStep (roomOf lwsPre size) SizeTakes q op o q' ∧ (g'.queue lwsPre).Holds q' := by
  cases op with
  | push msg type ok =>
    rcases clientBufMgmtPush_cases hpre hsize hg h with
      ⟨rfl, hgrow, rfl, -, heq, -⟩ | ⟨hfit, rfl, heq, -⟩
    · refine ⟨q, .refused ?_, by rw [heq]; exact hq.wrapWr⟩
      have hle : sizeAdd msg.length 1 ≤ msg.length + 1 := Nat.mod_le _ _
      unfold roomOf
      omega
    · refine ⟨q ++ [sealMsg msg type], .pushed ?_, ?_⟩
      · unfold roomOf
        rcases hfit with hok | hfit
        · exact .inl hok
        · right
          omega
      · rw [heq]
        apply hq.put
        rw [hg.capacity_eq, ← hg.hasFreeSlot_iff hq]
        rcases hsafe with hfree | ⟨rfl, hgrow⟩
        · exact hfree
        · -- A push that cannot grow its slot was not the one that stored.
          rw [hg.size_eq] at hgrow
          rcases hfit with hok | hfit
          · cases hok
          · have hle : sizeAdd msg.length 1 ≤ msg.length + 1 := Nat.mod_le _ _
            omega
  | pop cb =>
    rcases clientBufMgmtPop_cases hg h with ⟨hnone, rfl, -, heq, -⟩ |
      ⟨a, hsome, hlt, rfl, -, heq, -⟩ | ⟨a, hsome, hle, rfl, heq, -⟩
    · rw [hq.head_eq, List.head?_eq_none_iff] at hnone
      obtain rfl := hnone
      exact ⟨[], .popEmpty, by rw [heq]; exact hq.wrapRd⟩
    · rw [hq.head_eq] at hsome
      obtain ⟨q, rfl⟩ := List.head?_eq_some_iff.mp hsome
      exact ⟨a :: q, .popKept (Nat.not_le.mpr hlt), by rw [heq]; exact hq.wrapRd⟩
    · rw [hq.head_eq] at hsome
      obtain ⟨q, rfl⟩ := List.head?_eq_some_iff.mp hsome
      exact ⟨q, .popTaken hle, by rw [heq]; exact hq.drop⟩
  | clear =>
    obtain ⟨g1, h1, heq⟩ := Option.map_eq_some_iff.mp h
    obtain ⟨rfl, rfl⟩ := Prod.mk.inj heq
    refine ⟨[], .cleared, CyclicQueue.holds_nil ?_ ?_ ?_⟩
    · intro x hx
      obtain ⟨item, hm, rfl⟩ := List.mem_map.mp hx
      apply (MsgBufItem.content_eq_none_iff _).mpr
      exact (slots_empty_after_clear_iff hg h1).mpr hsafe item hm
    · exact (indices_after_clear h1).1
    · exact (indices_after_clear h1).2

/-- A run of calls under `FifoSafe` is a FIFO run with the same history. -/
theorem queueRun_fifo (hpre : 0 < lwsPre) (hsize : lwsPre < size.toInt)
    (hg : g.Ready lwsPre size count) (hq : (g.queue lwsPre).Holds q)
    (h : Run (StepRel.guard (FifoSafe lwsPre) (StepRel.ofFn (queueStep lwsPre))) g tr g') :
    ∃ q', Run (FifoStep (roomOf lwsPre size) SizeTakes) q tr q' ∧
      g'.Ready lwsPre size count ∧ (g'.queue lwsPre).Holds q' :=
  h.simulate (I := fun _ t q' ↦ t.Ready lwsPre size count ∧ (t.queue lwsPre).Holds q')
    ⟨hg, hq⟩ fun _ _ _ _ _ _ ⟨hr, hh⟩ ⟨hsafe, hstep⟩ ↦
      let ⟨q', hq', hh'⟩ := queueStep_fifo hpre hsize hr hh hsafe hstep
      ⟨q', hq', hr.queueStep hpre hsize hstep, hh'⟩

/-- Any run of calls keeps the row ready, safe or not. -/
theorem WsBuf.Ready.queueRun (hpre : 0 < lwsPre) (hsize : lwsPre < size.toInt)
    (hg : g.Ready lwsPre size count)
    (h : Run (StepRel.ofFn (AliWs.queueStep lwsPre)) g tr g') : g'.Ready lwsPre size count :=
  h.invariant hg fun _ _ _ _ hr hs ↦ hr.queueStep hpre hsize hs

end LedaSdk.AliWs
