import LedaSdk.AliWs.Fifo

/-!
# A message in its slot

From the push that stores a message on, `client_buf_mgmt_pop` (`wsc_buffer_mgmt.c:100–132`)
offers from that slot what was stored, until another push stores into it; and some later calls
do lead to the offer, whatever the other slots hold.
-/

namespace LedaSdk.AliWs
open LedaSdk.Base

/-- Slot that the next push writes to. -/
def WsBuf.writeSlot (g : WsBuf) : Nat := CyclicQueue.norm g.state.maxBufCnt g.state.wrIndex

/-- Slot that the next pop reads from. -/
def WsBuf.readSlot (g : WsBuf) : Nat := CyclicQueue.norm g.state.maxBufCnt g.state.rdIndex

/-- What a pop would offer from slot `i`. -/
def WsBuf.held (lwsPre : Nat) (g : WsBuf) (i : Nat) : Option Offer :=
  ((g.queue lwsPre).cells[i]?).join

/-- The call stores another message into slot `i`. -/
def Replaces (i : Nat) (g : WsBuf) (o : Outcome) : QueueOp → Prop
  | .push _ _ _ => o.ret = leSuccess ∧ g.writeSlot = i
  | _ => False

/-- Calls that store no other message into slot `i`. -/
def keepingSlot (lwsPre i : Nat) : StepRel WsBuf QueueOp Outcome :=
  fun g op o g' ↦ queueStep lwsPre g op = some (o, g') ∧ ¬ Replaces i g o op

variable {lwsPre count i : Nat} {size : Int32} {g g' k : WsBuf} {op : QueueOp} {o : Outcome}
  {tr : QueueTrace} {a : Offer}

/-! ### What is offered -/

/-- Such a call leaves the slot as it is or empties it. -/
theorem held_keepingSlot (hpre : 0 < lwsPre) (hsize : lwsPre < size.toInt)
    (hg : g.Ready lwsPre size count) (h : keepingSlot lwsPre i g op o g') :
    g'.held lwsPre i = g.held lwsPre i ∨ g'.held lwsPre i = none := by
  obtain ⟨hstep, hkeeps⟩ := h
  cases op with
  | push msg type ok =>
    rcases clientBufMgmtPush_cases hpre hsize hg hstep with
      ⟨-, -, -, -, hqueue, -⟩ | ⟨-, rfl, hqueue, -⟩
    · left
      rw [WsBuf.held, hqueue]
      rfl
    · have hother : i ≠ (g.queue lwsPre).wrPos := fun hi ↦ hkeeps ⟨rfl, by
        rw [WsBuf.writeSlot, hg.wrPos_eq, hi]⟩
      left
      rw [WsBuf.held, hqueue]
      by_cases hw : (g.queue lwsPre).wrPos < (g.queue lwsPre).capacity
      · rw [CyclicQueue.cell_put _ _ hw, if_neg hother]
        rfl
      · rw [CyclicQueue.put, List.set_eq_of_length_le (Nat.le_of_not_lt hw)]
        rfl
  | pop cb =>
    rcases clientBufMgmtPop_cases hg hstep with ⟨-, -, -, hqueue, -⟩ | ⟨-, -, -, -, -, hqueue, -⟩ |
      ⟨-, -, -, -, hqueue, -⟩
    · left
      rw [WsBuf.held, hqueue]
      rfl
    · left
      rw [WsBuf.held, hqueue]
      rfl
    · cases hcell : g'.held lwsPre i with
      | none => exact .inr rfl
      | some b =>
        rw [WsBuf.held, hqueue] at hcell
        exact .inl (CyclicQueue.cell_of_drop hcell).symm
  | clear =>
    obtain ⟨g1, hclear, heq⟩ := Option.map_eq_some_iff.mp hstep
    obtain ⟨-, rfl⟩ := Prod.mk.inj heq
    rw [WsBuf.held, WsBuf.held, WsBuf.queue_cell, WsBuf.queue_cell]
    cases hitem : g1.slots[i]? with
    | none => exact .inr rfl
    | some item =>
      rcases slot_after_clear hclear hitem with hzero | hsame
      · exact .inr ((MsgBufItem.content_eq_none_iff _).mpr hzero)
      · exact .inl (by rw [hsame])

theorem held_run (hpre : 0 < lwsPre) (hsize : lwsPre < size.toInt)
    (hg : g.Ready lwsPre size count) (h : Run (keepingSlot lwsPre i) g tr k) :
    k.Ready lwsPre size count ∧ (k.held lwsPre i = g.held lwsPre i ∨ k.held lwsPre i = none) := by
  induction h with
  | nil => exact ⟨hg, .inl rfl⟩
  | snoc _ hstep ih =>
    obtain ⟨hready, hheld⟩ := ih
    refine ⟨hready.queueStep hpre hsize hstep.1, ?_⟩
    rcases held_keepingSlot hpre hsize hready hstep with hsame | hnone
    · rw [hsame]
      exact hheld
    · exact .inr hnone

/-- A pop offers what its slot holds. -/
theorem offered_eq_held {cb : Offer → Int32} (hg : g.Ready lwsPre size count)
    (h : queueStep lwsPre g (.pop cb) = some (o, g')) (ha : o.offered = some a) :
    g.held lwsPre g.readSlot = some a := by
  rw [WsBuf.readSlot, hg.rdPos_eq, WsBuf.held]
  rcases clientBufMgmtPop_cases hg h with ⟨-, rfl, -⟩ | ⟨b, hb, -, rfl, -⟩ | ⟨b, hb, -, rfl, -⟩
  · cases ha
  · rw [hb]
    exact ha
  · rw [hb]
    exact ha

/-- What is offered from a slot while no other message is stored there is what it held. -/
theorem offered_from_slot {cb : Offer → Int32} (hpre : 0 < lwsPre) (hsize : lwsPre < size.toInt)
    (hg : g.Ready lwsPre size count) (hrun : Run (keepingSlot lwsPre k.readSlot) g tr k)
    (h : queueStep lwsPre k (.pop cb) = some (o, g')) (ha : o.offered = some a) :
    g.held lwsPre k.readSlot = some a := by
  obtain ⟨hready, hheld⟩ := held_run hpre hsize hg hrun
  have hslot := offered_eq_held hready h ha
  rcases hheld with hsame | hnone
  · rw [← hsame, hslot]
  · rw [hnone] at hslot
    cases hslot

/-! ### Every message can be offered -/

/-- A byte is stored whatever the slot holds. -/
theorem exists_push_byte (hpre : 0 < lwsPre) (hroom : lwsPre + 2 ≤ size.toInt)
    (hg : g.Ready lwsPre size count) (hn : 0 < count) :
    ∃ g', queueStep lwsPre g (.push [65] 0 true) = some ({ ret := leSuccess, notify := true }, g') ∧
      g'.queue lwsPre = (g.queue lwsPre).put (sealMsg [65] 0) ∧ g'.Ready lwsPre size count := by
  have hlen : [(65 : UInt8)].length + 1 + lwsPre < sizeMod := by
    have := size.toInt_lt
    simp only [List.length_singleton, sizeMod]
    omega
  have hstays : ¬ g.ShrinksBelow lwsPre [65] true := by
    rintro ⟨-, hgrows, -⟩
    rw [hg.size_eq, List.length_singleton] at hgrows
    omega
  obtain ⟨⟨o, g'⟩, hpush⟩ := Option.isSome_iff_exists.mp
    ((clientBufMgmtPush_isSome_iff true 0 (by omega) hg hn hlen).mpr hstays)
  rcases clientBufMgmtPush_cases hpre (by omega) hg hpush with ⟨hf, -⟩ | ⟨-, rfl, hqueue, hr⟩
  · cases hf
  · exact ⟨g', hpush, hqueue, hr⟩

/-- A callback that returns -1 takes any message. -/
theorem exists_pop_taken (hg : g.Ready lwsPre size count) (hn : 0 < count)
    (ha : ((g.queue lwsPre).cells[(g.queue lwsPre).rdPos]?).join = some a) :
    ∃ o g', queueStep lwsPre g (.pop fun _ ↦ -1) = some (o, g') ∧ o.offered = some a ∧
      g'.queue lwsPre = (g.queue lwsPre).drop ∧ g'.Ready lwsPre size count := by
  have hlen : a.bufLen < sizeMod := by
    rw [WsBuf.queue_cell] at ha
    obtain ⟨item, hitem, hcontent⟩ := Option.bind_eq_some_iff.mp ha
    have hsized := hg.sized item (List.mem_of_getElem? hitem)
    have hbuf := hsized.lt_sizeMod
    rw [MsgBufItem.content] at hcontent
    split at hcontent
    · cases hcontent
    · next hne =>
      have hle := hsized.len_le hne
      rw [← Option.some.inj hcontent]
      change item.bufLen < sizeMod
      omega
  obtain ⟨⟨o, g'⟩, hpop⟩ := Option.isSome_iff_exists.mp
    (clientBufMgmtPop_isSome (fun _ ↦ -1) hg hn)
  refine ⟨o, g', hpop, ?_⟩
  rcases clientBufMgmtPop_cases hg hpop with ⟨hnone, -⟩ | ⟨b, hb, hlt, -⟩ | ⟨b, hb, -, rfl, hqueue, hr⟩
  · rw [hnone] at ha
    cases ha
  · rw [ha] at hb
    cases hb
    have hmax : toSize (-1 : Int32).toInt = sizeMod - 1 := rfl
    rw [hmax] at hlt
    omega
  · rw [ha] at hb
    cases hb
    exact ⟨rfl, hqueue, hr⟩

/-- After a message the other slots can be filled one after the other. -/
theorem exists_run_fill (hpre : 0 < lwsPre) (hroom : lwsPre + 2 ≤ size.toInt)
    (hg : g.Ready lwsPre size count) (hi : i < count)
    (hwr : (g.queue lwsPre).wrPos = (i + 1) % count) (ha : g.held lwsPre i = some a) (j : Nat)
    (hj : j < count) :
    ∃ tr k, Run (keepingSlot lwsPre i) g tr k ∧ k.Ready lwsPre size count ∧
      k.held lwsPre i = some a ∧ (k.queue lwsPre).wrPos = (i + (j + 1)) % count ∧
      ∀ l, 0 < l → l ≤ j → (k.held lwsPre ((i + l) % count)).isSome := by
  have hn : 0 < count := Nat.zero_lt_of_lt hi
  induction j with
  | zero => exact ⟨[], g, .nil, hg, ha, hwr, fun l hpos hle ↦ absurd hpos (Nat.not_lt.mpr hle)⟩
  | succ j ih =>
    obtain ⟨tr, k, hrun, hk, hheld, hpos, hfilled⟩ := ih (by omega)
    obtain ⟨k', hpush, hqueue, hk'⟩ := exists_push_byte hpre hroom hk hn
    have hin : (k.queue lwsPre).wrPos < (k.queue lwsPre).capacity := by
      rw [hpos, hk.capacity_eq]
      exact Nat.mod_lt _ hn
    have hcell (x : Nat) : k'.held lwsPre x =
        if x = (i + (j + 1)) % count then some (sealMsg [65] 0) else k.held lwsPre x := by
      rw [WsBuf.held, hqueue, CyclicQueue.cell_put _ _ hin, hpos]
      rfl
    -- The write position has not come round to the message.
    have hother : i ≠ (i + (j + 1)) % count := by
      intro heq
      have hzero : (i + 0) % count = i := Nat.mod_eq_of_lt hi
      have := (CyclicQueue.add_mod_inj hi hn hj).mp (hzero.trans heq)
      omega
    refine ⟨_, k', hrun.snoc ⟨hpush, ?_⟩, hk', ?_, ?_, ?_⟩
    · rintro ⟨-, hslot⟩
      rw [WsBuf.writeSlot, hk.wrPos_eq, hpos] at hslot
      exact hother hslot.symm
    · rw [hcell, if_neg hother, hheld]
    · rw [hqueue, CyclicQueue.wrPos_put _ _ hin, hpos, hk.capacity_eq, Nat.mod_add_mod,
        Nat.add_assoc]
    · intro l hlpos hle
      rw [hcell]
      split
      · rfl
      · next hne =>
        have hl : l ≠ j + 1 := fun heq ↦ hne (by rw [heq])
        exact hfilled l hlpos (by omega)

/-- Full slots are emptied one after the other, from the read position on. -/
theorem exists_run_drain (hg : g.Ready lwsPre size count) (d : Nat) (hd : d < count)
    (hi : i = ((g.queue lwsPre).rdPos + d) % count)
    (hfull : ∀ l ≤ d, (g.held lwsPre (((g.queue lwsPre).rdPos + l) % count)).isSome)
    (ha : g.held lwsPre i = some a) :
    ∃ tr k, Run (keepingSlot lwsPre i) g tr k ∧ k.Ready lwsPre size count ∧ k.readSlot = i ∧
      k.held lwsPre i = some a := by
  have hn : 0 < count := Nat.zero_lt_of_lt hd
  induction d generalizing g with
  | zero =>
    refine ⟨[], g, .nil, hg, ?_, ha⟩
    have hlt := CyclicQueue.rdPos_lt (c := g.queue lwsPre) (by rw [hg.capacity_eq]; exact hn)
    rw [hg.capacity_eq] at hlt
    rw [WsBuf.readSlot, hg.rdPos_eq, hi, Nat.add_zero, Nat.mod_eq_of_lt hlt]
  | succ d ih =>
    have hin := CyclicQueue.rdPos_lt (c := g.queue lwsPre) (by rw [hg.capacity_eq]; exact hn)
    have hlt := hin
    rw [hg.capacity_eq] at hlt
    have hhere := hfull 0 (Nat.zero_le _)
    rw [Nat.add_zero, Nat.mod_eq_of_lt hlt] at hhere
    obtain ⟨b, hb⟩ := Option.isSome_iff_exists.mp hhere
    obtain ⟨o, g', hpop, -, hqueue, hg'⟩ := exists_pop_taken hg hn hb
    have hcell (x : Nat) : g'.held lwsPre x =
        if x = (g.queue lwsPre).rdPos then none else g.held lwsPre x := by
      rw [WsBuf.held, hqueue, CyclicQueue.cell_drop _ hin]
      rfl
    have hnext (l : Nat) :
        ((g'.queue lwsPre).rdPos + l) % count = ((g.queue lwsPre).rdPos + (l + 1)) % count := by
      rw [hqueue, CyclicQueue.rdPos_drop _ hin, hg.capacity_eq, Nat.mod_add_mod, Nat.add_assoc,
        Nat.add_comm 1]
    have hkept {l : Nat} (hl : l ≤ d) : g'.held lwsPre (((g'.queue lwsPre).rdPos + l) % count) =
        g.held lwsPre (((g.queue lwsPre).rdPos + (l + 1)) % count) := by
      rw [hcell, hnext, if_neg]
      intro heq
      have hzero : ((g.queue lwsPre).rdPos + 0) % count = (g.queue lwsPre).rdPos :=
        Nat.mod_eq_of_lt hlt
      have := (CyclicQueue.add_mod_inj hlt (show l + 1 < count by omega) hn).mp (heq.trans hzero.symm)
      omega
    have hi' : i = ((g'.queue lwsPre).rdPos + d) % count := by rw [hnext, hi]
    obtain ⟨tr, k, hrun, hk, hslot, hheld⟩ := ih hg' (by omega) hi'
      (fun l hl ↦ by rw [hkept hl]; exact hfull (l + 1) (by omega))
      (by rw [hi', hkept (Nat.le_refl d), ← hi, ha])
    have hstep : keepingSlot lwsPre i g (.pop fun _ ↦ -1) o g' := ⟨hpop, fun h ↦ h⟩
    exact ⟨_, k, (Run.single hstep).append hrun, hk, hslot, hheld⟩

/-- Whatever the other slots hold, later calls lead to a pop that offers the message just
stored. -/
theorem exists_offer (hpre : 0 < lwsPre) (hroom : lwsPre + 2 ≤ size.toInt)
    (hg : g.Ready lwsPre size count) (hi : i < count)
    (hwr : (g.queue lwsPre).wrPos = (i + 1) % count) (ha : g.held lwsPre i = some a) :
    ∃ tr k, Run (keepingSlot lwsPre i) g tr k ∧ k.readSlot = i ∧
      ∃ cb o k', queueStep lwsPre k (.pop cb) = some (o, k') ∧ o.offered = some a := by
  have hn : 0 < count := Nat.zero_lt_of_lt hi
  obtain ⟨tr, k, hrun, hk, hheld, -, hfilled⟩ :=
    exists_run_fill hpre hroom hg hi hwr ha (count - 1) (by omega)
  have hfull : ∀ x < count, (k.held lwsPre x).isSome := by
    intro x hx
    obtain ⟨l, hl, rfl⟩ := CyclicQueue.exists_offset hi hx
    rcases Nat.eq_zero_or_pos l with rfl | hpos
    · rw [Nat.add_zero, Nat.mod_eq_of_lt hi, hheld]
      rfl
    · exact hfilled l hpos (by omega)
  have hrd := CyclicQueue.rdPos_lt (c := k.queue lwsPre) (by rw [hk.capacity_eq]; exact hn)
  rw [hk.capacity_eq] at hrd
  obtain ⟨d, hd, heq⟩ := CyclicQueue.exists_offset hrd hi
  obtain ⟨tr', k', hrun', hk', hslot, hheld'⟩ := exists_run_drain hk d hd heq
    (fun l _ ↦ hfull _ (Nat.mod_lt _ hn)) hheld
  have hcell : ((k'.queue lwsPre).cells[(k'.queue lwsPre).rdPos]?).join = some a := by
    rw [← hk'.rdPos_eq, ← WsBuf.readSlot, hslot]
    exact hheld'
  obtain ⟨o, k'', hpop, hoffered, -⟩ := exists_pop_taken hk' hn hcell
  exact ⟨_, k', hrun.append hrun', hslot, _, o, k'', hpop, hoffered⟩

end LedaSdk.AliWs
