import LedaSdk.AliWs.BufferMgmt
import LedaSdk.Base.Run

/-!
# What one call does to the slots

`WsBuf.queue` reads the globals as a cyclic queue of offers. One lemma for each call says
which cyclic-queue operation it is, and that the slots keep their sizes; later modules use
these and never unfold the calls.
-/

namespace LedaSdk.AliWs
open LedaSdk.Base

/-- What a pop would offer from this slot; an empty slot has `buf_len` zero. -/
def MsgBufItem.content (lwsPre : Nat) (item : MsgBufItem) : Option Offer :=
  if item.bufLen = 0 then none
  else some ⟨(item.buf.drop lwsPre).take item.bufLen, item.bufLen, item.type⟩

/-- The slots; none without the row. -/
def WsBuf.slots (g : WsBuf) : List MsgBufItem := g.items.getD []

/-- The globals as a cyclic queue of offers. -/
def WsBuf.queue (lwsPre : Nat) (g : WsBuf) : CyclicQueue Offer :=
  ⟨g.slots.map (MsgBufItem.content lwsPre), g.state.rdIndex, g.state.wrIndex⟩

/-- The offer made of a message: its bytes, one NUL and its type. -/
def sealMsg (msg : List UInt8) (type : Int32) : Offer := ⟨msg ++ [0], msg.length + 1, type⟩

/-- A slot's block has at least the configured size and room for what the slot holds. -/
structure MsgBufItem.Sized (lwsPre : Nat) (size : Int32) (item : MsgBufItem) : Prop where
  size_le : size.toInt.toNat ≤ item.buf.length
  len_le : item.bufLen ≠ 0 → lwsPre + item.bufLen ≤ item.buf.length
  lt_sizeMod : item.buf.length < sizeMod

/-- The row exists, has `count` slots of the configured size, and the settings are those
given to `client_buf_mgmt_init`. -/
structure WsBuf.Ready (lwsPre : Nat) (size : Int32) (count : Nat) (g : WsBuf) : Prop where
  items_eq : g.items = some g.slots
  length_eq : g.slots.length = count
  count_eq : g.state.maxBufCnt = count
  size_eq : g.state.singleBufSize = size
  sized : ∀ item ∈ g.slots, item.Sized lwsPre size

variable {lwsPre count : Nat} {size : Int32} {g g' : WsBuf} {o : Outcome}

@[simp] theorem MsgBufItem.content_eq_none_iff (item : MsgBufItem) :
    item.content lwsPre = none ↔ item.bufLen = 0 := by
  unfold content
  split <;> simp [*]

@[simp] theorem WsBuf.slots_some (state : MsgBufStatus) (items : List MsgBufItem) :
    (WsBuf.mk state (some items)).slots = items := rfl

namespace WsBuf.Ready

theorem capacity_eq (h : g.Ready lwsPre size count) : (g.queue lwsPre).capacity = count := by
  simp [WsBuf.queue, CyclicQueue.capacity, h.length_eq]

theorem rdPos_eq (h : g.Ready lwsPre size count) :
    CyclicQueue.norm g.state.maxBufCnt g.state.rdIndex = (g.queue lwsPre).rdPos := by
  rw [CyclicQueue.rdPos, h.capacity_eq, h.count_eq]
  rfl

theorem wrPos_eq (h : g.Ready lwsPre size count) :
    CyclicQueue.norm g.state.maxBufCnt g.state.wrIndex = (g.queue lwsPre).wrPos := by
  rw [CyclicQueue.wrPos, h.capacity_eq, h.count_eq]
  rfl

/-- Replacing one slot by one of the right size keeps the row ready. -/
theorem set (h : g.Ready lwsPre size count) {state : MsgBufStatus} {i : Nat}
    {item : MsgBufItem} (hc : state.maxBufCnt = count) (hs : state.singleBufSize = size)
    (hi : item.Sized lwsPre size) :
    (WsBuf.mk state (some (g.slots.set i item))).Ready lwsPre size count where
  items_eq := rfl
  length_eq := by rw [WsBuf.slots_some, List.length_set, h.length_eq]
  count_eq := hc
  size_eq := hs
  sized x hx := by
    rw [WsBuf.slots_some] at hx
    rcases List.mem_or_eq_of_mem_set hx with hm | rfl
    · exact h.sized x hm
    · exact hi

/-- Changing only an index keeps the row ready. -/
theorem setIndices (h : g.Ready lwsPre size count) (rd wr : Nat) :
    (WsBuf.mk { g.state with rdIndex := rd, wrIndex := wr } g.items).Ready lwsPre size count where
  items_eq := h.items_eq
  length_eq := h.length_eq
  count_eq := h.count_eq
  size_eq := h.size_eq
  sized := h.sized

end WsBuf.Ready

/-- The environment in which every call of an initialisation succeeds. -/
def InitEnv.allOk : InitEnv := ⟨true, true, fun _ ↦ true⟩

/-- The globals after an initialisation in which every call succeeds. -/
def initialised (size maxBufCnt : Int32) : WsBuf :=
  ⟨⟨0, 0, size, maxBufCnt.toInt.toNat⟩, some (List.replicate maxBufCnt.toInt.toNat
    ⟨List.replicate (toSize size.toInt) 0, 0, 0⟩)⟩

theorem clientBufMgmtInit_allOk (size : Int32) {maxBufCnt : Int32}
    (h : 0 ≤ maxBufCnt.toInt) (g : WsBuf) :
    clientBufMgmtInit InitEnv.allOk size maxBufCnt g =
      (leSuccess, initialised size maxBufCnt) := by
  simp [clientBufMgmtInit, InitEnv.allOk, initialised, h]

/-- A successful initialisation yields an empty ready row. -/
theorem ready_of_clientBufMgmtInit (lwsPre : Nat) {env : InitEnv} {size maxBufCnt : Int32}
    {g0 : WsBuf} (hpos : 0 ≤ size.toInt) (h : clientBufMgmtInit env size maxBufCnt g0 = (leSuccess, g)) :
    g.Ready lwsPre size maxBufCnt.toInt.toNat ∧ (g.queue lwsPre).Holds [] := by
  have hb := size.toInt_lt
  unfold clientBufMgmtInit at h
  split at h
  · dsimp only at h
    split at h
    · split at h
      · obtain ⟨-, rfl⟩ := Prod.mk.inj h
        constructor
        · refine ⟨rfl, by simp, rfl, rfl, ?_⟩
          intro item hi
          rw [WsBuf.slots_some] at hi
          obtain rfl := List.eq_of_mem_replicate hi
          refine ⟨?_, by simp, ?_⟩
          · simp only [List.length_replicate, toSize_int32 hpos]
            exact Nat.le_refl _
          · simp only [List.length_replicate, toSize_int32 hpos, sizeMod]
            omega
        · refine CyclicQueue.holds_nil ?_ rfl rfl
          intro x hx
          simp only [WsBuf.queue, WsBuf.slots_some, List.map_replicate] at hx
          rw [List.eq_of_mem_replicate hx, MsgBufItem.content_eq_none_iff]
      · exact absurd (Prod.mk.inj h).1 (by decide)
    · exact absurd (Prod.mk.inj h).1 (by decide)
  · exact absurd (Prod.mk.inj h).1 (by decide)

/-- An initialisation of `wsc_init`'s queue in which every call succeeds. -/
theorem clientBufMgmtInit_wscInit :
    clientBufMgmtInit InitEnv.allOk wscInitSingleBufSize wscInitMaxBufCnt WsBuf.zero =
      (leSuccess, initialised wscInitSingleBufSize wscInitMaxBufCnt) :=
  clientBufMgmtInit_allOk _ (by decide) _

theorem ready_wscInit :
    (initialised wscInitSingleBufSize wscInitMaxBufCnt).Ready 16 wscInitSingleBufSize
        wscInitMaxBufCnt.toInt.toNat ∧
      ((initialised wscInitSingleBufSize wscInitMaxBufCnt).queue 16).Holds [] :=
  ready_of_clientBufMgmtInit 16 (by decide) clientBufMgmtInit_wscInit

/-! ### Push -/

private theorem growSlot_cases (lwsPre : Nat) (size : Int32) (ok : Bool) (buf : List UInt8)
    (len : Nat) :
    (toSize (size.toInt - lwsPre) < len ∧ ok = false ∧ growSlot lwsPre ok size buf len = none) ∨
    (toSize (size.toInt - lwsPre) < len ∧ ok = true ∧ ∃ block,
      growSlot lwsPre ok size buf len = some block ∧ block.length = sizeAdd len lwsPre) ∨
    (len ≤ toSize (size.toInt - lwsPre) ∧ growSlot lwsPre ok size buf len = some buf) := by
  unfold growSlot
  by_cases hgrow : toSize (size.toInt - lwsPre) < len
  · rw [if_pos hgrow]
    cases ok with
    | false => exact .inl ⟨hgrow, rfl, rfl⟩
    | true =>
      right; left
      have hs := (Block.memcpy_isSome_iff (Block.resize buf (sizeAdd len lwsPre) 0) 0
        (List.replicate (sizeAdd len lwsPre) 0)).mpr (by
          rw [Block.length_resize, List.length_replicate]; omega)
      obtain ⟨block, hb⟩ := Option.isSome_iff_exists.mp hs
      refine ⟨hgrow, rfl, block, hb, ?_⟩
      rw [Block.length_memcpy hb, Block.length_resize]
  · rw [if_neg hgrow]
    exact .inr (.inr ⟨by omega, rfl⟩)

private theorem fillSlot_eq {block msg : List UInt8} {old len : Nat} {type : Int32}
    {item : MsgBufItem} (h : fillSlot lwsPre block old msg len type = some item) :
    lwsPre + msg.length ≤ block.length ∧ item.buf.length = block.length ∧ item.bufLen = len ∧
      item.type = type ∧
      (sizeSub (sizeAdd lwsPre len) 1 = lwsPre + msg.length →
        Block.read item.buf lwsPre (msg.length + 1) = some (msg ++ [0])) := by
  simp only [fillSlot, Option.bind_eq_bind, Option.bind_eq_some_iff, Option.pure_def,
    Option.some.injEq] at h
  obtain ⟨cleared, hcl, copied, hco, terminated, hte, rfl⟩ := h
  have hl := Block.length_memcpy hcl
  have hsome := (Block.memcpy_isSome_iff cleared lwsPre msg).mp (by rw [hco]; rfl)
  refine ⟨by omega, ?_, rfl, rfl, ?_⟩
  · rw [Block.length_memcpy hte, Block.length_memcpy hco, hl]
  · intro hoff
    rw [hoff] at hte
    apply Block.read_append
    · rw [Block.read_memcpy_before hte (Nat.le_refl _)]
      exact Block.read_memcpy hco
    · exact Block.read_memcpy hte

/-- A slot after a push that stayed inside its block: it holds the sealed message and has
its size again. Because the copy fitted, none of the `size_t` sums can have wrapped. -/
private theorem written_slot {ok : Bool} {item item' : MsgBufItem} {block msg : List UInt8}
    {type : Int32} (hpre : 0 < lwsPre) (hsize : lwsPre < size.toInt)
    (hitem : item.Sized lwsPre size)
    (hgrow : growSlot lwsPre ok size item.buf (sizeAdd msg.length 1) = some block)
    (hfill : fillSlot lwsPre block item.bufLen msg (sizeAdd msg.length 1) type = some item') :
    item'.content lwsPre = some (sealMsg msg type) ∧ item'.Sized lwsPre size ∧
      (ok = true ∨ lwsPre + (msg.length + 1) ≤ size.toInt) := by
  obtain ⟨hroom, hlen, hbl, hty, hread⟩ := fillSlot_eq hfill
  have hcap : toSize (size.toInt - lwsPre) = (size.toInt - lwsPre).toNat :=
    toSize_of_nonneg (by omega) (by have := size.toInt_lt; omega)
  have hblock : block.length < sizeMod := by
    rcases growSlot_cases lwsPre size ok item.buf (sizeAdd msg.length 1) with ⟨-, -, he⟩ | ⟨-, -, b, he, hb⟩ | ⟨-, he⟩
    · rw [he] at hgrow; cases hgrow
    · rw [he] at hgrow
      rw [← Option.some.inj hgrow, hb]
      exact sizeAdd_lt _ _
    · rw [he] at hgrow
      rw [← Option.some.inj hgrow]
      exact hitem.lt_sizeMod
  have hone : sizeAdd msg.length 1 = msg.length + 1 := sizeAdd_of_lt (by omega)
  rw [hone] at hgrow hbl
  have hfits : lwsPre + (msg.length + 1) ≤ block.length ∧ size.toInt.toNat ≤ block.length ∧
      (ok = true ∨ lwsPre + (msg.length + 1) ≤ size.toInt) := by
    rcases growSlot_cases lwsPre size ok item.buf (msg.length + 1) with ⟨-, -, he⟩ | ⟨hg, hok, b, he, hb⟩ | ⟨hg, he⟩
    · rw [he] at hgrow; cases hgrow
    · rw [he] at hgrow
      rw [Option.some.inj hgrow] at hb
      by_cases hw : msg.length + 1 + lwsPre < sizeMod
      · rw [sizeAdd_of_lt hw] at hb
        exact ⟨by omega, by omega, .inl hok⟩
      · rw [sizeAdd_of_eq (by omega)] at hb
        omega
    · rw [he] at hgrow
      have := hitem.size_le
      rw [← Option.some.inj hgrow]
      exact ⟨by omega, by omega, .inr (by omega)⟩
  obtain ⟨hin, hsz, hdone⟩ := hfits
  have hoff : sizeSub (sizeAdd lwsPre (sizeAdd msg.length 1)) 1 = lwsPre + msg.length := by
    rw [hone, sizeAdd_of_lt (by omega), sizeSub_of_le (by omega) (by omega) (by decide)]
    omega
  refine ⟨?_, ⟨by omega, fun _ ↦ by omega, by omega⟩, hdone⟩
  have hr := hread hoff
  rw [Block.read, if_pos (by omega)] at hr
  rw [MsgBufItem.content, hbl, if_neg (by omega), Option.some.inj hr, hty]
  rfl

/-- A push either fails to grow its slot, changing nothing but a wrapped write index, or
stores the sealed message at the write position. -/
theorem clientBufMgmtPush_cases {ok : Bool} {msg : List UInt8} {type : Int32}
    (hpre : 0 < lwsPre) (hsize : lwsPre < size.toInt) (hg : g.Ready lwsPre size count)
    (h : clientBufMgmtPush lwsPre ok (some msg) type g = some (o, g')) :
    (ok = false ∧ size.toInt < lwsPre + (sizeAdd msg.length 1) ∧
      o = { ret := leErrorAllocatingMem } ∧ g'.slots = g.slots ∧
      g'.queue lwsPre = (g.queue lwsPre).wrapWr ∧ g'.Ready lwsPre size count) ∨
    ((ok = true ∨ lwsPre + (msg.length + 1) ≤ size.toInt) ∧
      o = { ret := leSuccess, notify := true } ∧
      g'.queue lwsPre = (g.queue lwsPre).put (sealMsg msg type) ∧
      g'.Ready lwsPre size count) := by
  have hcap : toSize (size.toInt - lwsPre) = (size.toInt - lwsPre).toNat :=
    toSize_of_nonneg (by omega) (by have := size.toInt_lt; omega)
  simp only [clientBufMgmtPush, hg.items_eq, Option.bind_eq_bind, Option.bind_eq_some_iff,
    hg.wrPos_eq, hg.size_eq] at h
  obtain ⟨item, hitem, h⟩ := h
  split at h
  · next hgrow =>
    left
    obtain ⟨rfl, rfl⟩ := Prod.mk.inj (Option.some.inj h)
    rcases growSlot_cases lwsPre size ok item.buf (sizeAdd msg.length 1) with ⟨hlt, hok, -⟩ | ⟨-, -, b, he, -⟩ | ⟨-, he⟩
    · exact ⟨hok, by omega, rfl, rfl, rfl, hg.items_eq ▸ hg.size_eq ▸ hg.setIndices _ _⟩
    · rw [he] at hgrow; cases hgrow
    · rw [he] at hgrow; cases hgrow
  · next block hgrow =>
    right
    obtain ⟨item', hfill, h⟩ := Option.bind_eq_some_iff.mp h
    obtain ⟨rfl, rfl⟩ := Prod.mk.inj (Option.some.inj h)
    obtain ⟨hcontent, hsized, hdone⟩ := written_slot hpre hsize
      (hg.sized item (List.mem_of_getElem? hitem)) hgrow hfill
    refine ⟨hdone, rfl, ?_, hg.set hg.count_eq rfl hsized⟩
    simp only [WsBuf.queue, CyclicQueue.put, WsBuf.slots_some, List.map_set, hcontent]

private theorem getElem?_slots {i : Nat} (hg : g.Ready lwsPre size count) (hi : i < count) :
    ∃ item, g.slots[i]? = some item ∧ item ∈ g.slots ∧
      ((g.queue lwsPre).cells[i]?).join = item.content lwsPre := by
  have hl : i < g.slots.length := by rw [hg.length_eq]; exact hi
  have he := List.getElem?_eq_getElem hl
  refine ⟨g.slots[i], he, List.getElem_mem hl, ?_⟩
  simp only [WsBuf.queue, List.getElem?_map, he, Option.map_some]
  rfl

private theorem capacity_pos (hg : g.Ready lwsPre size count) (hn : 0 < count) :
    0 < (g.queue lwsPre).capacity := by rw [hg.capacity_eq]; exact hn

/-- A push of `msg` reallocates its slot to fewer bytes than the slot's old message has,
and still clears as many bytes as that message has. -/
def WsBuf.ShrinksBelow (lwsPre : Nat) (g : WsBuf) (msg : List UInt8) (ok : Bool) : Prop :=
  ok = true ∧ g.state.singleBufSize.toInt < lwsPre + (msg.length + 1) ∧
    ∃ item, g.slots[CyclicQueue.norm g.state.maxBufCnt g.state.wrIndex]? = some item ∧
      lwsPre + (msg.length + 1) < item.bufLen

private theorem fillSlot_isSome_iff (block : List UInt8) {msg : List UInt8} (old : Nat) (type : Int32)
    (hlen : msg.length + 1 + lwsPre < sizeMod) (hb : lwsPre + (msg.length + 1) ≤ block.length) :
    (fillSlot lwsPre block old msg (msg.length + 1) type).isSome ↔ old ≤ block.length := by
  have hclear := Block.memcpy_isSome_iff block 0 (List.replicate old 0)
  rw [List.length_replicate, Nat.zero_add] at hclear
  constructor
  · intro h
    obtain ⟨item, hf⟩ := Option.isSome_iff_exists.mp h
    simp only [fillSlot, Option.bind_eq_bind, Option.bind_eq_some_iff] at hf
    obtain ⟨b1, h1, -⟩ := hf
    exact hclear.mp (Option.isSome_iff_exists.mpr ⟨b1, h1⟩)
  · intro hold
    have hoff : sizeSub (sizeAdd lwsPre (msg.length + 1)) 1 = lwsPre + msg.length := by
      rw [sizeAdd_of_lt (by omega), sizeSub_of_le (by omega) (by omega) (by decide)]
      omega
    obtain ⟨b1, h1⟩ := Option.isSome_iff_exists.mp (hclear.mpr hold)
    have hl1 := Block.length_memcpy h1
    obtain ⟨b2, h2⟩ := Option.isSome_iff_exists.mp
      ((Block.memcpy_isSome_iff b1 lwsPre msg).mpr (by omega))
    have hl2 := Block.length_memcpy h2
    obtain ⟨b3, h3⟩ := Option.isSome_iff_exists.mp
      ((Block.memcpy_isSome_iff b2 (lwsPre + msg.length) [0]).mpr (by
        rw [List.length_singleton]; omega))
    simp only [fillSlot, Block.memset0, h1, h2, hoff, h3, Option.bind_eq_bind, Option.bind_some,
      Option.pure_def, Option.isSome_some]

/-- On a ready nonempty row, a push whose sizes fit `size_t` stays inside its block exactly
if it does not reallocate that block to less than the slot's old message. -/
theorem clientBufMgmtPush_isSome_iff (ok : Bool) {msg : List UInt8} (type : Int32)
    (hsize : lwsPre < size.toInt) (hg : g.Ready lwsPre size count) (hn : 0 < count)
    (hlen : msg.length + 1 + lwsPre < sizeMod) :
    (clientBufMgmtPush lwsPre ok (some msg) type g).isSome ↔ ¬ g.ShrinksBelow lwsPre msg ok := by
  have hw := CyclicQueue.wrPos_lt (capacity_pos hg hn)
  rw [hg.capacity_eq] at hw
  obtain ⟨item, hitem, hmem, -⟩ := getElem?_slots hg hw
  have hsized := hg.sized item hmem
  have hcap : toSize (size.toInt - lwsPre) = (size.toInt - lwsPre).toNat :=
    toSize_of_nonneg (by omega) (by have := size.toInt_lt; omega)
  have hone : sizeAdd msg.length 1 = msg.length + 1 := sizeAdd_of_lt (by omega)
  simp only [clientBufMgmtPush, WsBuf.ShrinksBelow, hg.items_eq, hg.wrPos_eq, hg.size_eq, hone,
    hitem, Option.bind_eq_bind, Option.bind_some, Option.some.injEq, exists_eq_left']
  rcases growSlot_cases lwsPre size ok item.buf (msg.length + 1) with
    ⟨-, rfl, he⟩ | ⟨hgrow, rfl, b, he, hb⟩ | ⟨hle, he⟩
  · simp [he]
  · -- The slot was reallocated to exactly what the new message needs.
    rw [sizeAdd_of_lt (by omega)] at hb
    have hfill := fillSlot_isSome_iff b item.bufLen type hlen
      (show lwsPre + (msg.length + 1) ≤ b.length by omega)
    rw [he, Option.isSome_bind, Option.pure_def]
    simp only [Option.isSome_some, Option.any_true, true_and]
    rw [hfill]
    omega
  · have hfill := fillSlot_isSome_iff item.buf item.bufLen type hlen
      (by have := hsized.size_le; omega)
    rw [he, Option.isSome_bind, Option.pure_def]
    simp only [Option.isSome_some, Option.any_true]
    rw [hfill]
    refine iff_of_true ?_ (by omega)
    by_cases hz : item.bufLen = 0
    · omega
    · have := hsized.len_le hz
      omega

/-- On a ready row whose slot at the write position is free, a push whose sizes fit
`size_t` stays inside its block. -/
theorem clientBufMgmtPush_isSome (ok : Bool) {msg : List UInt8} (type : Int32)
    (hsize : lwsPre < size.toInt) (hg : g.Ready lwsPre size count) (hn : 0 < count)
    (hlen : msg.length + 1 + lwsPre < sizeMod)
    (hfree : ((g.queue lwsPre).cells[(g.queue lwsPre).wrPos]?).join = none) :
    (clientBufMgmtPush lwsPre ok (some msg) type g).isSome := by
  rw [clientBufMgmtPush_isSome_iff ok type hsize hg hn hlen]
  rintro ⟨-, -, item, hitem, hlt⟩
  rw [hg.wrPos_eq] at hitem
  have hcell : ((g.queue lwsPre).cells[(g.queue lwsPre).wrPos]?).join = item.content lwsPre := by
    change ((g.slots.map _)[(g.queue lwsPre).wrPos]?).join = _
    rw [List.getElem?_map, hitem]
    rfl
  rw [hcell, MsgBufItem.content_eq_none_iff] at hfree
  omega

/-- A push that has to grow its slot and cannot is refused, whatever the slot holds. -/
theorem clientBufMgmtPush_refused {msg : List UInt8} (type : Int32)
    (hsize : lwsPre < size.toInt) (hg : g.Ready lwsPre size count) (hn : 0 < count)
    (hgrow : size.toInt < lwsPre + (sizeAdd msg.length 1)) :
    ∃ g', clientBufMgmtPush lwsPre false (some msg) type g =
        some ({ ret := leErrorAllocatingMem }, g') ∧ g'.slots = g.slots ∧
      g'.queue lwsPre = (g.queue lwsPre).wrapWr ∧ g'.Ready lwsPre size count := by
  have hw := CyclicQueue.wrPos_lt (capacity_pos hg hn)
  rw [hg.capacity_eq] at hw
  obtain ⟨item, hitem, -, -⟩ := getElem?_slots hg hw
  have hcap : toSize (size.toInt - lwsPre) = (size.toInt - lwsPre).toNat :=
    toSize_of_nonneg (by omega) (by have := size.toInt_lt; omega)
  have hnone : growSlot lwsPre false size item.buf (sizeAdd msg.length 1) = none := by
    rw [growSlot, if_pos (by omega)]
    rfl
  refine ⟨⟨{ g.state with wrIndex := (g.queue lwsPre).wrPos }, g.items⟩, ?_, rfl, rfl,
    hg.setIndices _ _⟩
  simp only [clientBufMgmtPush, hg.items_eq, hg.wrPos_eq, hg.size_eq, hitem, hnone,
    Option.bind_eq_bind, Option.bind_some, Option.pure_def]

/-! ### Pop -/

/-- A pop offers nothing at an empty read position, keeps a message its callback did not
take whole, and otherwise empties the slot and moves on. -/
theorem clientBufMgmtPop_cases {cb : Offer → Int32} (hg : g.Ready lwsPre size count)
    (h : clientBufMgmtPop lwsPre cb g = some (o, g')) :
    (((g.queue lwsPre).cells[(g.queue lwsPre).rdPos]?).join = none ∧
      o = { ret := leSuccess } ∧ g'.slots = g.slots ∧
      g'.queue lwsPre = (g.queue lwsPre).wrapRd ∧ g'.Ready lwsPre size count) ∨
    (∃ offer, ((g.queue lwsPre).cells[(g.queue lwsPre).rdPos]?).join = some offer ∧
      toSize (cb offer).toInt < offer.bufLen ∧
      o = { ret := leErrorUnknown, offered := some offer } ∧ g'.slots = g.slots ∧
      g'.queue lwsPre = (g.queue lwsPre).wrapRd ∧ g'.Ready lwsPre size count) ∨
    (∃ offer, ((g.queue lwsPre).cells[(g.queue lwsPre).rdPos]?).join = some offer ∧
      offer.bufLen ≤ toSize (cb offer).toInt ∧
      o = { ret := leSuccess, offered := some offer, notify := true } ∧
      g'.queue lwsPre = (g.queue lwsPre).drop ∧ g'.Ready lwsPre size count) := by
  simp only [clientBufMgmtPop, Option.bind_eq_bind, Option.bind_eq_some_iff] at h
  obtain ⟨items, hitems, item, hitem, h⟩ := h
  obtain rfl : g.slots = items := Option.some.inj (hg.items_eq.symm.trans hitems)
  rw [hg.rdPos_eq] at hitem
  have hcell : ((g.queue lwsPre).cells[(g.queue lwsPre).rdPos]?).join = item.content lwsPre := by
    change ((g.slots.map _)[(g.queue lwsPre).rdPos]?).join = _
    rw [List.getElem?_map, hitem]
    rfl
  split at h
  · next hz =>
    left
    obtain ⟨rfl, rfl⟩ := Prod.mk.inj (Option.some.inj h)
    rw [hg.rdPos_eq]
    exact ⟨hcell.trans (item.content_eq_none_iff.mpr hz), rfl, rfl, rfl, hg.setIndices _ _⟩
  · next hz =>
    right
    obtain ⟨bytes, hbytes, h⟩ := Option.bind_eq_some_iff.mp h
    have hoffer : item.content lwsPre = some ⟨bytes, item.bufLen, item.type⟩ := by
      unfold Block.read at hbytes
      split at hbytes
      · rw [MsgBufItem.content, if_neg hz, ← Option.some.inj hbytes]
      · cases hbytes
    rw [hoffer] at hcell
    split at h
    · next hlt =>
      left
      obtain ⟨rfl, rfl⟩ := Prod.mk.inj (Option.some.inj h)
      rw [hg.rdPos_eq]
      exact ⟨_, hcell, hlt, rfl, rfl, rfl, hg.setIndices _ _⟩
    · next hlt =>
      right
      obtain ⟨rfl, rfl⟩ := Prod.mk.inj (Option.some.inj h)
      rw [hg.rdPos_eq]
      have hsized := hg.sized item (List.mem_of_getElem? hitem)
      refine ⟨_, hcell, by simpa using hlt, rfl, ?_, hg.set hg.count_eq hg.size_eq
        ⟨hsized.size_le, fun hne ↦ absurd rfl hne, hsized.lt_sizeMod⟩⟩
      have hnone : MsgBufItem.content lwsPre { item with bufLen := 0 } = none := by
        rw [MsgBufItem.content_eq_none_iff]
      simp only [WsBuf.queue, CyclicQueue.drop, WsBuf.slots_some, List.map_set, hnone]

/-- On a ready nonempty row a pop stays inside its block. -/
theorem clientBufMgmtPop_isSome (cb : Offer → Int32) (hg : g.Ready lwsPre size count)
    (hn : 0 < count) : (clientBufMgmtPop lwsPre cb g).isSome := by
  have hr := CyclicQueue.rdPos_lt (capacity_pos hg hn)
  rw [hg.capacity_eq] at hr
  obtain ⟨item, hitem, hmem, -⟩ := getElem?_slots hg hr
  rw [clientBufMgmtPop, hg.items_eq]
  simp only [hg.rdPos_eq, hitem, Option.bind_eq_bind, Option.bind_some]
  split
  · rfl
  · next hz =>
    have hread : Block.read item.buf lwsPre item.bufLen =
        some ((item.buf.drop lwsPre).take item.bufLen) := by
      rw [Block.read, if_pos ((hg.sized item hmem).len_le hz)]
    rw [hread, Option.bind_some]
    split <;> rfl

/-! ### Clear -/

/-- Clearing needs `MAX_MSG_BUF_COUNT` slots; it resets both indices, empties the slots
below `MAX_MSG_BUF_COUNT` and leaves the others as they are. -/
theorem bufMgmtClientClearMsg_eq (hg : g.Ready lwsPre size count)
    (hn : maxMsgBufCount ≤ count) :
    ∃ g', bufMgmtClientClearMsg g = some g' ∧ g'.state.rdIndex = 0 ∧ g'.state.wrIndex = 0 ∧
      g'.slots = (g.slots.take maxMsgBufCount).map (fun item ↦ { item with bufLen := 0 }) ++
        g.slots.drop maxMsgBufCount ∧
      g'.Ready lwsPre size count := by
  have hlen := hg.length_eq
  refine ⟨⟨{ g.state with rdIndex := 0, wrIndex := 0 }, some _⟩, ?_, rfl, rfl, rfl, ?_⟩
  · rw [bufMgmtClientClearMsg, hg.items_eq]
    simp only [Option.bind_eq_bind, Option.bind_some, hlen, if_pos hn, Option.pure_def]
  · refine ⟨rfl, ?_, hg.count_eq, hg.size_eq, ?_⟩
    · simp only [WsBuf.slots_some, List.length_append, List.length_map, List.length_take,
        List.length_drop]
      omega
    · intro item hi
      rw [WsBuf.slots_some] at hi
      rcases List.mem_append.mp hi with hm | hm
      · obtain ⟨old, ho, rfl⟩ := List.mem_map.mp hm
        have hs := hg.sized old (List.mem_of_mem_take ho)
        exact ⟨hs.size_le, fun hne ↦ absurd rfl hne, hs.lt_sizeMod⟩
      · exact hg.sized item (List.mem_of_mem_drop hm)

end LedaSdk.AliWs
