import LedaSdk.Base.Block
import LedaSdk.Base.CInt
import Mathlib.Data.List.Forall2

/-!
# Receiving messages in pieces

`sdk/utility/ali_ws/ws_client_callback.c:18–73`: libwebsockets hands over the pieces of a
message one by one, `recvframeAppend` collects them in a block, and with the last piece the
block goes to `p_cb_recv`. An access outside of the block has no result.
-/

namespace LedaSdk.AliWs
open LedaSdk.Base

/-- The bytes of a piece, which are part of an object, and whether memory for them can be
had. -/
structure Fragment where
  bytes : List UInt8
  object : bytes.length ≤ Block.maxSize
  allocOk : Bool

/-- There is no memory even for this piece alone. -/
def Fragment.Refused (f : Fragment) : Prop :=
  f.allocOk = false ∨ Block.maxSize < f.bytes.length + 1

/-- The length of the piece is a value of type `int`, and if its allocation fails it is empty. -/
def Fragment.Counted (f : Fragment) : Prop :=
  f.bytes.length < 2 ^ 31 ∧ (f.allocOk = false → f.bytes = [])

/-- `wsc_recv_tmpInfo`, `ws_client.h:13–16`. -/
structure WscRecvTmpInfo where
  appendBuffer : Option (List UInt8)
  totalLen : Nat
  deriving DecidableEq

/-- Zeroed memory. -/
def WscRecvTmpInfo.zero : WscRecvTmpInfo := ⟨none, 0⟩

/-- The message and the length that `p_cb_recv` is called with. -/
structure Delivery where
  msg : Option (List UInt8)
  len : Nat
  deriving DecidableEq

section Receive
variable (fresh : UInt8)

/-- `recvframeAppend`, `ws_client_callback.c:18–38`: its result and the buffer afterwards. The
length is returned as an `int`; `fresh` stands for what a larger block holds. -/
def recvframeAppend (allocOk : Bool) (appendBuffer : Option (List UInt8)) (input : List UInt8)
    (preLen : Nat) : Option (Int32 × Option (List UInt8)) :=
  let size := sizeAdd (sizeAdd preLen input.length) 1
  if allocOk ∧ size ≤ Block.maxSize then
    ((Block.memcpy (Block.resize (appendBuffer.getD []) size fresh) preLen input).bind
      fun tmp ↦ Block.memcpy tmp (preLen + input.length) [0]).map
        fun tmp ↦ (Int32.ofNat input.length, some tmp)
  else some (0, appendBuffer)

/-- The statement with which both branches for a piece begin, `ws_client_callback.c:57,71`. -/
def appendFragment (s : WscRecvTmpInfo) (f : Fragment) : Option WscRecvTmpInfo :=
  (recvframeAppend fresh f.allocOk s.appendBuffer f.bytes s.totalLen).map fun (n, buffer) ↦
    ⟨buffer, sizeAdd s.totalLen (toSize n.toInt)⟩

/-- `callback_dumb_increment` for `LWS_CALLBACK_CLIENT_RECEIVE`, `ws_client_callback.c:54–73`,
where `final` is the result of `lws_is_final_fragment` and `p_cb_recv` is registered. -/
def recvFragment (s : WscRecvTmpInfo) (final : Bool) (f : Fragment) :
    Option (Option Delivery × WscRecvTmpInfo) :=
  (appendFragment fresh s f).map fun s ↦
    if final then (some ⟨s.appendBuffer, s.totalLen⟩, .zero) else (none, s)

/-- A sequence of pieces: what `p_cb_recv` gets, and the state afterwards. -/
def recvFragments (s : WscRecvTmpInfo) :
    List (Bool × Fragment) → Option (List Delivery × WscRecvTmpInfo)
  | [] => some ([], s)
  | (final, f) :: rest =>
    (recvFragment fresh s final f).bind fun (delivery, s) ↦
      (recvFragments s rest).map fun (deliveries, s) ↦ (delivery.toList ++ deliveries, s)

end Receive

/-- A message as it arrives: the pieces before the last one, and the last one. -/
structure RecvMessage where
  front : List Fragment
  last : Fragment

namespace RecvMessage

/-- Its pieces. -/
def fragments (m : RecvMessage) : List Fragment := m.front ++ [m.last]

/-- The concatenation of its pieces. -/
def bytes (m : RecvMessage) : List UInt8 := m.fragments.flatMap Fragment.bytes

/-- The pieces with what `lws_is_final_fragment` says of each. -/
def events (m : RecvMessage) : List (Bool × Fragment) :=
  m.front.map (fun f ↦ (false, f)) ++ [(true, m.last)]

/-- The whole message with a NUL, and its length. -/
def whole (m : RecvMessage) : Delivery := ⟨some (m.bytes ++ [0]), m.bytes.length⟩

/-- An allocation fails: that for some piece, or that for the whole message. -/
def Failing (m : RecvMessage) : Prop :=
  (∃ f ∈ m.fragments, f.allocOk = false) ∨ Block.maxSize < m.bytes.length + 1

instance instDecidableFailing (m : RecvMessage) : Decidable m.Failing :=
  inferInstanceAs (Decidable ((∃ f ∈ m.fragments, f.allocOk = false) ∨ _ < _))

/-- `p_cb_recv` gets no data because of a failure, or the whole message. -/
def WholeOrNothing (m : RecvMessage) (d : Delivery) : Prop :=
  m.Failing ∧ d.msg = none ∨ d = m.whole

/-- Either no piece is stored at all, or the message fits in memory, the length of each piece is
a value of type `int`, and failures hit only empty pieces. -/
def Survives (m : RecvMessage) : Prop :=
  (∀ f ∈ m.fragments, f.Refused) ∨
    m.bytes.length + 1 ≤ Block.maxSize ∧ ∀ f ∈ m.fragments, f.Counted

instance instDecidableSurvives (m : RecvMessage) : Decidable m.Survives :=
  inferInstanceAs (Decidable ((∀ f ∈ m.fragments, _ ∨ _) ∨ _ ∧ ∀ f ∈ m.fragments, _ ∧ (_ → _)))

end RecvMessage

section Appending
variable {fresh : UInt8} {f : Fragment} {fs : List Fragment} {s t : WscRecvTmpInfo}
  {b : List UInt8}

/-- Pieces appended one after the other. -/
def appendAll (fresh : UInt8) (s : WscRecvTmpInfo) (fs : List Fragment) : Option WscRecvTmpInfo :=
  fs.foldlM (appendFragment fresh) s

theorem appendAll_cons :
    appendAll fresh s (f :: fs) = (appendFragment fresh s f).bind (appendAll fresh · fs) := rfl

/-- What appending a piece does: nothing is stored, or a block that memory can hold. -/
theorem appendFragment_cases (h : appendFragment fresh s f = some t) :
    (t = ⟨s.appendBuffer, sizeAdd s.totalLen 0⟩ ∧
      (f.allocOk = true → Block.maxSize < sizeAdd (sizeAdd s.totalLen f.bytes.length) 1)) ∨
    ∃ block, t = ⟨some block, sizeAdd s.totalLen (toSize (Int32.ofNat f.bytes.length).toInt)⟩ ∧
      f.allocOk = true ∧ block.length ≤ Block.maxSize := by
  rw [appendFragment, Option.map_eq_some_iff] at h
  obtain ⟨⟨n, buffer⟩, happend, rfl⟩ := h
  rw [recvframeAppend] at happend
  split at happend
  · next hok =>
    obtain ⟨block, hblock, heq⟩ := Option.map_eq_some_iff.mp happend
    obtain ⟨copied, hcopied, hterminated⟩ := Option.bind_eq_some_iff.mp hblock
    cases heq
    refine .inr ⟨block, rfl, hok.1, ?_⟩
    rw [Block.length_memcpy hterminated, Block.length_memcpy hcopied, Block.length_resize]
    exact hok.2
  · next hrefused =>
    cases happend
    exact .inl ⟨rfl, fun hok ↦ Nat.lt_of_not_le fun hle ↦ hrefused ⟨hok, hle⟩⟩

/-- A piece whose bytes cannot be stored is left out. -/
theorem appendFragment_refused
    (h : ¬(f.allocOk = true ∧ sizeAdd (sizeAdd s.totalLen f.bytes.length) 1 ≤ Block.maxSize)) :
    appendFragment fresh s f = some ⟨s.appendBuffer, sizeAdd s.totalLen 0⟩ := by
  rw [appendFragment, recvframeAppend, if_neg h]
  rfl

end Appending

section Refused
variable {fresh : UInt8} {f : Fragment} {fs : List Fragment} {s t : WscRecvTmpInfo}

theorem sizeAdd_zero_object (f : Fragment) :
    sizeAdd (sizeAdd WscRecvTmpInfo.zero.totalLen f.bytes.length) 1 = f.bytes.length + 1 := by
  have hlen : f.bytes.length ≤ 2 ^ 63 - 1 := f.object
  have hzero : WscRecvTmpInfo.zero.totalLen = 0 := rfl
  rw [hzero, sizeAdd_of_lt (b := f.bytes.length), Nat.zero_add, sizeAdd_of_lt] <;>
    simp only [sizeMod] <;> omega

/-- A refused piece leaves the empty state as it is. -/
theorem appendFragment_zero_refused (h : f.Refused) :
    appendFragment fresh .zero f = some .zero := by
  rw [appendFragment_refused]
  · rfl
  · rintro ⟨hok, hle⟩
    rw [sizeAdd_zero_object] at hle
    rcases h with hno | hlarge
    · rw [hno] at hok
      cases hok
    · omega

theorem appendAll_zero_refused (h : ∀ f ∈ fs, f.Refused) : appendAll fresh .zero fs = some .zero := by
  induction fs with
  | nil => rfl
  | cons f fs ih =>
    obtain ⟨hf, hfs⟩ := List.forall_mem_cons.mp h
    rw [appendAll_cons, appendFragment_zero_refused hf]
    exact ih hfs

/-- A buffer that is there stays there. -/
theorem buffer_isSome_of_appendFragment (h : appendFragment fresh s f = some t)
    (hs : s.appendBuffer.isSome) : t.appendBuffer.isSome := by
  rcases appendFragment_cases h with ⟨rfl, -⟩ | ⟨block, rfl, -⟩
  · exact hs
  · rfl

theorem buffer_isSome_of_appendAll (h : appendAll fresh s fs = some t)
    (hs : s.appendBuffer.isSome) : t.appendBuffer.isSome := by
  induction fs generalizing s with
  | nil =>
    cases h
    exact hs
  | cons f fs ih =>
    obtain ⟨u, hu, hrest⟩ := Option.bind_eq_some_iff.mp h
    exact ih hrest (buffer_isSome_of_appendFragment hu hs)

/-- If there is no buffer in the end, every piece was refused. -/
theorem refused_of_no_buffer (h : appendAll fresh .zero fs = some t)
    (ht : t.appendBuffer = none) : ∀ f ∈ fs, f.Refused := by
  induction fs with
  | nil => exact List.forall_mem_nil _
  | cons f fs ih =>
    obtain ⟨u, hu, hrest⟩ := Option.bind_eq_some_iff.mp h
    rcases appendFragment_cases hu with ⟨rfl, hrefused⟩ | ⟨block, rfl, -⟩
    · refine List.forall_mem_cons.mpr ⟨?_, ih hrest⟩
      by_cases hok : f.allocOk = true
      · have hlarge := hrefused hok
        rw [sizeAdd_zero_object] at hlarge
        exact .inr hlarge
      · exact .inl (Bool.eq_false_iff.mpr hok)
    · have hsome := buffer_isSome_of_appendAll hrest rfl
      rw [ht] at hsome
      cases hsome

end Refused

section Counting
variable {fresh : UInt8} {f : Fragment} {fs : List Fragment} {s t : WscRecvTmpInfo}

/-- How many bytes of a list of pieces there are. -/
def bytesIn (fs : List Fragment) : Nat := (fs.flatMap Fragment.bytes).length

theorem bytesIn_cons : bytesIn (f :: fs) = f.bytes.length + bytesIn fs := by
  rw [bytesIn, List.flatMap_cons, List.length_append]
  rfl

/-- A piece is counted short by some bytes, at most twice its length, and if by none, it is
counted as it is. -/
theorem shortage_appendFragment (h : appendFragment fresh s f = some t) :
    ∃ short ≤ 2 * f.bytes.length,
      (t.totalLen + short) % sizeMod = (s.totalLen + f.bytes.length) % sizeMod ∧
      (short = 0 → f.Counted) := by
  have hlen : f.bytes.length ≤ 2 ^ 63 - 1 := f.object
  rcases appendFragment_cases h with ⟨rfl, -⟩ | ⟨block, rfl, hok, -⟩
  · refine ⟨f.bytes.length, by omega, ?_, fun hzero ↦ ⟨by omega, fun _ ↦ ?_⟩⟩
    · rw [sizeAdd, Nat.add_zero, Nat.mod_add_mod]
    · exact List.eq_nil_of_length_eq_zero hzero
  · -- `len` is cut to a value of type `int`: a multiple of `2 ^ 32` is lost.
    refine ⟨2 ^ 32 * ((f.bytes.length + 2 ^ 31) / 2 ^ 32), by omega, ?_, fun hzero ↦
      ⟨by omega, fun hno ↦ ?_⟩⟩
    · rw [sizeAdd, Nat.mod_add_mod, Nat.add_assoc, Nat.add_mod, toSize_int32_ofNat, ← Nat.add_mod]
    · rw [hok] at hno
      cases hno

theorem shortage_appendAll (h : appendAll fresh s fs = some t) :
    ∃ short ≤ 2 * bytesIn fs,
      (t.totalLen + short) % sizeMod = (s.totalLen + bytesIn fs) % sizeMod ∧
      (short = 0 → ∀ f ∈ fs, f.Counted) := by
  induction fs generalizing s with
  | nil =>
    cases h
    exact ⟨0, Nat.zero_le _, rfl, fun _ ↦ List.forall_mem_nil _⟩
  | cons f fs ih =>
    obtain ⟨u, hu, hrest⟩ := Option.bind_eq_some_iff.mp h
    obtain ⟨short, hle, heq, hcounted⟩ := shortage_appendFragment hu
    obtain ⟨shorts, hles, heqs, hcounteds⟩ := ih hrest
    refine ⟨short + shorts, ?_, ?_, fun hzero ↦ ?_⟩
    · rw [bytesIn_cons]
      omega
    · rw [bytesIn_cons]
      simp only [sizeMod] at heq heqs ⊢
      omega
    · exact List.forall_mem_cons.mpr ⟨hcounted (by omega), hcounteds (by omega)⟩

/-- If memory can hold all bytes and none was lost, every piece was counted as it is. -/
theorem counted_of_totalLen (h : appendAll fresh .zero fs = some t)
    (hfits : bytesIn fs + 1 ≤ Block.maxSize) (ht : t.totalLen = bytesIn fs) :
    ∀ f ∈ fs, f.Counted := by
  obtain ⟨short, hle, heq, hcounted⟩ := shortage_appendAll h
  apply hcounted
  have hzero : WscRecvTmpInfo.zero.totalLen = 0 := rfl
  rw [ht, hzero] at heq
  simp only [Block.maxSize, sizeMod] at hfits heq
  omega

/-- A block in the buffer is one that memory can hold. -/
def Stored (s : WscRecvTmpInfo) : Prop :=
  ∀ block, s.appendBuffer = some block → block.length ≤ Block.maxSize

theorem stored_appendAll (h : appendAll fresh s fs = some t) (hs : Stored s) : Stored t := by
  induction fs generalizing s with
  | nil =>
    cases h
    exact hs
  | cons f fs ih =>
    obtain ⟨u, hu, hrest⟩ := Option.bind_eq_some_iff.mp h
    apply ih hrest
    rcases appendFragment_cases hu with ⟨rfl, -⟩ | ⟨block, rfl, -, hle⟩
    · exact hs
    · intro block' heq
      cases heq
      exact hle

end Counting

section Holding
variable {fresh : UInt8} {f : Fragment} {fs : List Fragment} {s t : WscRecvTmpInfo}
  {b : List UInt8}

/-- The buffer holds the bytes and a NUL, or there is none and no byte to hold. -/
def Holding (s : WscRecvTmpInfo) (b : List UInt8) : Prop :=
  s.totalLen = b.length ∧ (s.appendBuffer = some (b ++ [0]) ∨ s.appendBuffer = none ∧ b = [])

theorem holding_zero : Holding .zero [] := ⟨rfl, .inr ⟨rfl, rfl⟩⟩

/-- The bytes of the buffer before the NUL survive the resizing. -/
theorem Holding.take_resize (hs : Holding s b) {n : Nat} (hn : b.length ≤ n) :
    (Block.resize (s.appendBuffer.getD []) n fresh).take b.length = b := by
  rcases hs.2 with hbuffer | ⟨hbuffer, rfl⟩
  · rw [hbuffer, Option.getD_some, Block.take_resize ?_ hn]
    · exact List.take_left
    · rw [List.length_append]
      omega
  · rfl

/-- A piece that is counted and fits is appended. -/
theorem Holding.appendFragment (fresh : UInt8) (hs : Holding s b) (hf : f.Counted)
    (hfits : b.length + f.bytes.length + 1 ≤ Block.maxSize) :
    ∃ t, AliWs.appendFragment fresh s f = some t ∧ Holding t (b ++ f.bytes) := by
  obtain ⟨hlen, hempty⟩ := hf
  have hroom : sizeAdd (sizeAdd s.totalLen f.bytes.length) 1 = b.length + f.bytes.length + 1 := by
    simp only [Block.maxSize] at hfits
    rw [hs.1, sizeAdd_of_lt (a := b.length), sizeAdd_of_lt] <;> simp only [sizeMod] <;> omega
  by_cases hok : f.allocOk = true
  · have hint : (Int32.ofNat f.bytes.length).toInt = f.bytes.length := by
      rw [toInt_int32_ofNat]
      omega
    have htotal : sizeAdd s.totalLen (toSize (Int32.ofNat f.bytes.length).toInt) =
        (b ++ f.bytes).length := by
      simp only [Block.maxSize] at hfits
      rw [hint, hs.1, toSize_of_nonneg (by omega) (by omega), sizeAdd_of_lt, List.length_append,
        Int.toNat_natCast]
      simp only [sizeMod]
      omega
    have hterminated := Block.memcpy_terminate (c := 0)
      (Block.length_resize (s.appendBuffer.getD []) (b.length + f.bytes.length + 1) fresh)
    rw [hs.take_resize (by omega)] at hterminated
    refine ⟨⟨some (b ++ f.bytes ++ [0]), (b ++ f.bytes).length⟩, ?_, rfl, .inl rfl⟩
    rw [AliWs.appendFragment, recvframeAppend, if_pos ⟨hok, by rw [hroom]; exact hfits⟩, hroom,
      hs.1, hterminated, ← htotal, hs.1]
    rfl
  · have hnil : f.bytes = [] := hempty (Bool.eq_false_iff.mpr hok)
    have hsum : sizeAdd s.totalLen 0 = s.totalLen := by
      simp only [Block.maxSize] at hfits
      rw [sizeAdd_of_lt]
      · rfl
      · rw [hs.1]
        simp only [sizeMod]
        omega
    refine ⟨_, appendFragment_refused fun h ↦ hok h.1, ?_⟩
    rw [hnil, List.append_nil, hsum]
    exact hs

/-- Pieces that are counted and fit are appended one after the other. -/
theorem Holding.appendAll (fresh : UInt8) (hs : Holding s b) (hf : ∀ f ∈ fs, f.Counted)
    (hfits : b.length + bytesIn fs + 1 ≤ Block.maxSize) :
    ∃ t, AliWs.appendAll fresh s fs = some t ∧ Holding t (b ++ fs.flatMap Fragment.bytes) := by
  induction fs generalizing s b with
  | nil => exact ⟨s, rfl, by rw [List.flatMap_nil, List.append_nil]; exact hs⟩
  | cons f fs ih =>
    obtain ⟨hhead, htail⟩ := List.forall_mem_cons.mp hf
    rw [bytesIn_cons] at hfits
    obtain ⟨u, hu, hholds⟩ := hs.appendFragment fresh hhead (by omega)
    have hlength : (b ++ f.bytes).length = b.length + f.bytes.length := List.length_append
    obtain ⟨t, ht, hfinal⟩ := ih hholds htail (by omega)
    refine ⟨t, by rw [appendAll_cons, hu]; exact ht, ?_⟩
    rw [List.flatMap_cons, ← List.append_assoc]
    exact hfinal

end Holding

section Message
variable {fresh : UInt8} {m : RecvMessage} {t : WscRecvTmpInfo}

theorem RecvMessage.failing_of_refused (h : ∀ f ∈ m.fragments, f.Refused) : m.Failing := by
  have hmem : m.last ∈ m.fragments := List.mem_append_right _ (List.mem_singleton_self _)
  rcases h m.last hmem with hno | hlarge
  · exact .inl ⟨m.last, hmem, hno⟩
  · right
    rw [bytes, fragments, List.flatMap_append, List.flatMap_singleton, List.length_append]
    omega

/-- What `p_cb_recv` gets for a message is the whole message or nothing exactly if the message
survives its failures. -/
theorem wholeOrNothing_iff_survives (fresh : UInt8) (m : RecvMessage) :
    (∃ t, appendAll fresh .zero m.fragments = some t ∧
      m.WholeOrNothing ⟨t.appendBuffer, t.totalLen⟩) ↔ m.Survives := by
  constructor
  · rintro ⟨t, ht, ⟨-, hnone⟩ | hwhole⟩
    · exact .inl (refused_of_no_buffer ht hnone)
    · have hbuffer : t.appendBuffer = some (m.bytes ++ [0]) := congrArg Delivery.msg hwhole
      have hlen : t.totalLen = m.bytes.length := congrArg Delivery.len hwhole
      have hempty : Stored .zero := fun _ h ↦ by cases h
      have hfits := stored_appendAll ht hempty _ hbuffer
      rw [List.length_append] at hfits
      exact .inr ⟨hfits, counted_of_totalLen ht hfits hlen⟩
  · rintro (hrefused | ⟨hfits, hcounted⟩)
    · exact ⟨.zero, appendAll_zero_refused hrefused, .inl ⟨m.failing_of_refused hrefused, rfl⟩⟩
    · have hroom : ([] : List UInt8).length + bytesIn m.fragments + 1 ≤ Block.maxSize := by
        rw [List.length_nil, Nat.zero_add]
        exact hfits
      obtain ⟨t, ht, hlen, hbuffer⟩ := holding_zero.appendAll fresh hcounted hroom
      refine ⟨t, ht, ?_⟩
      rw [List.nil_append] at hlen hbuffer
      rcases hbuffer with hbuffer | ⟨hbuffer, -⟩
      · right
        rw [hbuffer, hlen]
        rfl
      · exact .inl ⟨m.failing_of_refused (refused_of_no_buffer ht hbuffer), hbuffer⟩

/-- Without a failure only the length of a piece matters. -/
theorem RecvMessage.survives_iff (h : ¬ m.Failing) :
    m.Survives ↔ ∀ f ∈ m.fragments, f.bytes.length < 2 ^ 31 := by
  constructor
  · rintro (hrefused | ⟨-, hcounted⟩)
    · exact absurd (m.failing_of_refused hrefused) h
    · exact fun f hf ↦ (hcounted f hf).1
  · intro hlen
    refine .inr ⟨Nat.le_of_not_lt fun hlarge ↦ h (.inr hlarge), fun f hf ↦ ⟨hlen f hf, ?_⟩⟩
    exact fun hno ↦ absurd (.inl ⟨f, hf, hno⟩) h

end Message

section Run
variable {fresh : UInt8} {m : RecvMessage} {messages : List RecvMessage} {s t : WscRecvTmpInfo}
  {rest : List (Bool × Fragment)} {deliveries : List Delivery}

/-- The pieces of several messages one after the other. -/
def eventsOf (messages : List RecvMessage) : List (Bool × Fragment) :=
  messages.flatMap RecvMessage.events

/-- What `p_cb_recv` gets for one message. -/
def DeliveredAs (fresh : UInt8) (m : RecvMessage) (d : Delivery) : Prop :=
  ∃ t, appendAll fresh .zero m.fragments = some t ∧ d = ⟨t.appendBuffer, t.totalLen⟩

/-- The pieces of one message end in one delivery and the empty state. -/
theorem recvFragments_message (s : WscRecvTmpInfo) (front : List Fragment) (last : Fragment)
    (rest : List (Bool × Fragment)) :
    recvFragments fresh s (front.map (fun f ↦ (false, f)) ++ (true, last) :: rest) =
      (appendAll fresh s (front ++ [last])).bind fun t ↦
        (recvFragments fresh .zero rest).map fun (deliveries, s') ↦
          (⟨t.appendBuffer, t.totalLen⟩ :: deliveries, s') := by
  induction front generalizing s with
  | nil =>
    rw [List.map_nil, List.nil_append, List.nil_append, recvFragments, recvFragment,
      appendAll_cons]
    cases appendFragment fresh s last <;> rfl
  | cons f front ih =>
    rw [List.map_cons, List.cons_append, List.cons_append, recvFragments, recvFragment,
      appendAll_cons]
    cases appendFragment fresh s f with
    | none => rfl
    | some t =>
      simp only [Option.map_some, Option.bind_some, Bool.false_eq_true, if_false, ih t]
      cases appendAll fresh t (front ++ [last]) with
      | none => rfl
      | some u => cases recvFragments fresh .zero rest <;> rfl

/-- A run over whole messages delivers each by itself and ends in the empty state. -/
theorem recvFragments_eventsOf_iff :
    recvFragments fresh .zero (eventsOf messages) = some (deliveries, s) ↔
      List.Forall₂ (DeliveredAs fresh) messages deliveries ∧ s = .zero := by
  induction messages generalizing deliveries s with
  | nil =>
    rw [List.forall₂_nil_left_iff]
    simp only [eventsOf, List.flatMap_nil, recvFragments, Option.some.injEq, Prod.mk.injEq]
    exact and_congr eq_comm eq_comm
  | cons m messages ih =>
    have hevents : eventsOf (m :: messages) =
        m.front.map (fun f ↦ (false, f)) ++ (true, m.last) :: eventsOf messages := by
      rw [eventsOf, List.flatMap_cons, RecvMessage.events, List.append_assoc]
      rfl
    rw [hevents, recvFragments_message, List.forall₂_cons_left_iff, Option.bind_eq_some_iff]
    constructor
    · rintro ⟨t, ht, hrest⟩
      obtain ⟨⟨ds, s'⟩, hds, heq⟩ := Option.map_eq_some_iff.mp hrest
      obtain ⟨hall, rfl⟩ := ih.mp hds
      cases heq
      exact ⟨⟨_, ds, ⟨t, ht, rfl⟩, hall, rfl⟩, rfl⟩
    · rintro ⟨⟨d, ds, ⟨t, ht, rfl⟩, hall, rfl⟩, rfl⟩
      refine ⟨t, ht, ?_⟩
      rw [ih.mpr ⟨hall, rfl⟩]
      rfl

/-- A run delivers to each message what a relation says exactly if each by itself gets it. -/
theorem exists_recvFragments_iff {R : RecvMessage → Delivery → Prop} :
    (∃ deliveries s, recvFragments fresh .zero (eventsOf messages) = some (deliveries, s) ∧
      List.Forall₂ R messages deliveries) ↔
    ∀ m ∈ messages, ∃ d, DeliveredAs fresh m d ∧ R m d := by
  simp only [recvFragments_eventsOf_iff]
  constructor
  · rintro ⟨deliveries, s, ⟨hdelivered, -⟩, hr⟩
    induction hdelivered with
    | nil => exact List.forall_mem_nil _
    | cons hd _ ih =>
      cases hr with
      | cons hhead htail => exact List.forall_mem_cons.mpr ⟨⟨_, hd, hhead⟩, ih htail⟩
  · intro hall
    induction messages with
    | nil => exact ⟨[], .zero, ⟨.nil, rfl⟩, .nil⟩
    | cons m messages ih =>
      obtain ⟨⟨d, hd, hm⟩, htail⟩ := List.forall_mem_cons.mp hall
      obtain ⟨deliveries, s, ⟨hdelivered, hzero⟩, hr⟩ := ih htail
      exact ⟨d :: deliveries, s, ⟨.cons hd hdelivered, hzero⟩, .cons hm hr⟩

end Run

section Reassembly
variable (fresh : UInt8)

/-- After each message `p_cb_recv` has got the messages so far, each once and in order, and the
state is empty. -/
def Reassembles (messages : List RecvMessage) : Prop :=
  ∀ before after, messages = before ++ after →
    recvFragments fresh .zero (eventsOf before) = some (before.map RecvMessage.whole, .zero)

theorem reassembles_iff_delivered (messages : List RecvMessage) :
    Reassembles fresh messages ↔ ∀ m ∈ messages, DeliveredAs fresh m m.whole := by
  have hbefore : ∀ before : List RecvMessage,
      recvFragments fresh .zero (eventsOf before) = some (before.map RecvMessage.whole, .zero) ↔
        ∀ m ∈ before, DeliveredAs fresh m m.whole := by
    intro before
    rw [recvFragments_eventsOf_iff, List.forall₂_map_right_iff, List.forall₂_same]
    exact and_iff_left rfl
  constructor
  · intro h
    exact (hbefore messages).mp (h messages [] (List.append_nil _).symm)
  · rintro h before after rfl
    exact (hbefore before).mpr fun m hm ↦ h m (List.mem_append_left _ hm)

theorem deliveredAs_whole_iff {m : RecvMessage} (h : ¬ m.Failing) :
    DeliveredAs fresh m m.whole ↔ m.Survives := by
  rw [← wholeOrNothing_iff_survives fresh]
  constructor
  · rintro ⟨t, ht, heq⟩
    exact ⟨t, ht, .inr heq.symm⟩
  · rintro ⟨t, ht, ⟨hfailing, -⟩ | heq⟩
    · exact absurd hfailing h
    · exact ⟨t, ht, heq.symm⟩

/-- What libwebsockets promises of the pieces: it counts their lengths with an `int`, and none
is longer than the `rx_buffer_size` of the protocol. -/
def PiecesOfIntLength (messages : List RecvMessage) : Prop :=
  ∀ m ∈ messages, ∀ f ∈ m.fragments, f.bytes.length < 2 ^ 31

/-- Messages for which memory suffices are put together again exactly if no piece is so long that
its length is not an `int`. -/
theorem reassembles_iff (messages : List RecvMessage) (hok : ∀ m ∈ messages, ¬ m.Failing) :
    Reassembles fresh messages ↔ PiecesOfIntLength messages := by
  rw [reassembles_iff_delivered]
  refine forall₂_congr fun m hm ↦ ?_
  rw [deliveredAs_whole_iff fresh (hok m hm), RecvMessage.survives_iff (hok m hm)]

/-- Messages for which memory suffices are put together again from the pieces of
libwebsockets. -/
theorem reassembles (messages : List RecvMessage) (hok : ∀ m ∈ messages, ¬ m.Failing)
    (hpieces : PiecesOfIntLength messages) : Reassembles fresh messages :=
  (reassembles_iff fresh messages hok).mpr hpieces

/-- An empty object in three pieces, the second of them empty, then one in one piece. -/
def twoObjects : List RecvMessage :=
  [⟨[⟨[123], by decide, true⟩, ⟨[], by decide, true⟩], ⟨[125], by decide, true⟩⟩,
    ⟨[], ⟨[123, 125], by decide, true⟩⟩]

theorem reassembles_twoObjects :
    (∀ m ∈ twoObjects, ¬ m.Failing) ∧ PiecesOfIntLength twoObjects ∧ Reassembles 0 twoObjects := by
  have hok : ∀ m ∈ twoObjects, ¬ m.Failing := by decide
  have hpieces : PiecesOfIntLength twoObjects := by
    rw [PiecesOfIntLength]
    decide
  exact ⟨hok, hpieces, reassembles 0 twoObjects hok hpieces⟩

end Reassembly

section Splicing
variable (fresh : UInt8)

/-- If an allocation fails within a message, it is delivered whole or not at all, and so are the
later ones, which without a failure of their own are delivered. -/
def NotSpliced (s : WscRecvTmpInfo) (m : RecvMessage) (after : List RecvMessage) : Prop :=
  m.Failing → ∃ deliveries s', recvFragments fresh s (eventsOf (m :: after)) = some (deliveries, s') ∧
    List.Forall₂ RecvMessage.WholeOrNothing (m :: after) deliveries

/-- After any messages, a message with a failure is not spliced exactly if it and the later ones
survive their failures. -/
theorem notSpliced_iff (before after : List RecvMessage) (m : RecvMessage)
    (deliveries : List Delivery) (s : WscRecvTmpInfo)
    (h : recvFragments fresh .zero (eventsOf before) = some (deliveries, s)) :
    NotSpliced fresh s m after ↔ (m.Failing → ∀ m' ∈ m :: after, m'.Survives) := by
  obtain ⟨-, rfl⟩ := recvFragments_eventsOf_iff.mp h
  refine imp_congr_right fun _ ↦ ?_
  rw [exists_recvFragments_iff]
  refine forall₂_congr fun m' _ ↦ ?_
  rw [← wholeOrNothing_iff_survives fresh]
  constructor
  · rintro ⟨d, ⟨t, ht, rfl⟩, hd⟩
    exact ⟨t, ht, hd⟩
  · rintro ⟨t, ht, hd⟩
    exact ⟨_, ⟨t, ht, rfl⟩, hd⟩

/-- Nothing can be allocated for `[10]` in two pieces, and `[]` follows. -/
theorem notSpliced_iff_unstored :
    let m : RecvMessage := ⟨[⟨[91, 49], by decide, false⟩], ⟨[48, 93], by decide, false⟩⟩
    let empty : RecvMessage := ⟨[], ⟨[91, 93], by decide, true⟩⟩
    recvFragments 0 .zero (eventsOf [empty]) = some ([⟨some [91, 93, 0], 2⟩], .zero) ∧
      m.Failing ∧ NotSpliced 0 .zero m [empty] := by
  intro m empty
  have hrun : recvFragments 0 .zero (eventsOf [empty]) = some ([⟨some [91, 93, 0], 2⟩], .zero) :=
    rfl
  exact ⟨hrun, by decide, (notSpliced_iff 0 [empty] [empty] m _ _ hrun).mpr fun _ ↦ by decide⟩

/-- If the allocation for the second piece of `[10]` fails, the message arrives as `[1]`. -/
theorem failed_allocation_splices :
    let m : RecvMessage :=
      ⟨[⟨[91, 49], by decide, true⟩, ⟨[48], by decide, false⟩], ⟨[93], by decide, true⟩⟩
    m.bytes = [91, 49, 48, 93] ∧ m.Failing ∧
      recvFragments 0 .zero (eventsOf [m]) = some ([⟨some [91, 49, 93, 0], 3⟩], .zero) ∧
      ¬ NotSpliced 0 .zero m [] := by
  intro m
  have hfailing : m.Failing := by decide
  have hrun : recvFragments 0 .zero (eventsOf [m]) = some ([⟨some [91, 49, 93, 0], 3⟩], .zero) :=
    rfl
  refine ⟨rfl, hfailing, hrun, fun h ↦ ?_⟩
  obtain ⟨deliveries, s, hdelivered, hall⟩ := h hfailing
  rw [hrun] at hdelivered
  cases hdelivered
  cases hall with
  | cons hm _ =>
    rcases hm with ⟨-, hnone⟩ | hwhole
    · cases hnone
    · exact absurd hwhole (by decide)

end Splicing

end LedaSdk.AliWs
