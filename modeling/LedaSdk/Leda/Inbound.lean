import LedaSdk.AliWs.Receive
import LedaSdk.Json.ParsedText
import LedaSdk.Json.Spaced
import LedaSdk.Leda.Message

/-!
# From the pieces of a message to its task

A message passes `callback_dumb_increment` piece by piece (`ws_client_callback.c:54–73`), and
`cb_ws_recv` parses it (`sdk/leda.c:792–849`). Neither the pieces nor the white space of its
text matter for the task that the thread pool gets.
-/

namespace LedaSdk.Leda
open LedaSdk.Base LedaSdk.Json LedaSdk.AliWs

/-- The pieces carry a text of the tree with white space anywhere, which the parser accepts and
for which memory suffices. -/
structure Transmits (tree : CJson) (m : RecvMessage) : Prop where
  finite : tree.Finite
  nesting : tree.nesting ≤ nestingLimit
  spaced : ∃ (value : CStr) (a t b : List UInt8), Blank a ∧ Spaced tree t ∧ Blank b ∧
    value.bytes = a ++ (t ++ b) ∧ m.bytes = value.bytes
  memory : ¬ m.Failing
  short : ∀ f ∈ m.fragments, f.bytes.length < 2 ^ 31

/-- `p_cb_recv` gets the text of the tree with its NUL, which the parser reads inside the block,
and the task of `cb_ws_recv` is that of the tree. -/
def TaskOf (tree : CJson) (d : Delivery) : Prop :=
  ∃ msg : CStr, d = ⟨some (msg.bytes ++ [0]), msg.length⟩ ∧
    (∃ end_, ∀ fresh, ParseBuffer.parseWithOpts fresh msg false = some (some tree, end_)) ∧
    cbWsRecv (some msg) = some (.ofReceived (ledaParseReceiveMsg tree))

section Inbound
variable {tree : CJson} {m : RecvMessage} (fresh : UInt8)

/-- One message. -/
theorem Transmits.delivered (h : Transmits tree m) :
    DeliveredAs fresh m m.whole ∧ TaskOf tree m.whole := by
  obtain ⟨value, a, t, b, ha, ht, hb, hvalue, hbytes⟩ := h.spaced
  refine ⟨?_, value, ?_, ?_, ?_⟩
  · rw [deliveredAs_whole_iff fresh h.memory, RecvMessage.survives_iff h.memory]
    exact h.short
  · rw [RecvMessage.whole, hbytes]
    rfl
  · have htext : parseWithOpts value false = some tree := by
      rw [parseWithOpts_spaced h.finite ha ht hb hvalue, if_pos h.nesting]
    obtain ⟨end_, hcall, -, -⟩ := ParseBuffer.parseWithOpts_ends value false fun _ ↦ 0
    rw [htext] at hcall
    exact ⟨end_, fun fresh ↦ (ParseBuffer.parseWithOpts_fresh fresh _ value false).trans hcall⟩
  · have hparse : parse value = some tree := by
      rw [parse_eq_parseWithOpts, parseWithOpts_spaced h.finite ha ht hb hvalue,
        if_pos h.nesting]
    rw [cbWsRecv, Option.bind_some, hparse]
    rfl

/-- Each message that a peer sends on a connection becomes one task, in order, and the task is
that of its tree, however the text of the tree is spaced and split. -/
theorem tasks_as_sent {trees : List CJson} {messages : List RecvMessage}
    (h : List.Forall₂ Transmits trees messages) :
    ∃ deliveries, recvFragments fresh .zero (eventsOf messages) = some (deliveries, .zero) ∧
      List.Forall₂ TaskOf trees deliveries := by
  refine ⟨messages.map RecvMessage.whole, ?_, ?_⟩
  · rw [recvFragments_eventsOf_iff, List.forall₂_map_right_iff, List.forall₂_same]
    have hsent : ∀ m ∈ messages, ∃ tree, Transmits tree m := by
      induction h with
      | nil => exact List.forall_mem_nil _
      | cons hm _ ih => exact List.forall_mem_cons.mpr ⟨⟨_, hm⟩, ih⟩
    refine ⟨fun m hm ↦ ?_, rfl⟩
    obtain ⟨tree, hm⟩ := hsent m hm
    exact (hm.delivered fresh).1
  · rw [List.forall₂_map_right_iff]
    exact h.imp fun tree m hm ↦ (hm.delivered fresh).2

/-- An empty object with a blank in it, in two pieces, then the value `true`. -/
theorem tasks_as_sent_two :
    ∃ messages : List RecvMessage, (∃ deliveries,
      recvFragments 0 .zero (eventsOf messages) = some (deliveries, .zero) ∧
      List.Forall₂ TaskOf [.object [], .bool true] deliveries) ∧
      messages.map RecvMessage.bytes = [text "\x7b \x7d", text "true"] := by
  have hblank : Blank [ascii ' '] := fun c hc ↦ .inl (List.mem_singleton.mp hc)
  have hobject : Transmits (.object [])
      ⟨[⟨text "\x7b ", by decide, true⟩], ⟨text "\x7d", by decide, true⟩⟩ :=
    ⟨by trivial, by decide, ⟨.lit "\x7b \x7d", [], _, [], blank_nil, ⟨[ascii ' '], hblank, rfl⟩,
      blank_nil, by decide, by decide⟩, by decide, by decide⟩
  have htrue : Transmits (.bool true) ⟨[], ⟨text "true", by decide, true⟩⟩ :=
    ⟨by trivial, by decide, ⟨.lit "true", [], _, [], blank_nil, rfl, blank_nil, by decide,
      by decide⟩, by decide, by decide⟩
  exact ⟨_, tasks_as_sent 0 (.cons hobject (.cons htrue .nil)), by decide⟩

end Inbound

end LedaSdk.Leda
