import LedaSdk.AliWs.SlotHistory
import LedaSdk.Leda.RecvProc

/-!
# How messages end on the wire

`leda_send_method`, `leda_asyn_send_method` and `leda_send_rsp` hand the text of a message and a
length to `wsc_add_msg` (`sdk/leda.c:939–956,1049–1058,528–537`), and `client_buf_mgmt_push` puts
a NUL behind it. `leda_send_rsp` counts the NUL of the text too, so its messages end with two.
-/

namespace LedaSdk.Leda
open LedaSdk.Base LedaSdk.Json LedaSdk.AliWs

section Senders
variable {P : Type}

/-- The end of `leda_send_method`, `leda.c:939–956`, and of `leda_asyn_send_method`,
`leda.c:1049–1058`. -/
def addMethodMsg (root : CJson) : List (Event P) :=
  match printUnformatted (some root) with
  | none => []
  | some msg => [.addMsg root msg msg.length 0]

/-- `leda_send_method` up to the message it sends, `leda.c:877–956`. -/
def ledaSendMethod (msgId : UInt32) (pk dn method : CStr) : List (Event P) :=
  addMethodMsg (sendMethodRoot msgId pk dn method)

/-- `leda_asyn_send_method` up to the message it sends, `leda.c:975–1058`. -/
def ledaAsynSendMethod (gLogLvl : Int32) (msgId : UInt32) (pk dn method : CStr)
    (eventName : Option CStr) (data : List LedaDeviceData) : List (Event P) :=
  match asynSendMethodRoot gLogLvl msgId pk dn method eventName data with
  | none => [.undefined]
  | some none => []
  | some (some root) => addMethodMsg root

/-- A call of one of the three. -/
inductive Sender where
  | sendMethod (msgId : UInt32) (pk dn method : CStr)
  | asynSendMethod (gLogLvl : Int32) (msgId : UInt32) (pk dn method : CStr)
      (eventName : Option CStr) (data : List LedaDeviceData)
  | sendRsp (code msgId : Int32) (payload : Option CJson)

/-- What the call does. -/
def Sender.run : Sender → List (Event P)
  | .sendMethod msgId pk dn method => ledaSendMethod msgId pk dn method
  | .asynSendMethod gLogLvl msgId pk dn method eventName data =>
    ledaAsynSendMethod gLogLvl msgId pk dn method eventName data
  | .sendRsp code msgId payload => ledaSendRsp code msgId payload

/-- It is one of `leda_send_rsp`. -/
def Sender.IsRsp : Sender → Prop
  | .sendRsp _ _ _ => True
  | _ => False

/-- The `len` bytes from a pointer to a string, if that many belong to it. -/
def bytesAt (msg : CStr) (len : Nat) : List UInt8 := (msg.bytes ++ [0]).take len

/-- From `g` on, until another message is stored in slot `i`, whatever a pop offers from there is
the text and one NUL, with a length that counts both. -/
def FramedAs (lwsPre : Nat) (g : WsBuf) (i : Nat) (text : List UInt8) : Prop :=
  ∀ tr k, Run (keepingSlot lwsPre i) g tr k → k.readSlot = i →
    ∀ cb o k', queueStep lwsPre k (.pop cb) = some (o, k') → ∀ offer, o.offered = some offer →
      offer.bytes = text ++ [0] ∧ offer.bufLen = text.length + 1

end Senders

section Framing
variable {P : Type} {lwsPre count len : Nat} {size type : Int32} {ok : Bool} {g g' : WsBuf}
  {o : Outcome} {root : CJson} {msg : CStr} {bytes text : List UInt8}

theorem bytesAt_length : bytesAt msg msg.length = msg.bytes := List.take_left

theorem bytesAt_length_succ : bytesAt msg (msg.length + 1) = msg.bytes ++ [0] :=
  List.take_of_length_le (by rw [List.length_append]; exact Nat.le_refl _)

/-- Which bytes a call hands over. -/
theorem bytesAt_of_mem_run {sender : Sender}
    (h : Event.addMsg root msg len type ∈ (sender.run : List (Event P))) :
    (sender.IsRsp → bytesAt msg len = msg.bytes ++ [0]) ∧
      (¬ sender.IsRsp → bytesAt msg len = msg.bytes) := by
  have hmethod {root' : CJson}
      (h : Event.addMsg root msg len type ∈ (addMethodMsg root' : List (Event P))) :
      bytesAt msg len = msg.bytes := by
    rw [addMethodMsg] at h
    split at h
    · cases h
    · cases List.mem_singleton.mp h
      exact bytesAt_length
  cases sender with
  | sendMethod msgId pk dn method => exact ⟨fun hrsp ↦ hrsp.elim, fun _ ↦ hmethod h⟩
  | asynSendMethod gLogLvl msgId pk dn method eventName data =>
    refine ⟨fun hrsp ↦ hrsp.elim, fun _ ↦ ?_⟩
    rw [Sender.run, ledaAsynSendMethod] at h
    split at h
    · cases List.mem_singleton.mp h
    · cases h
    · exact hmethod h
  | sendRsp code msgId payload =>
    refine ⟨fun _ ↦ ?_, fun hrsp ↦ absurd trivial hrsp⟩
    rw [Sender.run, ledaSendRsp, addRspMsg] at h
    split at h
    · cases h
    · cases List.mem_singleton.mp h
      exact bytesAt_length_succ

/-- What is stored is offered with one NUL behind it. -/
theorem framedAs_push_iff (hpre : 0 < lwsPre) (hroom : lwsPre + 2 ≤ size.toInt)
    (hg : g.Ready lwsPre size count) (hn : 0 < count)
    (hpush : clientBufMgmtPush lwsPre ok (some bytes) type g = some (o, g'))
    (hret : o.ret = leSuccess) : FramedAs lwsPre g' g.writeSlot text ↔ bytes = text := by
  have hin := CyclicQueue.wrPos_lt (c := g.queue lwsPre) (by rw [hg.capacity_eq]; exact hn)
  have hslot : g.writeSlot = (g.queue lwsPre).wrPos := hg.wrPos_eq
  rcases clientBufMgmtPush_cases hpre (by omega) hg hpush with ⟨-, -, rfl, -⟩ | ⟨-, -, hqueue, hr⟩
  · cases hret
  have hheld : g'.held lwsPre g.writeSlot = some (sealMsg bytes type) := by
    rw [WsBuf.held, hqueue, CyclicQueue.cell_put _ _ hin, if_pos hslot]
  constructor
  · intro hframed
    have hcount : g.writeSlot < count := by
      rw [hslot, ← hg.capacity_eq]
      exact hin
    have hwr : (g'.queue lwsPre).wrPos = (g.writeSlot + 1) % count := by
      rw [hqueue, CyclicQueue.wrPos_put _ _ hin, hg.capacity_eq, hslot]
    obtain ⟨tr, k, hrun, hread, cb, o', k', hpop, hoffered⟩ :=
      exists_offer hpre hroom hr hcount hwr hheld
    exact List.append_cancel_right (hframed tr k hrun hread cb o' k' hpop _ hoffered).1
  · rintro rfl tr k hrun hread cb o' k' hpop offer hoffered
    rw [← hread] at hrun hheld
    have hsame := offered_from_slot hpre (by omega) hr hrun hpop hoffered
    rw [hheld] at hsame
    cases hsame
    exact ⟨rfl, rfl⟩

/-- A message that `wsc_add_msg` accepts was pushed. -/
theorem push_of_wscAddMsg (h : wscAddMsg lwsPre ok (some bytes) type g = some (o, g'))
    (hret : o.ret = leSuccess) :
    clientBufMgmtPush lwsPre ok (some bytes) type g = some (o, g') := by
  rw [wscAddMsg] at h
  split at h
  · cases h
    cases hret
  · exact h

/-- In every reachable state of `wsc_init`'s queue, an accepted message is offered as its text
and one NUL exactly if it does not come from `leda_send_rsp`. -/
theorem framed_iff {env : InitEnv} {g0 h h' : WsBuf} {tr : QueueTrace} (hpre : 0 < lwsPre)
    (hroom : lwsPre + 2 ≤ 2048)
    (hinit : clientBufMgmtInit env wscInitSingleBufSize wscInitMaxBufCnt g0 = (leSuccess, g))
    (hrun : Run (StepRel.ofFn (queueStep lwsPre)) g tr h) (sender : Sender)
    (hsent : Event.addMsg root msg len type ∈ (sender.run : List (Event P)))
    (hadd : wscAddMsg lwsPre ok (some (bytesAt msg len)) type h = some (o, h'))
    (hret : o.ret = leSuccess) :
    FramedAs lwsPre h' h.writeSlot msg.bytes ↔ ¬ sender.IsRsp := by
  have hsize : (lwsPre : Int) + 2 ≤ wscInitSingleBufSize.toInt := by
    have hvalue : wscInitSingleBufSize.toInt = 2048 := rfl
    omega
  obtain ⟨hready, -⟩ := ready_of_clientBufMgmtInit lwsPre (by decide) hinit
  have hr := hready.queueRun hpre (by omega) hrun
  rw [framedAs_push_iff hpre hsize hr (by decide) (push_of_wscAddMsg hadd hret) hret]
  obtain ⟨hrsp, hmethod⟩ := bytesAt_of_mem_run hsent
  constructor
  · intro heq his
    rw [hrsp his] at heq
    exact absurd heq (by simp)
  · exact hmethod

theorem length_renderStr_lt {root : CJson} (h : root.render.length + 2 ≤ intMax.toNat) (k : Nat)
    (hk : k ≤ 20) : root.renderStr.bytes.length + k < sizeMod := by
  have hmax : intMax.toNat = 2147483647 := by decide
  have hlen : root.renderStr.bytes = root.render := rfl
  rw [hlen, sizeMod]
  omega

/-- A short message is accepted by the queue that `wsc_init` has made. -/
theorem exists_wscAddMsg_initialised {bytes : List UInt8} (hne : bytes ≠ [])
    (hlen : bytes.length + 17 < sizeMod) :
    ∃ o g', wscAddMsg 16 true (some bytes) 0
        (initialised wscInitSingleBufSize wscInitMaxBufCnt) = some (o, g') ∧ o.ret = leSuccess := by
  obtain ⟨hready, hholds⟩ := ready_wscInit
  have hfree := hholds.wrPos_free (by rw [hready.capacity_eq]; decide)
  obtain ⟨⟨o, g'⟩, hpush⟩ := Option.isSome_iff_exists.mp
    (clientBufMgmtPush_isSome true 0 (by decide) hready (by decide) hlen hfree)
  refine ⟨o, g', ?_, ?_⟩
  · rw [wscAddMsg, if_neg]
    · exact hpush
    · rintro (hnone | hnil | htype | htype)
      · cases hnone
      · exact hne (Option.some.inj hnil)
      · exact absurd htype (by decide)
      · exact absurd htype (by decide)
  · rcases clientBufMgmtPush_cases (by decide) (by decide) hready hpush with ⟨hf, -⟩ | ⟨-, rfl, -⟩
    · cases hf
    · rfl

/-- The request with which a device goes online, and its text. -/
def onlineRequest : CJson := sendMethodRoot 1 (.lit "pk") (.lit "dn") methodOnline

theorem onlineRequest_fits : onlineRequest.render.length + 2 ≤ intMax.toNat := by decide +kernel

theorem addMethodMsg_onlineRequest : (addMethodMsg onlineRequest : List (Event P)) =
    [.addMsg onlineRequest onlineRequest.renderStr onlineRequest.renderStr.length 0] := by
  rw [addMethodMsg, printUnformatted_eq, if_pos onlineRequest_fits]

theorem framed_iff_onlineRequest :
    ∃ o h', wscAddMsg 16 true (some (bytesAt onlineRequest.renderStr onlineRequest.renderStr.length))
        0 (initialised wscInitSingleBufSize wscInitMaxBufCnt) = some (o, h') ∧
      FramedAs 16 h' (initialised wscInitSingleBufSize wscInitMaxBufCnt).writeSlot
        onlineRequest.render := by
  have hsent : Event.addMsg onlineRequest onlineRequest.renderStr onlineRequest.renderStr.length 0 ∈
      ((Sender.sendMethod 1 (.lit "pk") (.lit "dn") methodOnline).run : List (Event Unit)) := by
    rw [Sender.run, ledaSendMethod, ← onlineRequest, addMethodMsg_onlineRequest]
    exact List.mem_singleton_self _
  obtain ⟨o, h', hadd, hret⟩ := exists_wscAddMsg_initialised
    (show bytesAt onlineRequest.renderStr onlineRequest.renderStr.length ≠ [] by
      rw [bytesAt_length]; decide +kernel)
    (by rw [bytesAt_length]; exact length_renderStr_lt onlineRequest_fits 17 (by decide))
  exact ⟨o, h', hadd, (framed_iff (by decide) (by decide)
    clientBufMgmtInit_wscInit .nil _ hsent hadd hret).mpr fun h ↦ h⟩

/-- The response to a request with the id 1 ends with two NULs. -/
theorem response_framed_with_two :
    ∃ msg : CStr, msg.bytes = (rspRoot leSuccess 1 none).render ∧
      (ledaSendRsp leSuccess 1 none : List (Event Unit)) =
        [.addMsg (rspRoot leSuccess 1 none) msg (msg.length + 1) 0] ∧
      ∃ o h', wscAddMsg 16 true (some (bytesAt msg (msg.length + 1))) 0
          (initialised wscInitSingleBufSize wscInitMaxBufCnt) = some (o, h') ∧
        o.ret = leSuccess ∧
        (h'.queue 16).contents = [⟨msg.bytes ++ [0, 0], msg.length + 2, 0⟩] ∧
        ¬ FramedAs 16 h' (initialised wscInitSingleBufSize wscInitMaxBufCnt).writeSlot
          msg.bytes := by
  have hfits := rspRoot_fits leSuccess 1
  obtain ⟨hready, hholds⟩ := ready_wscInit
  have hbytes : bytesAt (rspRoot leSuccess 1 none).renderStr
      ((rspRoot leSuccess 1 none).renderStr.length + 1) =
        (rspRoot leSuccess 1 none).renderStr.bytes ++ [0] := bytesAt_length_succ
  obtain ⟨o, h', hadd, hret⟩ := exists_wscAddMsg_initialised
    (show (rspRoot leSuccess 1 none).renderStr.bytes ++ [0] ≠ [] by simp)
    (by
      rw [List.length_append, List.length_singleton, Nat.add_assoc]
      exact length_renderStr_lt hfits 18 (by decide))
  have hpush := push_of_wscAddMsg hadd hret
  refine ⟨(rspRoot leSuccess 1 none).renderStr, rfl, ?_, o, h', by rw [hbytes]; exact hadd, hret,
    ?_, ?_⟩
  · rw [ledaSendRsp, addRspMsg, printUnformatted_eq, if_pos hfits]
  · rcases clientBufMgmtPush_cases (by decide) (by decide) hready hpush with
      ⟨hf, -⟩ | ⟨-, -, hqueue, -⟩
    · cases hf
    · rw [hqueue, (hholds.put (by rw [hready.capacity_eq]; decide) _).contents_eq, sealMsg,
        List.append_assoc, List.length_append]
      rfl
  · rw [framedAs_push_iff (by decide) (by decide) hready (by decide) hpush hret]
    simp

end Framing

end LedaSdk.Leda
