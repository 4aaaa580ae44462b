import LedaSdk.Base.Block
import LedaSdk.Base.CInt
import LedaSdk.Base.CyclicQueue
import LedaSdk.ErrorCode

/-!
# Outgoing message buffers

`sdk/utility/ali_ws/wsc_buffer_mgmt.c` and the callers in `ws_client.c`. The globals
`g_ws_buf_state` and `g_ws_buf` are one record; a function that may touch memory it does
not own returns an `Option`, with `none` for such an access. `LWS_PRE`, the outcome of
each allocation and the result of the pop callback are parameters.
-/

namespace LedaSdk.AliWs
open LedaSdk.Base

/-- `msg_buf_status`, without its mutex. A negative `max_buf_cnt` never gets past the
allocation of the row, so the count is a natural number. -/
structure MsgBufStatus where
  rdIndex : Nat
  wrIndex : Nat
  singleBufSize : Int32
  maxBufCnt : Nat
  deriving DecidableEq, Repr

/-- `msg_buf_item`; the block `buf` has the size last given to `malloc` or `realloc`. -/
structure MsgBufItem where
  buf : List UInt8
  bufLen : Nat
  type : Int32
  deriving DecidableEq, Repr

/-- The globals of the file: `g_ws_buf_state` and `g_ws_buf`. -/
structure WsBuf where
  state : MsgBufStatus
  items : Option (List MsgBufItem)
  deriving DecidableEq, Repr

/-- The globals before any call. -/
def WsBuf.zero : WsBuf := ⟨⟨0, 0, 0, 0⟩, none⟩

/-- The three data arguments of the pop callback `cb_del`. -/
structure Offer where
  bytes : List UInt8
  bufLen : Nat
  type : Int32
  deriving DecidableEq, Repr

/-- What a call on the queue returns, what it hands to the pop callback and whether it
calls `notify_network`. -/
structure Outcome where
  ret : Int32
  offered : Option Offer := none
  notify : Bool := false
  deriving DecidableEq, Repr

/-- `MAX_MSG_BUF_COUNT`, `wsc_buffer_mgmt.h:10`. -/
def maxMsgBufCount : Nat := 8

/-- Results of the mutex and allocator calls made by one `client_buf_mgmt_init`. -/
structure InitEnv where
  mutexOk : Bool
  rowOk : Bool
  bufOk : Nat → Bool

/-- `client_buf_mgmt_init`, `wsc_buffer_mgmt.c:10–55`. -/
def clientBufMgmtInit (env : InitEnv) (singleBufSize maxBufCnt : Int32) (g : WsBuf) :
    Int32 × WsBuf :=
  if env.mutexOk then
    let state : MsgBufStatus := ⟨0, 0, singleBufSize, maxBufCnt.toInt.toNat⟩
    -- A negative count asks `malloc` for more than any object can have.
    if env.rowOk ∧ 0 ≤ maxBufCnt.toInt then
      if (List.range maxBufCnt.toInt.toNat).all env.bufOk then
        (leSuccess, ⟨state, some (List.replicate maxBufCnt.toInt.toNat
          ⟨List.replicate (toSize singleBufSize.toInt) 0, 0, 0⟩)⟩)
      else (leErrorAllocatingMem, ⟨state, none⟩)
    else (leErrorAllocatingMem, ⟨state, none⟩)
  else (leErrorCreatingMutex, { g with state := ⟨0, 0, 0, 0⟩ })

/-- The growth of one slot at the start of a push: the block to write to, or `none` when
`realloc` fails; `wsc_buffer_mgmt.c:75–84`. -/
def growSlot (lwsPre : Nat) (reallocOk : Bool) (singleBufSize : Int32) (buf : List UInt8)
    (len : Nat) : Option (List UInt8) :=
  if toSize (singleBufSize.toInt - lwsPre) < len then
    if reallocOk then
      -- The whole block is cleared, so the bytes a larger block starts with do not matter.
      Block.memset0 (Block.resize buf (sizeAdd len lwsPre) 0) (sizeAdd len lwsPre)
    else none
  else some buf

/-- The writes of a push into its slot: clear `buf_len` old bytes, copy the message behind
`LWS_PRE`, terminate it; `wsc_buffer_mgmt.c:86–90`. -/
def fillSlot (lwsPre : Nat) (buf : List UInt8) (oldLen : Nat) (msg : List UInt8) (len : Nat)
    (msgType : Int32) : Option MsgBufItem :=
  do
  let cleared ← Block.memset0 buf oldLen
  let copied ← Block.memcpy cleared lwsPre msg
  let terminated ← Block.memcpy copied (sizeSub (sizeAdd lwsPre len) 1) [0]
  return ⟨terminated, len, msgType⟩

/-- `client_buf_mgmt_push`, `wsc_buffer_mgmt.c:58–98`. -/
def clientBufMgmtPush (lwsPre : Nat) (reallocOk : Bool) (buf : Option (List UInt8))
    (msgType : Int32) (g : WsBuf) : Option (Outcome × WsBuf) :=
  match buf, g.items with
  | some msg, some items =>
    let windex := CyclicQueue.norm g.state.maxBufCnt g.state.wrIndex
    let len := sizeAdd msg.length 1
    do
    let item ← items[windex]?
    match growSlot lwsPre reallocOk g.state.singleBufSize item.buf len with
    | none =>
      return ({ ret := leErrorAllocatingMem },
        { g with state := { g.state with wrIndex := windex } })
    | some block =>
      let item' ← fillSlot lwsPre block item.bufLen msg len msgType
      return ({ ret := leSuccess, notify := true },
        ⟨{ g.state with wrIndex := windex + 1 }, some (items.set windex item')⟩)
  | _, _ => some ({ ret := leErrorInvaildParam }, g)

/-- `client_buf_mgmt_pop`, `wsc_buffer_mgmt.c:100–132`. The callback's `int` result is
compared with the `size_t` length, so it is converted first. -/
def clientBufMgmtPop (lwsPre : Nat) (cb : Offer → Int32) (g : WsBuf) :
    Option (Outcome × WsBuf) :=
  do
  let items ← g.items
  let rindex := CyclicQueue.norm g.state.maxBufCnt g.state.rdIndex
  let item ← items[rindex]?
  if item.bufLen = 0 then
    return ({ ret := leSuccess }, { g with state := { g.state with rdIndex := rindex } })
  else
    let bytes ← Block.read item.buf lwsPre item.bufLen
    let offer : Offer := ⟨bytes, item.bufLen, item.type⟩
    if toSize (cb offer).toInt < item.bufLen then
      return ({ ret := leErrorUnknown, offered := some offer },
        { g with state := { g.state with rdIndex := rindex } })
    else
      return ({ ret := leSuccess, offered := some offer, notify := true },
        ⟨{ g.state with rdIndex := rindex + 1 },
          some (items.set rindex { item with bufLen := 0 })⟩)

/-- `buf_mgmt_client_clear_msg`, `wsc_buffer_mgmt.c:134–146`. -/
def bufMgmtClientClearMsg (g : WsBuf) : Option WsBuf :=
  do
  let items ← g.items
  if maxMsgBufCount ≤ items.length then
    return ⟨{ g.state with rdIndex := 0, wrIndex := 0 },
      some ((items.take maxMsgBufCount).map (fun item ↦ { item with bufLen := 0 }) ++
        items.drop maxMsgBufCount)⟩
  else none

/-- `client_buf_mgmt_destroy`, `wsc_buffer_mgmt.c:148–168`. -/
def clientBufMgmtDestroy (g : WsBuf) : Int32 × WsBuf :=
  match g.items with
  | none => (leSuccess, g)
  | some _ => (leSuccess, WsBuf.zero)

/-- `wsc_add_msg`, `ws_client.c:72–79`; `msg` is the `len` bytes at the pointer. -/
def wscAddMsg (lwsPre : Nat) (reallocOk : Bool) (msg : Option (List UInt8)) (type : Int32)
    (g : WsBuf) : Option (Outcome × WsBuf) :=
  if msg = none ∨ msg = some [] ∨ 1 < type.toInt ∨ type.toInt < 0 then
    some ({ ret := leErrorInvaildParam }, g)
  else clientBufMgmtPush lwsPre reallocOk msg type g

/-- The size and count that `wsc_init` passes on, `ws_client.c:42`. -/
def wscInitSingleBufSize : Int32 := 2048

/-- See `wscInitSingleBufSize`. -/
def wscInitMaxBufCnt : Int32 := 1024

/-- One call on the queue, with what its environment decides: whether a `realloc` would
succeed and what the pop callback returns for each offer. -/
inductive QueueOp where
  | push (msg : List UInt8) (type : Int32) (reallocOk : Bool)
  | pop (cb : Offer → Int32)
  | clear

/-- Execute one call; `none` where it would access memory outside a block. -/
def queueStep (lwsPre : Nat) (g : WsBuf) : QueueOp → Option (Outcome × WsBuf)
  | .push msg type reallocOk => clientBufMgmtPush lwsPre reallocOk (some msg) type g
  | .pop cb => clientBufMgmtPop lwsPre cb g
  | .clear => (bufMgmtClientClearMsg g).map fun g' ↦ ({ ret := leSuccess }, g')

end LedaSdk.AliWs
