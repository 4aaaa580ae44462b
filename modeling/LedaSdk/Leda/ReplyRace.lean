import LedaSdk.Leda.CallSystem

/-!
# Pending replies between critical sections

`_ws_get_reply_by_msg_id` returns a pointer to an entry after releasing the lock
(`sdk/leda.c:352–370`); its callers use the pointer under the lock again or, for the
semaphore, without it. Here each critical section is a step of its own, entries have
addresses, and `malloc` may return the address of an entry that was removed.
-/

namespace LedaSdk.Leda
open LedaSdk.Base

/-- An entry of the list with its address. -/
structure Node where
  addr : Nat
  reply : WsMsgReply
  deriving DecidableEq, Repr

/-- The message id that an entry is looked up by. -/
def Node.msgId (n : Node) : Int32 := n.reply.msgId

/-- Write to an entry in place. -/
def Node.update (f : WsMsgReply → WsMsgReply) (n : Node) : Node := { n with reply := f n.reply }

/-- Program point of a synchronous call; `removing` and what follows it carry the value
that the call returns. -/
inductive CallPoint where
  | idle
  | inserted
  | sent
  | located (p : Nat)
  | waiting (p : Nat)
  | woken (p : Nat)
  | removing (ret : Int32)
  | unlinking (p : Nat) (ret : Int32)
  | done (ret : Int32)
  deriving DecidableEq, Repr

/-- Program point of a response task in `_ws_set_reply_result`. -/
inductive TaskPoint where
  | idle
  | writing (p : Nat) (msgId code : Int32) (payload : Option (List UInt8))
  | posting (p : Nat) (msgId : Int32)
  | done
  deriving DecidableEq, Repr

/-- The list, the calls by message id and the response tasks by number. -/
structure RaceState where
  nodes : List Node
  call : UInt32 → CallPoint
  task : Nat → TaskPoint

def RaceState.init : RaceState := ⟨[], fun _ ↦ .idle, fun _ ↦ .idle⟩

def RaceState.setCall (s : RaceState) (id : UInt32) (p : CallPoint) : RaceState :=
  { s with call := fun i ↦ if i = id then p else s.call i }

def RaceState.setTask (s : RaceState) (n : Nat) (p : TaskPoint) : RaceState :=
  { s with task := fun i ↦ if i = n then p else s.task i }

/-- The critical section of `_ws_get_reply_by_msg_id`. -/
def RaceState.lookup (s : RaceState) (msgId : Int32) : Option Node :=
  KeyedList.find Node.msgId msgId s.nodes

/-- The entry at an address; none if the address is not that of an entry. -/
def RaceState.at (s : RaceState) (p : Nat) : Option WsMsgReply :=
  (KeyedList.find Node.addr p s.nodes).map Node.reply

/-- Write through a pointer. A write to memory that is no entry leaves the list alone. -/
def RaceState.write (s : RaceState) (p : Nat) (f : WsMsgReply → WsMsgReply) : RaceState :=
  { s with nodes := KeyedList.modify Node.addr p (Node.update f) s.nodes }

/-- Unlink and free the entry at an address. -/
def RaceState.unlink (s : RaceState) (p : Nat) : RaceState :=
  { s with nodes := KeyedList.erase Node.addr p s.nodes }

/-- Steps of the calls and of the response tasks. -/
inductive RaceOp where
  /-- `_ws_insert_reply`; `addr` is what `malloc` returns. -/
  | insert (id : UInt32) (addr : Nat) (mallocOk semInitOk : Bool)
  /-- `wsc_add_msg`. -/
  | addMsg (id : UInt32) (ret : Int32)
  /-- The lookup of `_ws_get_reply_result`. -/
  | locate (id : UInt32)
  /-- `clock_gettime`. -/
  | clock (id : UInt32) (ok : Bool)
  /-- `sem_timedwait` returns 0. -/
  | wake (id : UInt32)
  /-- `sem_timedwait` returns -1. -/
  | timeout (id : UInt32)
  /-- `*code = reply->code`; `junk` is what freed memory holds. -/
  | readCode (id : UInt32) (junk : Int32)
  /-- The lookup of `_ws_remove_reply`. -/
  | removeLookup (id : UInt32)
  /-- The second critical section of `_ws_remove_reply`. -/
  | unlink (id : UInt32)
  /-- The lookup of `_ws_set_reply_result`. -/
  | respLookup (n : Nat) (msgId code : Int32) (payload : Option (List UInt8))
  /-- The second critical section of `_ws_set_reply_result`. -/
  | respWrite (n : Nat)
  /-- `sem_post`. -/
  | respPost (n : Nat)
  deriving DecidableEq, Repr

/-- One step; it shows the address it uses and the message id that the address was looked
up for. -/
def raceStep (s : RaceState) : RaceOp → Option (Option (Nat × Int32) × RaceState)
  | .insert id addr mallocOk semInitOk =>
    match s.call id with
    | .idle =>
      if addr ∈ s.nodes.map Node.addr then none
      else if mallocOk = false then some (none, s.setCall id (.done leErrorAllocatingMem))
      else if semInitOk = false then some (none, s.setCall id (.done leErrorUnknown))
      else some (none, { s with
        nodes := ⟨addr, ⟨id.toInt32, leErrorUnknown, none, 0⟩⟩ :: s.nodes }.setCall id .inserted)
    | _ => none
  | .addMsg id ret =>
    match s.call id with
    | .inserted => some (none, s.setCall id (if ret ≠ leSuccess then .removing ret else .sent))
    | _ => none
  | .locate id =>
    match s.call id with
    | .sent =>
      match s.lookup id.toInt32 with
      | none => some (none, s.setCall id (.done leErrorInvaildParam))
      | some node => some (none, s.setCall id (.located node.addr))
    | _ => none
  | .clock id ok =>
    match s.call id with
    | .located p => some (none, s.setCall id (if ok then .waiting p else .removing leErrorUnknown))
    | _ => none
  | .wake id =>
    match s.call id with
    | .waiting p =>
      if (s.at p).map WsMsgReply.sem = some 0 then none
      else some (some (p, id.toInt32),
        (s.write p WsMsgReply.semTake).setCall id (.woken p))
    | _ => none
  | .timeout id =>
    match s.call id with
    | .waiting p =>
      if 0 < ((s.at p).map WsMsgReply.sem).getD 0 then none
      else some (some (p, id.toInt32), s.setCall id (.removing leErrorTimeout))
    | _ => none
  | .readCode id junk =>
    match s.call id with
    | .woken p =>
      some (some (p, id.toInt32),
        s.setCall id (.removing (((s.at p).map WsMsgReply.code).getD junk)))
    | _ => none
  | .removeLookup id =>
    match s.call id with
    | .removing ret =>
      match s.lookup id.toInt32 with
      | none => some (none, s.setCall id (.done ret))
      | some node => some (none, s.setCall id (.unlinking node.addr ret))
    | _ => none
  | .unlink id =>
    match s.call id with
    | .unlinking p ret => some (some (p, id.toInt32), (s.unlink p).setCall id (.done ret))
    | _ => none
  | .respLookup n msgId code payload =>
    match s.task n with
    | .idle =>
      match s.lookup msgId with
      | none => some (none, s.setTask n .done)
      | some node => some (none, s.setTask n (.writing node.addr msgId code payload))
    | _ => none
  | .respWrite n =>
    match s.task n with
    | .writing p msgId code payload =>
      some (some (p, msgId),
        (s.write p (·.store code payload)).setTask n (.posting p msgId))
    | _ => none
  | .respPost n =>
    match s.task n with
    | .posting p msgId =>
      some (some (p, msgId), (s.write p WsMsgReply.semPost).setTask n .done)
    | _ => none

/-- The address is that of an entry of the list with this message id. -/
def RaceState.Owns (s : RaceState) (p : Nat) (msgId : Int32) : Prop :=
  (s.at p).map WsMsgReply.msgId = some msgId

/-- The pointer that a call holds. -/
def CallPoint.ptr : CallPoint → Option Nat
  | .located p | .waiting p | .woken p | .unlinking p _ => some p
  | _ => none

/-- The pointer that a response task holds, with the id it was looked up for. -/
def TaskPoint.held : TaskPoint → Option (Nat × Int32)
  | .writing p msgId _ _ | .posting p msgId => some (p, msgId)
  | _ => none

/-- An entry is unlinked only while no response task holds a pointer to it. -/
def UnlinksUnheld (s : RaceState) : RaceOp → Prop
  | .unlink id => ∀ p, (s.call id).ptr = some p → ∀ n k, (s.task n).held ≠ some (p, k)
  | _ => True

/-- Addresses and ids are distinct, a call that has not begun has no entry, and every
pointer held is to the entry it was looked up for. -/
structure PointersOwned (s : RaceState) : Prop where
  addrs : (s.nodes.map Node.addr).Nodup
  ids : (s.nodes.map Node.msgId).Nodup
  unused : ∀ id : UInt32, s.call id = .idle → id.toInt32 ∉ s.nodes.map Node.msgId
  call : ∀ id p, (s.call id).ptr = some p → s.Owns p id.toInt32
  task : ∀ n p k, (s.task n).held = some (p, k) → s.Owns p k

/-- A history of steps with the pointers they used. -/
abbrev RaceTrace := List (RaceOp × Option (Nat × Int32))

variable {s t : RaceState} {tr : RaceTrace} {a : RaceOp} {o : Option (Nat × Int32)} {id : UInt32} {n p q : Nat}
  {k : Int32}

theorem RaceState.call_setCall_self (s : RaceState) (id : UInt32) (c : CallPoint) :
    (s.setCall id c).call id = c := if_pos rfl

theorem RaceState.call_setCall_ne (s : RaceState) {id i : UInt32} (c : CallPoint)
    (h : i ≠ id) : (s.setCall id c).call i = s.call i := if_neg h

theorem RaceState.task_setTask_self (s : RaceState) (n : Nat) (c : TaskPoint) :
    (s.setTask n c).task n = c := if_pos rfl

theorem RaceState.task_setTask_ne (s : RaceState) {n i : Nat} (c : TaskPoint) (h : i ≠ n) :
    (s.setTask n c).task i = s.task i := if_neg h

@[simp] theorem RaceState.owns_setCall {c : CallPoint} :
    (s.setCall id c).Owns p k ↔ s.Owns p k := Iff.rfl

@[simp] theorem RaceState.owns_setTask {c : TaskPoint} :
    (s.setTask n c).Owns p k ↔ s.Owns p k := Iff.rfl

/-- A write that keeps the message id keeps every entry where it is. -/
theorem RaceState.owns_write {f : WsMsgReply → WsMsgReply} (hf : ∀ r, (f r).msgId = r.msgId) :
    (s.write p f).Owns q k ↔ s.Owns q k := by
  unfold Owns RaceState.at write
  have hkey (n : Node) : (n.update f).addr = n.addr := rfl
  by_cases hq : q = p
  · subst hq
    rw [KeyedList.find_modify_self hkey]
    cases KeyedList.find Node.addr q s.nodes with
    | none => exact Iff.rfl
    | some node =>
      have hid : (f node.reply).msgId = node.reply.msgId := hf _
      simp [Node.update, hid]
  · rw [KeyedList.find_modify_ne hkey hq]

/-- Unlinking keeps the entries at other addresses. -/
theorem RaceState.owns_unlink_ne (hq : q ≠ p) : (s.unlink p).Owns q k ↔ s.Owns q k := by
  unfold Owns RaceState.at unlink
  rw [KeyedList.find_erase_ne hq]

/-- An address belongs to at most one message id. -/
theorem RaceState.Owns.unique {k' : Int32} (h : s.Owns p k) (h' : s.Owns p k') : k = k' :=
  Option.some.inj (h.symm.trans h')

namespace PointersOwned

/-- What a lookup finds is owned. -/
theorem owns_lookup (hI : PointersOwned s) {node : Node} (h : s.lookup k = some node) :
    s.Owns node.addr k := by
  unfold RaceState.Owns RaceState.at
  rw [KeyedList.find_of_mem hI.addrs (KeyedList.mem_of_find h)]
  exact congrArg some (show node.msgId = k from KeyedList.key_of_find h)

/-- A call moves on with a pointer that is owned, or with none. -/
theorem setCall (hI : PointersOwned s) {c : CallPoint} (hc : c ≠ .idle)
    (hptr : ∀ p, c.ptr = some p → s.Owns p id.toInt32) : PointersOwned (s.setCall id c) where
  addrs := hI.addrs
  ids := hI.ids
  unused i hi := by
    by_cases he : i = id
    · rw [he, s.call_setCall_self] at hi
      exact absurd hi hc
    · rw [s.call_setCall_ne _ he] at hi
      exact hI.unused i hi
  call i p hp := by
    by_cases he : i = id
    · rw [he, s.call_setCall_self] at hp
      rw [he]
      exact hptr p hp
    · rw [s.call_setCall_ne _ he] at hp
      exact hI.call i p hp
  task := hI.task

/-- A response task moves on with a pointer that is owned, or with none. -/
theorem setTask (hI : PointersOwned s) {c : TaskPoint}
    (hheld : ∀ p k, c.held = some (p, k) → s.Owns p k) : PointersOwned (s.setTask n c) where
  addrs := hI.addrs
  ids := hI.ids
  unused := hI.unused
  call := hI.call
  task i p k hp := by
    by_cases he : i = n
    · rw [he, s.task_setTask_self] at hp
      exact hheld p k hp
    · rw [s.task_setTask_ne _ he] at hp
      exact hI.task i p k hp

/-- A write that keeps message ids keeps what pointers are to. -/
theorem write (hI : PointersOwned s) {f : WsMsgReply → WsMsgReply}
    (hf : ∀ r, (f r).msgId = r.msgId) : PointersOwned (s.write p f) := by
  have haddr : (s.write p f).nodes.map Node.addr = s.nodes.map Node.addr :=
    KeyedList.map_modify fun _ ↦ rfl
  have hid : (s.write p f).nodes.map Node.msgId = s.nodes.map Node.msgId :=
    KeyedList.map_modify fun n ↦ hf n.reply
  exact ⟨haddr ▸ hI.addrs, hid ▸ hI.ids, fun id h ↦ hid ▸ hI.unused id h,
    fun id q hq ↦ (RaceState.owns_write hf).mpr (hI.call id q hq),
    fun n q k hq ↦ (RaceState.owns_write hf).mpr (hI.task n q k hq)⟩

/-- A call that begins inserts an entry at an address that is not in use. -/
theorem insert (hI : PointersOwned s) {node : Node} (hp : s.call id = .idle)
    (hid : node.msgId = id.toInt32) (haddr : node.addr ∉ s.nodes.map Node.addr) :
    PointersOwned ({ s with nodes := node :: s.nodes }.setCall id .inserted) := by
  have howns {q : Nat} {k : Int32} (h : s.Owns q k) :
      ({ s with nodes := node :: s.nodes }.setCall id .inserted).Owns q k := by
    have hne : node.addr ≠ q := by
      rintro rfl
      rw [RaceState.Owns, RaceState.at, KeyedList.find_eq_none_iff.mpr haddr] at h
      cases h
    unfold RaceState.Owns RaceState.at at h ⊢
    change Option.map _ (Option.map _ (KeyedList.find Node.addr q (node :: s.nodes))) = _
    rw [KeyedList.find_cons, if_neg hne]
    exact h
  refine ⟨List.nodup_cons.mpr ⟨haddr, hI.addrs⟩, ?_, ?_, ?_, ?_⟩
  · refine List.nodup_cons.mpr ⟨?_, hI.ids⟩
    rw [hid]
    exact hI.unused id hp
  · intro i hi
    by_cases he : i = id
    · rw [he, RaceState.call_setCall_self] at hi
      cases hi
    · rw [RaceState.call_setCall_ne _ _ he] at hi
      refine List.not_mem_cons_of_ne_of_not_mem ?_ (hI.unused i hi)
      rw [hid]
      exact fun h ↦ he (toInt32_inj.mp h)
  · intro i p hptr
    by_cases he : i = id
    · rw [he, RaceState.call_setCall_self] at hptr
      cases hptr
    · rw [RaceState.call_setCall_ne _ _ he] at hptr
      exact howns (hI.call i p hptr)
  · exact fun n p k h ↦ howns (hI.task n p k h)

/-- A call unlinks its own entry, to which no response task holds a pointer. -/
theorem unlink (hI : PointersOwned s) {ret : Int32} (hp : (s.call id).ptr = some p)
    (hheld : ∀ n k, (s.task n).held ≠ some (p, k)) :
    PointersOwned ((s.unlink p).setCall id (.done ret)) := by
  have hmem (k : Int32) (h : k ∉ s.nodes.map Node.msgId) :
      k ∉ (s.unlink p).nodes.map Node.msgId :=
    fun hk ↦ h (((List.eraseP_sublist).map _).subset hk)
  refine ⟨KeyedList.nodup_keys_erase hI.addrs,
    hI.ids.sublist ((List.eraseP_sublist).map _), ?_, ?_, ?_⟩
  · intro i hi
    by_cases he : i = id
    · rw [he, RaceState.call_setCall_self] at hi
      cases hi
    · rw [RaceState.call_setCall_ne _ _ he] at hi
      exact hmem _ (hI.unused i hi)
  · intro i q hptr
    by_cases he : i = id
    · rw [he, RaceState.call_setCall_self] at hptr
      cases hptr
    · rw [RaceState.call_setCall_ne _ _ he] at hptr
      have howns := hI.call i q hptr
      -- Another call's entry is at another address.
      refine (RaceState.owns_unlink_ne fun hq ↦ he ?_).mpr howns
      rw [hq] at howns
      exact toInt32_inj.mp (howns.unique (hI.call id p hp))
  · intro n q k hq
    have hne : q ≠ p := by
      rintro rfl
      exact hheld n k hq
    exact (RaceState.owns_unlink_ne hne).mpr (hI.task n q k hq)

/-- A step that unlinks no entry held by a response task keeps every pointer owned. -/
theorem step (hI : PointersOwned s) (hok : UnlinksUnheld s a) (h : raceStep s a = some (o, t)) :
    PointersOwned t := by
  cases a with
  | insert id addr m k =>
    simp only [raceStep] at h
    split at h
    · next hp =>
      split at h
      · cases h
      · next haddr =>
        split at h
        · obtain ⟨-, rfl⟩ := Prod.mk.inj (Option.some.inj h)
          exact hI.setCall (fun hc ↦ nomatch hc) fun _ hptr ↦ nomatch hptr
        · split at h
          · obtain ⟨-, rfl⟩ := Prod.mk.inj (Option.some.inj h)
            exact hI.setCall (fun hc ↦ nomatch hc) fun _ hptr ↦ nomatch hptr
          · obtain ⟨-, rfl⟩ := Prod.mk.inj (Option.some.inj h)
            exact hI.insert hp rfl haddr
    · cases h
  | addMsg id ret =>
    simp only [raceStep] at h
    split at h
    · obtain ⟨-, rfl⟩ := Prod.mk.inj (Option.some.inj h)
      apply hI.setCall
      · split <;> exact fun hc ↦ nomatch hc
      · intro p hptr
        split at hptr <;> cases hptr
    · cases h
  | locate id =>
    simp only [raceStep] at h
    split at h
    · split at h
      · obtain ⟨-, rfl⟩ := Prod.mk.inj (Option.some.inj h)
        exact hI.setCall (fun hc ↦ nomatch hc) fun _ hptr ↦ nomatch hptr
      · next node hn =>
        obtain ⟨-, rfl⟩ := Prod.mk.inj (Option.some.inj h)
        apply hI.setCall
        · exact fun hc ↦ nomatch hc
        · rintro p hptr
          cases hptr
          exact hI.owns_lookup hn
    · cases h
  | clock id ok =>
    simp only [raceStep] at h
    split at h
    · next p hp =>
      obtain ⟨-, rfl⟩ := Prod.mk.inj (Option.some.inj h)
      apply hI.setCall
      · split <;> exact fun hc ↦ nomatch hc
      · intro q hptr
        apply hI.call
        rw [hp]
        split at hptr
        · exact hptr
        · cases hptr
    · cases h
  | wake id =>
    simp only [raceStep] at h
    split at h
    · next p hp =>
      split at h
      · cases h
      · obtain ⟨-, rfl⟩ := Prod.mk.inj (Option.some.inj h)
        have hkeep (r : WsMsgReply) : r.semTake.msgId = r.msgId := rfl
        apply (hI.write hkeep).setCall
        · exact fun hc ↦ nomatch hc
        · rintro q hptr
          cases hptr
          exact (RaceState.owns_write hkeep).mpr (hI.call id p (by rw [hp]; rfl))
    · cases h
  | timeout id =>
    simp only [raceStep] at h
    split at h
    · split at h
      · cases h
      · obtain ⟨-, rfl⟩ := Prod.mk.inj (Option.some.inj h)
        exact hI.setCall (fun hc ↦ nomatch hc) fun _ hptr ↦ nomatch hptr
    · cases h
  | readCode id junk =>
    simp only [raceStep] at h
    split at h
    · obtain ⟨-, rfl⟩ := Prod.mk.inj (Option.some.inj h)
      exact hI.setCall (fun hc ↦ nomatch hc) fun _ hptr ↦ nomatch hptr
    · cases h
  | removeLookup id =>
    simp only [raceStep] at h
    split at h
    · split at h
      · obtain ⟨-, rfl⟩ := Prod.mk.inj (Option.some.inj h)
        exact hI.setCall (fun hc ↦ nomatch hc) fun _ hptr ↦ nomatch hptr
      · next node hn =>
        obtain ⟨-, rfl⟩ := Prod.mk.inj (Option.some.inj h)
        apply hI.setCall
        · exact fun hc ↦ nomatch hc
        · rintro p hptr
          cases hptr
          exact hI.owns_lookup hn
    · cases h
  | unlink id =>
    simp only [raceStep] at h
    split at h
    · next p ret hp =>
      obtain ⟨-, rfl⟩ := Prod.mk.inj (Option.some.inj h)
      have hptr : (s.call id).ptr = some p := by rw [hp]; rfl
      exact hI.unlink hptr (hok p hptr)
    · cases h
  | respLookup n msgId code payload =>
    simp only [raceStep] at h
    split at h
    · split at h
      · obtain ⟨-, rfl⟩ := Prod.mk.inj (Option.some.inj h)
        exact hI.setTask fun _ _ hheld ↦ nomatch hheld
      · next node hn =>
        obtain ⟨-, rfl⟩ := Prod.mk.inj (Option.some.inj h)
        apply hI.setTask
        rintro p k hheld
        cases hheld
        exact hI.owns_lookup hn
    · cases h
  | respWrite n =>
    simp only [raceStep] at h
    split at h
    · next p msgId code payload hp =>
      obtain ⟨-, rfl⟩ := Prod.mk.inj (Option.some.inj h)
      have hkeep (r : WsMsgReply) : (r.store code payload).msgId = r.msgId := rfl
      apply (hI.write hkeep).setTask
      rintro q k hheld
      cases hheld
      exact (RaceState.owns_write hkeep).mpr (hI.task n p msgId (by rw [hp]; rfl))
    · cases h
  | respPost n =>
    simp only [raceStep] at h
    split at h
    · obtain ⟨-, rfl⟩ := Prod.mk.inj (Option.some.inj h)
      have hkeep (r : WsMsgReply) : r.semPost.msgId = r.msgId := rfl
      exact (hI.write hkeep).setTask fun _ _ hheld ↦ nomatch hheld
    · cases h

/-- A step uses only a pointer that its call or task holds. -/
theorem owns_used (hI : PointersOwned s) (h : raceStep s a = some (some (p, k), t)) :
    s.Owns p k := by
  cases a with
  | wake id | timeout id =>
    simp only [raceStep] at h
    split at h
    · next q hp =>
      split at h
      · cases h
      · cases h
        exact hI.call id p (by rw [hp]; rfl)
    · cases h
  | readCode id junk =>
    simp only [raceStep] at h
    split at h
    · next q hp =>
      cases h
      exact hI.call id p (by rw [hp]; rfl)
    · cases h
  | unlink id =>
    simp only [raceStep] at h
    split at h
    · next q ret hp =>
      cases h
      exact hI.call id p (by rw [hp]; rfl)
    · cases h
  | respWrite n =>
    simp only [raceStep] at h
    split at h
    · next q msgId code payload hp =>
      cases h
      exact hI.task n p k (by rw [hp]; rfl)
    · cases h
  | respPost n =>
    simp only [raceStep] at h
    split at h
    · next q msgId hp =>
      cases h
      exact hI.task n p k (by rw [hp]; rfl)
    · cases h
  | _ =>
    -- The other steps use no pointer.
    simp only [raceStep] at h
    repeat' split at h
    all_goals cases h

end PointersOwned

/-- If no entry is unlinked while a response task holds a pointer to it, every step uses an
entry that is in the list and has the message id that it was looked up for. -/
theorem used_entries_owned
    (hrun : Run (StepRel.guard UnlinksUnheld (StepRel.ofFn raceStep)) RaceState.init tr s)
    (h : raceStep s a = some (some (p, k), t)) : s.Owns p k := by
  have hI : PointersOwned s := by
    apply hrun.invariant
    · exact ⟨List.nodup_nil, List.nodup_nil, fun _ _ h ↦ (nomatch h), fun _ _ h ↦ (nomatch h),
        fun _ _ _ h ↦ (nomatch h)⟩
    · exact fun _ _ _ _ hI hstep ↦ hI.step hstep.1 hstep.2
  exact hI.owns_used h

/-- A response task that writes while the call is still waiting uses that call's entry. -/
theorem used_entries_owned_response :
    ∃ tr s t, Run (StepRel.guard UnlinksUnheld (StepRel.ofFn raceStep)) RaceState.init tr s ∧
      raceStep s (.respWrite 0) = some (some (100, 7), t) ∧ s.Owns 100 7 := by
  let R : StepRel RaceState RaceOp (Option (Nat × Int32)) := .guard UnlinksUnheld (.ofFn raceStep)
  have h1 : Run R RaceState.init ([] ++ [(.insert 7 100 true true, none)]) _ :=
    .snoc .nil ⟨trivial, rfl⟩
  have h2 : Run R _ (_ ++ [(.respLookup 0 7 42 none, none)]) _ := .snoc h1 ⟨trivial, rfl⟩
  exact ⟨_, _, _, h2, rfl, used_entries_owned h2 (a := .respWrite 0) rfl⟩

/-- A response task looks its entry up, the call times out and frees it, and a new call's
entry gets the address: the task completes the new call with the code meant for the old. -/
theorem stale_entry_completes_other_call :
    ∃ tr s t, Run (StepRel.ofFn raceStep) RaceState.init tr s ∧
      raceStep s (.respWrite 0) = some (some (100, 7), t) ∧ ¬ s.Owns 100 7 ∧ s.Owns 100 8 ∧
      (t.at 100).map WsMsgReply.code = some 42 := by
  let ops : List RaceOp := [.insert 7 100 true true, .addMsg 7 leSuccess, .locate 7,
    .clock 7 true, .respLookup 0 7 42 none, .timeout 7, .removeLookup 7, .unlink 7,
    .insert 8 100 true true]
  let used : List (Option (Nat × Int32)) := [none, none, none, none, none, some (100, 7), none,
    some (100, 7), none]
  obtain ⟨s, t, hexec, hstep, howns, hcode⟩ : ∃ s t, exec raceStep RaceState.init ops =
      some (ops.zip used, s) ∧ raceStep s (.respWrite 0) = some (some (100, 7), t) ∧
      s.Owns 100 8 ∧ (t.at 100).map WsMsgReply.code = some 42 := ⟨_, _, rfl, rfl, rfl, rfl⟩
  have hstale : ¬ s.Owns 100 7 := fun h ↦ absurd (h.unique howns) (by decide)
  exact ⟨_, s, t, Run.of_exec _ hexec, hstep, hstale, howns, hcode⟩

end LedaSdk.Leda
