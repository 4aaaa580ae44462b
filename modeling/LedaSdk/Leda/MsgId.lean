import LedaSdk.Leda.CallSystem
import Mathlib.Algebra.Group.Nat.Defs

/-!
# Message ids

`_ws_get_msg_id` (`sdk/leda.c:343–350`) increments `g_msg_id` under its lock but reads the
result after releasing it, and `leda_exit` (`leda.c:1329–1333`) sets the counter back to
zero. Any number of requests, each with its own number here, run these steps in any order,
together with the steps by which synchronous calls use the pending list.
-/

namespace LedaSdk.Leda
open LedaSdk.Base

/-- Program point of a request. -/
inductive RequestPhase where
  | fresh
  /-- Between the increment, which gave `own`, and the read of the counter; the code does
  not keep `own`. -/
  | incremented (own : UInt32)
  /-- With the id it read, outside the pending list. -/
  | holding (id : UInt32) (kind : CallKind)
  /-- A synchronous call with an entry in the pending list. -/
  | pending (id : UInt32)
  /-- Returned or answered. -/
  | done
  deriving DecidableEq, Repr

/-- Counter, pending list and requests. -/
structure MsgIdState where
  gMsgId : UInt32
  replies : ReplyList
  phase : Nat → RequestPhase

/-- The globals before `leda_init`. -/
def MsgIdState.init : MsgIdState := ⟨0, [], fun _ ↦ .fresh⟩

/-- Move one request to a program point. -/
def MsgIdState.setPhase (s : MsgIdState) (r : Nat) (p : RequestPhase) : MsgIdState :=
  { s with phase := fun i ↦ if i = r then p else s.phase i }

/-- Steps of the requests and of `leda_exit`. -/
inductive MsgIdOp where
  /-- `++g_msg_id` under the lock. -/
  | inc (r : Nat)
  /-- `return g_msg_id`. -/
  | read (r : Nat) (kind : CallKind)
  /-- `_ws_insert_reply` of a synchronous call. -/
  | insert (r : Nat) (mallocOk semInitOk : Bool)
  /-- A synchronous call removes its entry and returns, or returns without having had one;
  a report is answered. -/
  | finish (r : Nat)
  /-- `wsc_add_msg` fails in a report, which then calls `_ws_remove_reply`. -/
  | reportFailed (r : Nat)
  /-- `g_msg_id = 0` in `leda_exit`. -/
  | exit
  deriving DecidableEq, Repr

/-- One step; a read shows the id. -/
def msgIdStep (s : MsgIdState) : MsgIdOp → Option (Option UInt32 × MsgIdState)
  | .inc r =>
    match s.phase r with
    | .fresh =>
      some (none, { s with gMsgId := s.gMsgId + 1 }.setPhase r (.incremented (s.gMsgId + 1)))
    | _ => none
  | .read r kind =>
    match s.phase r with
    | .incremented _ => some (some s.gMsgId, s.setPhase r (.holding s.gMsgId kind))
    | _ => none
  | .insert r mallocOk semInitOk =>
    match s.phase r with
    | .holding id .sync =>
      let (ret, replies) := wsInsertReply mallocOk semInitOk id.toInt32 s.replies
      if ret ≠ leSuccess then some (none, s.setPhase r .done)
      else some (none, { s with replies }.setPhase r (.pending id))
    | _ => none
  | .finish r =>
    match s.phase r with
    | .holding _ _ => some (none, s.setPhase r .done)
    | .pending id =>
      some (none, { s with replies := wsRemoveReply id.toInt32 s.replies }.setPhase r .done)
    | _ => none
  | .reportFailed r =>
    match s.phase r with
    | .holding id .report =>
      some (none, { s with replies := wsRemoveReply id.toInt32 s.replies }.setPhase r .done)
    | _ => none
  | .exit => some (none, { s with gMsgId := 0 })

/-- The id of a request from when it has obtained it until it is over. -/
def RequestPhase.outstanding : RequestPhase → Option UInt32
  | .holding id _ | .pending id => some id
  | _ => none

/-- The value that a request in progress took from the counter. -/
def RequestPhase.value : RequestPhase → Option UInt32
  | .incremented own => some own
  | p => p.outstanding

/-- A read finds the value of the request's own increment, and the counter is set back only
while no request is in progress. -/
def ReadsOwn (s : MsgIdState) : MsgIdOp → Prop
  | .read r _ => ∀ own, s.phase r = .incremented own → s.gMsgId = own
  | .exit => ∀ r, (s.phase r).value = none
  | _ => True

/-- A history of steps with the ids they showed. -/
abbrev MsgIdTrace := List (MsgIdOp × Option UInt32)

/-- The step is an increment. -/
def MsgIdOp.isInc : MsgIdOp → Bool
  | .inc _ => true
  | _ => false

/-- Number of requests begun. -/
def requests (tr : MsgIdTrace) : Nat := tr.countP fun e ↦ e.1.isInc

/-- Requests in progress have distinct values, none above the counter, and the pending list
has one entry for each id that it holds. -/
structure DistinctIds (n : Nat) (s : MsgIdState) : Prop where
  counter_le : s.gMsgId.toNat ≤ n
  value_le : ∀ r v, (s.phase r).value = some v → v.toNat ≤ s.gMsgId.toNat
  distinct : ∀ r r' v, (s.phase r).value = some v → (s.phase r').value = some v → r = r'
  nodup : (s.replies.map WsMsgReply.msgId).Nodup
  owner : ∀ k ∈ s.replies.map WsMsgReply.msgId, ∃ r id, s.phase r = .pending id ∧ k = id.toInt32

variable {s t : MsgIdState} {a : MsgIdOp} {o : Option UInt32} {tr : MsgIdTrace} {n r r' : Nat}

theorem MsgIdState.phase_setPhase_self (s : MsgIdState) (r : Nat) (p : RequestPhase) :
    (s.setPhase r p).phase r = p := if_pos rfl

theorem MsgIdState.phase_setPhase_ne (s : MsgIdState) {r i : Nat} (p : RequestPhase)
    (h : i ≠ r) : (s.setPhase r p).phase i = s.phase i := if_neg h

/-- A request that keeps its value, or gives it up, keeps the ids distinct; `l` is the list
after the step. -/
private theorem DistinctIds.move (hI : DistinctIds n s) {p : RequestPhase} {l : ReplyList}
    (hvalue : ∀ v, p.value = some v → (s.phase r).value = some v)
    (hnodup : (l.map WsMsgReply.msgId).Nodup)
    (howner : ∀ k ∈ l.map WsMsgReply.msgId, (∃ id, p = .pending id ∧ k = id.toInt32) ∨
      ∃ i id, i ≠ r ∧ s.phase i = .pending id ∧ k = id.toInt32) :
    DistinctIds n ({ s with replies := l }.setPhase r p) := by
  have hval (i : Nat) (v : UInt32)
      (h : (({ s with replies := l }.setPhase r p).phase i).value = some v) :
      (s.phase i).value = some v := by
    by_cases hi : i = r
    · subst hi
      rw [MsgIdState.phase_setPhase_self] at h
      exact hvalue v h
    · rwa [MsgIdState.phase_setPhase_ne _ _ hi] at h
  refine ⟨hI.counter_le, fun i v h ↦ hI.value_le i v (hval i v h),
    fun i j v h h' ↦ hI.distinct i j v (hval i v h) (hval j v h'), hnodup, fun k hk ↦ ?_⟩
  rcases howner k hk with ⟨id, hp, hid⟩ | ⟨i, id, hi, hp, hid⟩
  · exact ⟨r, id, by rw [MsgIdState.phase_setPhase_self]; exact hp, hid⟩
  · exact ⟨i, id, by rw [MsgIdState.phase_setPhase_ne _ _ hi]; exact hp, hid⟩

/-- Owners of entries other than a request that has none. -/
private theorem DistinctIds.owner_ne (hI : DistinctIds n s)
    (hr : ∀ id, s.phase r ≠ .pending id) {k : Int32} (hk : k ∈ s.replies.map WsMsgReply.msgId) :
    ∃ i id, i ≠ r ∧ s.phase i = .pending id ∧ k = id.toInt32 := by
  obtain ⟨i, id, hp, rfl⟩ := hI.owner k hk
  exact ⟨i, id, fun he ↦ hr id (he ▸ hp), hp, rfl⟩

/-- An increment below the last value gives a value that no request has. -/
private theorem DistinctIds.inc (hI : DistinctIds n s) (hn : n + 1 < 2 ^ 32)
    (hp : s.phase r = .fresh) :
    DistinctIds (n + 1)
      ({ s with gMsgId := s.gMsgId + 1 }.setPhase r (.incremented (s.gMsgId + 1))) := by
  have hle := hI.counter_le
  have hsucc : (s.gMsgId + 1).toNat = s.gMsgId.toNat + 1 := by
    rw [UInt32.toNat_add]
    change (s.gMsgId.toNat + 1) % 2 ^ 32 = _
    rw [Nat.mod_eq_of_lt (by omega)]
  have hval (i : Nat) (v : UInt32)
      (h : (({ s with gMsgId := s.gMsgId + 1 }.setPhase r
        (.incremented (s.gMsgId + 1))).phase i).value = some v) :
      (i = r ∧ v = s.gMsgId + 1) ∨ (i ≠ r ∧ (s.phase i).value = some v) := by
    by_cases hi : i = r
    · subst hi
      rw [MsgIdState.phase_setPhase_self] at h
      exact .inl ⟨rfl, (Option.some.inj h).symm⟩
    · rw [MsgIdState.phase_setPhase_ne _ _ hi] at h
      exact .inr ⟨hi, h⟩
  refine ⟨?_, ?_, ?_, hI.nodup, fun k hk ↦ ?_⟩
  · change (s.gMsgId + 1).toNat ≤ n + 1
    omega
  · intro i v h
    change v.toNat ≤ (s.gMsgId + 1).toNat
    rcases hval i v h with ⟨-, rfl⟩ | ⟨-, h⟩
    · exact Nat.le_refl _
    · have := hI.value_le i v h
      omega
  · intro i j v h h'
    rcases hval i v h with ⟨hi, hv⟩ | ⟨-, hi⟩
    · rcases hval j v h' with ⟨hj, -⟩ | ⟨-, hj⟩
      · rw [hi, hj]
      · have := hI.value_le j v hj
        rw [hv] at this
        omega
    · rcases hval j v h' with ⟨-, hv⟩ | ⟨-, hj⟩
      · have := hI.value_le i v hi
        rw [hv] at this
        omega
      · exact hI.distinct i j v hi hj
  · obtain ⟨i, id, hi, hpend, hid⟩ := hI.owner_ne (by rw [hp]; exact fun _ h ↦ nomatch h) hk
    exact ⟨i, id, by rw [MsgIdState.phase_setPhase_ne _ _ hi]; exact hpend, hid⟩

/-- A step of a request that finds its own value keeps the ids distinct. -/
theorem DistinctIds.step (hI : DistinctIds n s) (hok : ReadsOwn s a)
    (hn : n + (if a.isInc then 1 else 0) < 2 ^ 32) (h : msgIdStep s a = some (o, t)) :
    DistinctIds (n + if a.isInc then 1 else 0) t := by
  cases a with
  | inc r =>
    simp only [msgIdStep] at h
    split at h
    · next hp =>
      obtain ⟨-, rfl⟩ := Prod.mk.inj (Option.some.inj h)
      exact hI.inc hn hp
    · cases h
  | read r kind =>
    simp only [msgIdStep] at h
    split at h
    · next own hp =>
      obtain ⟨-, rfl⟩ := Prod.mk.inj (Option.some.inj h)
      apply hI.move
      · intro v hv
        rw [hp, ← hv, hok own hp]
        rfl
      · exact hI.nodup
      · exact fun k hk ↦ .inr (hI.owner_ne (by rw [hp]; exact fun _ h ↦ nomatch h) hk)
    · cases h
  | insert r m k =>
    simp only [msgIdStep] at h
    split at h
    · next id hp =>
      have hnone : ∀ id', s.phase r ≠ .pending id' := by
        rw [hp]
        exact fun _ h ↦ nomatch h
      split at h
      · obtain ⟨-, rfl⟩ := Prod.mk.inj (Option.some.inj h)
        apply hI.move
        · intro v hv
          cases hv
        · exact hI.nodup
        · exact fun k hk ↦ .inr (hI.owner_ne hnone hk)
      · next hret =>
        obtain ⟨-, rfl⟩ := Prod.mk.inj (Option.some.inj h)
        rw [(wsInsertReply_success (not_not.mp hret)).2.2]
        apply hI.move
        · intro v hv
          rw [hp]
          exact hv
        · refine List.nodup_cons.mpr ⟨fun hk ↦ ?_, hI.nodup⟩
          -- An entry with this id would belong to another request with the same id.
          obtain ⟨i, id', hi, hpend, hid⟩ := hI.owner_ne hnone hk
          obtain rfl := toInt32_inj.mp hid
          exact hi (hI.distinct i r id (by rw [hpend]; rfl) (by rw [hp]; rfl))
        · intro k hk
          rcases List.mem_cons.mp hk with rfl | hk
          · exact .inl ⟨id, rfl, rfl⟩
          · exact .inr (hI.owner_ne hnone hk)
    · cases h
  | finish r =>
    simp only [msgIdStep] at h
    split at h
    · next hp =>
      obtain ⟨-, rfl⟩ := Prod.mk.inj (Option.some.inj h)
      apply hI.move
      · intro v hv
        cases hv
      · exact hI.nodup
      · exact fun k hk ↦ .inr (hI.owner_ne (by rw [hp]; exact fun _ h ↦ nomatch h) hk)
    · next id hp =>
      obtain ⟨-, rfl⟩ := Prod.mk.inj (Option.some.inj h)
      apply hI.move
      · intro v hv
        cases hv
      · exact KeyedList.nodup_keys_erase hI.nodup
      · intro k hk
        obtain ⟨hk, hne⟩ := (KeyedList.mem_keys_erase hI.nodup).mp hk
        obtain ⟨i, id', hpend, rfl⟩ := hI.owner k hk
        refine .inr ⟨i, id', fun hi ↦ hne ?_, hpend, rfl⟩
        rw [hi, hp] at hpend
        cases hpend
        rfl
    · cases h
  | reportFailed r =>
    simp only [msgIdStep] at h
    split at h
    · next id hp =>
      obtain ⟨-, rfl⟩ := Prod.mk.inj (Option.some.inj h)
      apply hI.move
      · intro v hv
        cases hv
      · exact KeyedList.nodup_keys_erase hI.nodup
      · intro k hk
        obtain ⟨hk, -⟩ := (KeyedList.mem_keys_erase hI.nodup).mp hk
        exact .inr (hI.owner_ne (by rw [hp]; exact fun _ h ↦ nomatch h) hk)
    · cases h
  | exit =>
    obtain ⟨-, rfl⟩ := Prod.mk.inj (Option.some.inj h)
    have hnone (i : Nat) (v : UInt32) (hv : (s.phase i).value = some v) : False := by
      rw [hok i] at hv
      cases hv
    exact ⟨Nat.zero_le _, fun i v hv ↦ (hnone i v hv).elim,
      fun i j v hv _ ↦ (hnone i v hv).elim, hI.nodup, hI.owner⟩

/-- While every read finds the value of its own increment and the counter is set back only
between requests, fewer than `2 ^ 32` requests never share an id that is outstanding, and
the pending list never has two entries with one id. -/
theorem outstanding_ids_distinct
    (hrun : Run (StepRel.guard ReadsOwn (StepRel.ofFn msgIdStep)) MsgIdState.init tr s)
    (hn : requests tr < 2 ^ 32) :
    (∀ r r' id, (s.phase r).outstanding = some id → (s.phase r').outstanding = some id →
      r = r') ∧
      (s.replies.map WsMsgReply.msgId).Nodup := by
  have hI : DistinctIds (requests tr) s := by
    induction hrun with
    | nil =>
      exact ⟨Nat.le_refl _, fun _ _ h ↦ (nomatch h), fun _ _ _ h ↦ (nomatch h), List.nodup_nil,
        fun _ h ↦ nomatch h⟩
    | @snoc tr s t a o prior step ih =>
      have hcount : requests (tr ++ [(a, o)]) = requests tr + if a.isInc then 1 else 0 := by
        simp [requests, List.countP_append]
      rw [hcount] at hn ⊢
      exact (ih (by omega)).step step.1 hn step.2
  have hval {r : Nat} {id : UInt32} (h : (s.phase r).outstanding = some id) :
      (s.phase r).value = some id := by
    generalize s.phase r = p at h
    cases p <;> first | exact h | cases h
  exact ⟨fun r r' id h h' ↦ hI.distinct r r' id (hval h) (hval h'), hI.nodup⟩

/-- Two calls one after the other have different ids. -/
theorem outstanding_ids_distinct_two :
    ∃ tr s, Run (StepRel.guard ReadsOwn (StepRel.ofFn msgIdStep)) MsgIdState.init tr s ∧
      (s.phase 0).outstanding = some 1 ∧ (s.phase 1).outstanding = some 2 ∧
      (s.replies.map WsMsgReply.msgId).Nodup := by
  let R : StepRel MsgIdState MsgIdOp (Option UInt32) := StepRel.guard ReadsOwn (.ofFn msgIdStep)
  have own {s : MsgIdState} {r : Nat} {v : UInt32} (hp : s.phase r = .incremented v)
      (hv : s.gMsgId = v) : ReadsOwn s (.read r .sync) := by
    intro own h
    rw [hp] at h
    cases h
    exact hv
  have h1 : Run R MsgIdState.init ([] ++ [(.inc 0, none)]) _ := .snoc .nil ⟨trivial, rfl⟩
  have h2 : Run R _ (_ ++ [(.read 0 .sync, some 1)]) _ := .snoc h1 ⟨own rfl rfl, rfl⟩
  have h3 : Run R _ (_ ++ [(.inc 1, none)]) _ := .snoc h2 ⟨trivial, rfl⟩
  have h4 : Run R _ (_ ++ [(.read 1 .sync, some 2)]) _ := .snoc h3 ⟨own rfl rfl, rfl⟩
  have h5 : Run R _ (_ ++ [(.insert 1 true true, none)]) _ := .snoc h4 ⟨trivial, rfl⟩
  exact ⟨_, _, h5, rfl, rfl, (outstanding_ids_distinct h5 (by decide)).2⟩

/-- Two requests that both increment the counter before either reads it have one id, and
the pending list gets two entries with it. -/
theorem two_requests_share_id :
    ∃ tr s, Run (StepRel.ofFn msgIdStep) MsgIdState.init tr s ∧ requests tr = 2 ∧
      (s.phase 0).outstanding = some 2 ∧ (s.phase 1).outstanding = some 2 ∧
      s.replies.map WsMsgReply.msgId = [2, 2] := by
  let ops : List MsgIdOp := [.inc 0, .inc 1, .read 0 .sync, .read 1 .sync, .insert 0 true true,
    .insert 1 true true]
  obtain ⟨s, hexec, hs⟩ : ∃ s, exec msgIdStep MsgIdState.init ops =
      some (ops.zip [none, none, some 2, some 2, none, none], s) ∧
      (s.phase 0).outstanding = some 2 ∧ (s.phase 1).outstanding = some 2 ∧
      s.replies.map WsMsgReply.msgId = [2, 2] := ⟨_, rfl, rfl, rfl, rfl⟩
  exact ⟨_, s, Run.of_exec _ hexec, by decide, hs⟩

end LedaSdk.Leda
