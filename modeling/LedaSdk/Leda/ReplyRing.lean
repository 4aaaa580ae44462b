import LedaSdk.Base.LinkedRing
import LedaSdk.Leda.ReplyRace

/-!
# The list of pending replies in memory

`sdk/leda.c:352–450` with `sdk/utility/base-utils/base-utils.h:48–129,435–439`: the list
`g_ws_msg_reply_list` is a head and entries that are linked in both directions; an entry is
allocated when it is inserted and released when it is unlinked. The calls and the response
tasks take the steps that they take on the abstract list. A step that would access memory
of no entry has a result of its own.
-/

namespace LedaSdk.Leda
open LedaSdk.Base

/-- The memory of the list, whose entries are at the addresses `blocks`, and the points of the
calls and the response tasks. -/
structure ReplyHeap where
  links : Links Nat
  blocks : List Nat
  entry : Nat → WsMsgReply
  call : UInt32 → CallPoint
  task : Nat → TaskPoint

namespace ReplyHeap

/-- After `LIST_HEAD`, whatever memory holds. -/
def init (head : Nat) (links : Links Nat) (entry : Nat → WsMsgReply) : ReplyHeap :=
  ⟨links.init head, [], entry, fun _ ↦ .idle, fun _ ↦ .idle⟩

def setCall (h : ReplyHeap) (id : UInt32) (p : CallPoint) : ReplyHeap :=
  { h with call := fun i ↦ if i = id then p else h.call i }

def setTask (h : ReplyHeap) (n : Nat) (p : TaskPoint) : ReplyHeap :=
  { h with task := fun i ↦ if i = n then p else h.task i }

/-- Read through a pointer; there is nothing to read where no entry is. -/
def read (h : ReplyHeap) (p : Nat) : Option WsMsgReply :=
  if p ∈ h.blocks then some (h.entry p) else none

/-- Write through a pointer. -/
def write (h : ReplyHeap) (p : Nat) (f : WsMsgReply → WsMsgReply) : Option ReplyHeap :=
  if p ∈ h.blocks then some { h with entry := Function.update h.entry p (f (h.entry p)) } else none

variable (head : Nat)

/-- `_ws_get_reply_by_msg_id`, `leda.c:352–370`: the address of the entry. -/
def lookup (h : ReplyHeap) (msgId : Int32) : Option (Option Nat) :=
  h.links.find head (fun p ↦ (h.read p).map fun r ↦ decide (r.msgId = msgId))
    (h.blocks.length + 1) (h.links.next head)

/-- The links of an entry or of the head can be written. -/
def Linkable (h : ReplyHeap) (p : Nat) : Prop := p = head ∨ p ∈ h.blocks

instance (h : ReplyHeap) (p : Nat) : Decidable (h.Linkable head p) :=
  inferInstanceAs (Decidable (_ ∨ _))

/-- The end of `_ws_insert_reply`, `leda.c:394–397`, with a new entry at `addr`. -/
def insert (h : ReplyHeap) (addr : Nat) (reply : WsMsgReply) : Option ReplyHeap :=
  if h.Linkable head (h.links.next head) then
    some { h with links := h.links.add addr head, blocks := addr :: h.blocks,
                  entry := Function.update h.entry addr reply }
  else none

/-- The second critical section of `_ws_remove_reply`, `leda.c:414–424`. -/
def unlink (h : ReplyHeap) (p : Nat) : Option ReplyHeap :=
  if p ∈ h.blocks ∧ h.Linkable head (h.links.prev p) ∧ h.Linkable head (h.links.next p) then
    some { h with links := h.links.del p, blocks := h.blocks.erase p }
  else none

end ReplyHeap

/-- One step, as `raceStep` takes it: `none` where it cannot be taken now, and `some none` where
it accesses memory of no entry. -/
def heapStep (head : Nat) (h : ReplyHeap) :
    RaceOp → Option (Option (Option (Nat × Int32) × ReplyHeap))
  | .insert id addr mallocOk semInitOk =>
    match h.call id with
    | .idle =>
      if addr = head ∨ addr ∈ h.blocks then none
      else if mallocOk = false then some (some (none, h.setCall id (.done leErrorAllocatingMem)))
      else if semInitOk = false then some (some (none, h.setCall id (.done leErrorUnknown)))
      else some ((h.insert head addr ⟨id.toInt32, leErrorUnknown, none, 0⟩).map fun h ↦
        (none, h.setCall id .inserted))
    | _ => none
  | .addMsg id ret =>
    match h.call id with
    | .inserted =>
      some (some (none, h.setCall id (if ret ≠ leSuccess then .removing ret else .sent)))
    | _ => none
  | .locate id =>
    match h.call id with
    | .sent => some ((h.lookup head id.toInt32).map fun
      | none => (none, h.setCall id (.done leErrorInvaildParam))
      | some p => (none, h.setCall id (.located p)))
    | _ => none
  | .clock id ok =>
    match h.call id with
    | .located p =>
      some (some (none, h.setCall id (if ok then .waiting p else .removing leErrorUnknown)))
    | _ => none
  | .wake id =>
    match h.call id with
    | .waiting p =>
      match h.read p with
      | none => some none
      | some r =>
        if r.sem = 0 then none
        else some ((h.write p WsMsgReply.semTake).map fun h ↦
          (some (p, id.toInt32), h.setCall id (.woken p)))
    | _ => none
  | .timeout id =>
    match h.call id with
    | .waiting p =>
      match h.read p with
      | none => some none
      | some r =>
        if 0 < r.sem then none
        else some (some (some (p, id.toInt32), h.setCall id (.removing leErrorTimeout)))
    | _ => none
  | .readCode id _ =>
    match h.call id with
    | .woken p => some ((h.read p).map fun r ↦
      (some (p, id.toInt32), h.setCall id (.removing r.code)))
    | _ => none
  | .removeLookup id =>
    match h.call id with
    | .removing ret => some ((h.lookup head id.toInt32).map fun
      | none => (none, h.setCall id (.done ret))
      | some p => (none, h.setCall id (.unlinking p ret)))
    | _ => none
  | .unlink id =>
    match h.call id with
    | .unlinking p ret => some ((h.unlink head p).map fun h ↦
      (some (p, id.toInt32), h.setCall id (.done ret)))
    | _ => none
  | .respLookup n msgId code payload =>
    match h.task n with
    | .idle => some ((h.lookup head msgId).map fun
      | none => (none, h.setTask n .done)
      | some p => (none, h.setTask n (.writing p msgId code payload)))
    | _ => none
  | .respWrite n =>
    match h.task n with
    | .writing p msgId code payload => some ((h.write p (·.store code payload)).map fun h ↦
      (some (p, msgId), h.setTask n (.posting p msgId)))
    | _ => none
  | .respPost n =>
    match h.task n with
    | .posting p msgId => some ((h.write p WsMsgReply.semPost).map fun h ↦
      (some (p, msgId), h.setTask n .done))
    | _ => none

theorem pointersOwned_init : PointersOwned RaceState.init :=
  ⟨List.nodup_nil, List.nodup_nil, fun _ _ h ↦ (nomatch h), fun _ _ h ↦ (nomatch h),
    fun _ _ _ h ↦ (nomatch h)⟩

/-- The memory holds exactly the entries of the list, linked in its order. -/
structure ReplyHeap.Shows (head : Nat) (h : ReplyHeap) (s : RaceState) : Prop where
  ring : h.links.Ring head h.blocks
  blocks : h.blocks = s.nodes.map Node.addr
  entry : ∀ node ∈ s.nodes, h.entry node.addr = node.reply
  call : h.call = s.call
  task : h.task = s.task

namespace ReplyHeap.Shows
variable {head : Nat} {h : ReplyHeap} {s : RaceState}

theorem addrs (hs : h.Shows head s) : (s.nodes.map Node.addr).Nodup :=
  hs.blocks ▸ (List.nodup_cons.mp hs.ring.nodup).2

/-- A pointer reads the same in memory and in the list. -/
theorem read_eq (hs : h.Shows head s) (p : Nat) : h.read p = s.at p := by
  rw [read, RaceState.at]
  cases hfind : KeyedList.find Node.addr p s.nodes with
  | none =>
    rw [if_neg (by rw [hs.blocks]; exact KeyedList.find_eq_none_iff.mp hfind)]
    rfl
  | some node =>
    have hmem := KeyedList.mem_of_find hfind
    have haddr := KeyedList.key_of_find hfind
    rw [if_pos (by rw [hs.blocks, ← haddr]; exact List.mem_map_of_mem hmem), ← haddr,
      hs.entry node hmem]
    rfl

/-- A search finds the same entry in memory and in the list. -/
theorem lookup_eq (hs : h.Shows head s) (msgId : Int32) :
    h.lookup head msgId = some ((s.lookup msgId).map Node.addr) := by
  have htest : ∀ p ∈ h.blocks, (h.read p).map (fun r ↦ decide (r.msgId = msgId)) =
      some (decide ((h.entry p).msgId = msgId)) := by
    intro p hp
    rw [read, if_pos hp]
    rfl
  have hall : ∀ nodes : List Node, (∀ node ∈ nodes, h.entry node.addr = node.reply) →
      (nodes.map Node.addr).find? (fun p ↦ decide ((h.entry p).msgId = msgId)) =
        (KeyedList.find Node.msgId msgId nodes).map Node.addr := by
    intro nodes hentry
    induction nodes with
    | nil => rfl
    | cons node nodes ih =>
      have hnode : (h.entry node.addr).msgId = node.msgId := by
        rw [hentry node List.mem_cons_self]
        rfl
      rw [List.map_cons, List.find?_cons, KeyedList.find_cons, hnode,
        ih fun n hn ↦ hentry n (List.mem_cons_of_mem _ hn)]
      by_cases heq : node.msgId = msgId
      · rw [decide_eq_true heq, if_pos heq]
        rfl
      · rw [decide_eq_false heq, if_neg heq]
  rw [lookup, hs.ring.find htest (Nat.lt_succ_self _), hs.blocks, hall s.nodes hs.entry]
  rfl

theorem setCall (hs : h.Shows head s) (id : UInt32) (c : CallPoint) :
    (h.setCall id c).Shows head (s.setCall id c) where
  ring := hs.ring
  blocks := hs.blocks
  entry := hs.entry
  call := congrArg (fun (f : UInt32 → CallPoint) i ↦ if i = id then c else f i) hs.call
  task := hs.task

theorem setTask (hs : h.Shows head s) (n : Nat) (c : TaskPoint) :
    (h.setTask n c).Shows head (s.setTask n c) where
  ring := hs.ring
  blocks := hs.blocks
  entry := hs.entry
  call := hs.call
  task := congrArg (fun (f : Nat → TaskPoint) i ↦ if i = n then c else f i) hs.task

/-- A pointer to an entry is to allocated memory. -/
theorem mem_blocks (hs : h.Shows head s) {p : Nat} {r : WsMsgReply} (hp : s.at p = some r) :
    p ∈ h.blocks := by
  rw [← hs.read_eq, read] at hp
  split at hp
  · assumption
  · cases hp

/-- A write through a pointer to an entry. -/
theorem write (hs : h.Shows head s) {p : Nat} {r : WsMsgReply} (hp : s.at p = some r)
    (f : WsMsgReply → WsMsgReply) :
    ∃ h', h.write p f = some h' ∧ h'.Shows head (s.write p f) := by
  refine ⟨_, if_pos (hs.mem_blocks hp), hs.ring, ?_, ?_, hs.call, hs.task⟩
  · have hmap : (s.write p f).nodes.map Node.addr = s.nodes.map Node.addr :=
      KeyedList.map_modify fun _ ↦ rfl
    rw [hmap]
    exact hs.blocks
  · intro node hnode
    rcases KeyedList.mem_modify hs.addrs hnode with ⟨hmem, hne⟩ | ⟨old, hmem, rfl, rfl⟩
    · exact (Function.update_of_ne hne _ _).trans (hs.entry node hmem)
    · exact (Function.update_self _ _ _).trans (congrArg f (hs.entry old hmem))

/-- A new entry. -/
theorem insert (hs : h.Shows head s) {addr : Nat} (hhead : addr ≠ head) (haddr : addr ∉ h.blocks)
    (reply : WsMsgReply) :
    ∃ h', h.insert head addr reply = some h' ∧
      h'.Shows head { s with nodes := ⟨addr, reply⟩ :: s.nodes } := by
  have hlink : h.Linkable head (h.links.next head) :=
    List.mem_cons.mp (hs.ring.next_mem List.mem_cons_self)
  refine ⟨_, if_pos hlink, hs.ring.add ?_, ?_, ?_, hs.call, hs.task⟩
  · rw [List.mem_cons, not_or]
    exact ⟨hhead, haddr⟩
  · exact congrArg (addr :: ·) hs.blocks
  · intro node hnode
    rcases List.mem_cons.mp hnode with rfl | hmem
    · exact Function.update_self _ _ _
    · have hne : node.addr ≠ addr := by
        rintro rfl
        exact haddr (hs.blocks ▸ List.mem_map_of_mem hmem)
      exact (Function.update_of_ne hne _ _).trans (hs.entry node hmem)

/-- An entry is unlinked and released. -/
theorem unlink (hs : h.Shows head s) {p : Nat} {r : WsMsgReply} (hp : s.at p = some r) :
    ∃ h', h.unlink head p = some h' ∧ h'.Shows head (s.unlink p) := by
  have hmem := hs.mem_blocks hp
  have hprev : h.Linkable head (h.links.prev p) :=
    List.mem_cons.mp (hs.ring.prev_mem (List.mem_cons_of_mem head hmem))
  have hnext : h.Linkable head (h.links.next p) :=
    List.mem_cons.mp (hs.ring.next_mem (List.mem_cons_of_mem head hmem))
  refine ⟨_, if_pos ⟨hmem, hprev, hnext⟩, hs.ring.del hmem, ?_, ?_, hs.call, hs.task⟩
  · change h.blocks.erase p = (KeyedList.erase Node.addr p s.nodes).map Node.addr
    rw [KeyedList.map_erase, hs.blocks]
  · exact fun node hnode ↦ hs.entry node (List.eraseP_sublist.subset hnode)

/-- While every pointer held is to the entry it was looked up for, a step accesses only memory
of entries, and the list takes the same step. -/
theorem step (hs : h.Shows head s) (hI : PointersOwned s) {a : RaceOp}
    {r : Option (Option (Nat × Int32) × ReplyHeap)} (hstep : heapStep head h a = some r) :
    ∃ o h' s', r = some (o, h') ∧ raceStep s a = some (o, s') ∧ h'.Shows head s' := by
  have hcall : ∀ {id p}, (s.call id).ptr = some p → ∃ r, s.at p = some r := fun hp ↦
    Option.map_eq_some_iff.mp (hI.call _ _ hp) |>.imp fun _ ↦ And.left
  have htask : ∀ {n p k}, (s.task n).held = some (p, k) → ∃ r, s.at p = some r := fun hp ↦
    Option.map_eq_some_iff.mp (hI.task _ _ _ hp) |>.imp fun _ ↦ And.left
  cases a with
  | insert id addr mallocOk semInitOk =>
    simp only [heapStep, hs.call] at hstep
    split at hstep
    · next hp =>
      split at hstep
      · cases hstep
      · next hfree =>
        obtain ⟨hhead, haddr⟩ := not_or.mp hfree
        have hfresh : addr ∉ s.nodes.map Node.addr := hs.blocks ▸ haddr
        simp only [raceStep, hp, if_neg hfresh]
        split at hstep
        · next hm =>
          cases hstep
          exact ⟨_, _, _, rfl, if_pos hm, hs.setCall _ _⟩
        · next hm =>
          split at hstep
          · next hk =>
            cases hstep
            exact ⟨_, _, _, rfl, by rw [if_neg hm, if_pos hk], hs.setCall _ _⟩
          · next hk =>
            obtain ⟨h', hinsert, hs'⟩ := hs.insert hhead haddr ⟨id.toInt32, leErrorUnknown, none, 0⟩
            rw [hinsert] at hstep
            cases hstep
            exact ⟨_, _, _, rfl, by rw [if_neg hm, if_neg hk], hs'.setCall _ _⟩
    · cases hstep
  | addMsg id ret =>
    simp only [heapStep, hs.call] at hstep
    split at hstep
    · next hp =>
      cases hstep
      exact ⟨_, _, _, rfl, by simp only [raceStep, hp], hs.setCall _ _⟩
    · cases hstep
  | locate id =>
    simp only [heapStep, hs.call, hs.lookup_eq] at hstep
    split at hstep
    · next hp =>
      simp only [raceStep, hp]
      cases hfind : s.lookup id.toInt32 with
      | none =>
        rw [hfind] at hstep
        cases hstep
        exact ⟨_, _, _, rfl, rfl, hs.setCall _ _⟩
      | some node =>
        rw [hfind] at hstep
        cases hstep
        exact ⟨_, _, _, rfl, rfl, hs.setCall _ _⟩
    · cases hstep
  | clock id ok =>
    simp only [heapStep, hs.call] at hstep
    split at hstep
    · next p hp =>
      cases hstep
      exact ⟨_, _, _, rfl, by simp only [raceStep, hp], hs.setCall _ _⟩
    · cases hstep
  | wake id =>
    simp only [heapStep, hs.call, hs.read_eq] at hstep
    split at hstep
    · next p hp =>
      obtain ⟨reply, hreply⟩ := hcall (show (s.call id).ptr = some p by rw [hp]; rfl)
      simp only [hreply] at hstep
      split at hstep
      · cases hstep
      · next hsem =>
        obtain ⟨h', hwrite, hs'⟩ := hs.write hreply WsMsgReply.semTake
        rw [hwrite] at hstep
        cases hstep
        refine ⟨_, _, _, rfl, ?_, hs'.setCall _ _⟩
        simp only [raceStep, hp, hreply, Option.map_some, Option.some.injEq, if_neg hsem]
    · cases hstep
  | timeout id =>
    simp only [heapStep, hs.call, hs.read_eq] at hstep
    split at hstep
    · next p hp =>
      obtain ⟨reply, hreply⟩ := hcall (show (s.call id).ptr = some p by rw [hp]; rfl)
      simp only [hreply] at hstep
      split at hstep
      · cases hstep
      · next hsem =>
        cases hstep
        refine ⟨_, _, _, rfl, ?_, hs.setCall _ _⟩
        simp only [raceStep, hp, hreply, Option.map_some, Option.getD_some, if_neg hsem]
    · cases hstep
  | readCode id junk =>
    simp only [heapStep, hs.call, hs.read_eq] at hstep
    split at hstep
    · next p hp =>
      obtain ⟨reply, hreply⟩ := hcall (show (s.call id).ptr = some p by rw [hp]; rfl)
      rw [hreply] at hstep
      cases hstep
      refine ⟨_, _, _, rfl, ?_, hs.setCall _ _⟩
      simp only [raceStep, hp, hreply, Option.map_some, Option.getD_some]
    · cases hstep
  | removeLookup id =>
    simp only [heapStep, hs.call, hs.lookup_eq] at hstep
    split at hstep
    · next ret hp =>
      simp only [raceStep, hp]
      cases hfind : s.lookup id.toInt32 with
      | none =>
        rw [hfind] at hstep
        cases hstep
        exact ⟨_, _, _, rfl, rfl, hs.setCall _ _⟩
      | some node =>
        rw [hfind] at hstep
        cases hstep
        exact ⟨_, _, _, rfl, rfl, hs.setCall _ _⟩
    · cases hstep
  | unlink id =>
    simp only [heapStep, hs.call] at hstep
    split at hstep
    · next p ret hp =>
      obtain ⟨reply, hreply⟩ := hcall (show (s.call id).ptr = some p by rw [hp]; rfl)
      obtain ⟨h', hunlink, hs'⟩ := hs.unlink hreply
      rw [hunlink] at hstep
      cases hstep
      exact ⟨_, _, _, rfl, by simp only [raceStep, hp], hs'.setCall _ _⟩
    · cases hstep
  | respLookup n msgId code payload =>
    simp only [heapStep, hs.task, hs.lookup_eq] at hstep
    split at hstep
    · next hp =>
      simp only [raceStep, hp]
      cases hfind : s.lookup msgId with
      | none =>
        rw [hfind] at hstep
        cases hstep
        exact ⟨_, _, _, rfl, rfl, hs.setTask _ _⟩
      | some node =>
        rw [hfind] at hstep
        cases hstep
        exact ⟨_, _, _, rfl, rfl, hs.setTask _ _⟩
    · cases hstep
  | respWrite n =>
    simp only [heapStep, hs.task] at hstep
    split at hstep
    · next p msgId code payload hp =>
      obtain ⟨reply, hreply⟩ := htask (show (s.task n).held = some (p, msgId) by rw [hp]; rfl)
      obtain ⟨h', hwrite, hs'⟩ := hs.write hreply (·.store code payload)
      rw [hwrite] at hstep
      cases hstep
      exact ⟨_, _, _, rfl, by simp only [raceStep, hp], hs'.setTask _ _⟩
    · cases hstep
  | respPost n =>
    simp only [heapStep, hs.task] at hstep
    split at hstep
    · next p msgId hp =>
      obtain ⟨reply, hreply⟩ := htask (show (s.task n).held = some (p, msgId) by rw [hp]; rfl)
      obtain ⟨h', hwrite, hs'⟩ := hs.write hreply WsMsgReply.semPost
      rw [hwrite] at hstep
      cases hstep
      exact ⟨_, _, _, rfl, by simp only [raceStep, hp], hs'.setTask _ _⟩
    · cases hstep

theorem start (head : Nat) (links : Links Nat) (entry : Nat → WsMsgReply) :
    (ReplyHeap.init head links entry).Shows head RaceState.init where
  ring := links.ring_init
  blocks := rfl
  entry _ hnode := nomatch hnode
  call := rfl
  task := rfl

end ReplyHeap.Shows

/-- The points of the calls and the tasks. -/
def ReplyHeap.points (h : ReplyHeap) : RaceState := ⟨[], h.call, h.task⟩

/-- Steps that access only memory of entries. -/
def heapRel (head : Nat) : StepRel ReplyHeap RaceOp (Option (Nat × Int32)) :=
  fun h a o h' ↦ heapStep head h a = some (some (o, h'))

/-- In every run in which no entry is unlinked while a response task holds a pointer to it, the
links in memory are those of a circular list of exactly the entries that are allocated, the
run is one of the abstract list, which memory shows, and no step that can be taken next
accesses memory of no entry. -/
theorem reply_memory_refines {head : Nat} {links : Links Nat} {entry : Nat → WsMsgReply}
    {tr : RaceTrace} {h : ReplyHeap}
    (hrun : Run (StepRel.guard (fun h a ↦ UnlinksUnheld h.points a) (heapRel head))
      (ReplyHeap.init head links entry) tr h) :
    (∃ s, Run (StepRel.guard UnlinksUnheld (StepRel.ofFn raceStep)) RaceState.init tr s ∧
      h.Shows head s) ∧ ∀ a, heapStep head h a ≠ some none := by
  obtain ⟨s, hs, hI, hshows⟩ := hrun.simulate (I := fun _ h s ↦ PointersOwned s ∧ h.Shows head s)
    (Q := StepRel.guard UnlinksUnheld (StepRel.ofFn raceStep))
    ⟨pointersOwned_init, .start head links entry⟩ (by
      rintro _ h a o h' s ⟨hI, hs⟩ ⟨hok, hstep⟩
      obtain ⟨o', h'', s', hr, hrace, hs'⟩ := hs.step hI hstep
      cases hr
      have hok' : UnlinksUnheld s a := by
        rw [ReplyHeap.points, hs.call, hs.task] at hok
        cases a with
        | unlink id => exact hok
        | _ => trivial
      exact ⟨s', ⟨hok', hrace⟩, hI.step hok' hrace, hs'⟩)
  refine ⟨⟨s, hs, hshows⟩, fun a hfault ↦ ?_⟩
  obtain ⟨_, _, _, hr, -⟩ := hshows.step hI hfault
  cases hr

/-- A response task that holds a pointer while its call is waiting. -/
theorem reply_memory_refines_response :
    ∃ tr h, Run (StepRel.guard (fun h a ↦ UnlinksUnheld h.points a) (heapRel 0))
        (ReplyHeap.init 0 ⟨id, id⟩ fun _ ↦ ⟨0, 0, none, 0⟩) tr h ∧ h.links.next 0 = 100 ∧
      ∀ a, heapStep 0 h a ≠ some none := by
  let R : StepRel ReplyHeap RaceOp (Option (Nat × Int32)) :=
    .guard (fun h a ↦ UnlinksUnheld h.points a) (heapRel 0)
  have h1 : Run R (ReplyHeap.init 0 ⟨id, id⟩ fun _ ↦ ⟨0, 0, none, 0⟩)
      ([] ++ [(.insert 7 100 true true, none)]) _ :=
    .snoc .nil ⟨trivial, rfl⟩
  have h2 : Run R _ (_ ++ [(.respLookup 0 7 42 none, none)]) _ := .snoc h1 ⟨trivial, rfl⟩
  exact ⟨_, _, h2, rfl, (reply_memory_refines h2).2⟩

end LedaSdk.Leda
