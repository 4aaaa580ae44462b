import Mathlib.Data.List.Nodup
import LedaSdk.Base.Run
import LedaSdk.Utility.Threadpool

/-!
# Who holds a received message

`cb_ws_recv` creates a `parsed_msg_t` for each frame and hands it to the thread pool
(`sdk/leda.c:818–849`), a worker executes it and releases it (`sdk/leda.c:737–754`), and
`leda_exit` shuts the pool down (`sdk/leda.c:1324–1327`). Messages are numbered in the order of
their creation; the frames parse and `malloc` of the message itself succeeds.
-/

namespace LedaSdk.Leda
open LedaSdk.Base LedaSdk.Utility

/-- The pool behind `g_threadpool`, `none` for a null pointer, and what happened to the
messages. -/
structure CustodyState where
  gThreadpool : Option (ThreadpoolT Nat)
  /-- `leda_exit` waits for the threads of the pool. -/
  joining : Bool
  /-- The memory of the pool is released; the pointer to it stays. -/
  freed : Bool
  created : Nat
  executed : List Nat
  rejected : List Nat
  released : List Nat
  /-- A function of the pool was called after its release. -/
  undefined : Bool

/-- A step of the network thread, of a worker or of `leda_exit`, with the results of the
functions that it calls. -/
inductive CustodyOp where
  | recv (duplicateOk lockOk signalOk unlockOk : Bool)
  | grab (worker : Nat)
  | finish (worker : Nat)
  | exit (lockOk broadcastOk : Bool)
  | joined (joinOk : Bool)

/-- The system after the creation of the pool. -/
def CustodyState.initial (gThreadpool : Option (ThreadpoolT Nat)) : CustodyState :=
  ⟨gThreadpool, false, false, 0, [], [], [], false⟩

/-- One step, with the result of the function of the pool that it calls. -/
def custodyStep (s : CustodyState) : CustodyOp → Option (Option Int32 × CustodyState)
  | .recv duplicateOk lockOk signalOk unlockOk =>
    if ¬ duplicateOk then
      -- The copy of the payload fails, and `cb_ws_recv` releases the message itself.
      some (none, { s with created := s.created + 1, rejected := s.created :: s.rejected,
                           released := s.created :: s.released })
    else if s.freed then some (none, { s with created := s.created + 1, undefined := true })
    else
      -- The result of `threadpool_add` is not looked at.
      let (err, pool) := ThreadpoolT.add lockOk signalOk unlockOk s.created s.gThreadpool
      some (some err, { s with created := s.created + 1, gThreadpool := pool })
  | .grab worker => do
    let pool ← s.gThreadpool
    if s.freed ∨ pool.workers[worker]? ≠ some .waiting then none
    else
      let (next, pool) ← pool.grab
      some (none, { s with gThreadpool := some (pool.setWorker worker next) })
  | .finish worker => do
    let pool ← s.gThreadpool
    match pool.workers[worker]? with
    | some (.running task) =>
      if s.freed then none
      else
        some (none, { s with gThreadpool := some (pool.setWorker worker .waiting),
                             executed := task :: s.executed, released := task :: s.released })
    | _ => none
  | .exit lockOk broadcastOk =>
    match s.gThreadpool with
    | none => some (none, s)
    | some pool =>
      if s.freed then some (none, { s with undefined := true })
      else
        let (err, pool) := pool.destroy true lockOk broadcastOk
        some (some err, { s with gThreadpool := some pool, joining := s.joining || err == 0 })
  | .joined joinOk => do
    let pool ← s.gThreadpool
    if s.joining ∧ ∀ w ∈ pool.workers, w = .ended then
      some (some (if joinOk then 0 else threadpoolThreadFailure),
        { s with joining := false, freed := s.freed || joinOk })
    else none

namespace CustodyState

/-- The messages in the queue of the pool. -/
def queued (s : CustodyState) : List Nat :=
  if s.freed then [] else (s.gThreadpool.map fun pool ↦ pool.queue.toList).getD []

/-- The messages that workers execute. -/
def executing (s : CustodyState) : List Nat :=
  if s.freed then [] else (s.gThreadpool.map ThreadpoolT.executing).getD []

/-- Each message ever created is in exactly one place, and only rejected messages are released
without being executed. -/
structure Conserved (s : CustodyState) : Prop where
  defined : s.undefined = false
  once : ∀ id < s.created, (s.queued ++ s.executing ++ s.released).count id = 1
  released : ∀ id ∈ s.released, id ∈ s.executed ∨ id ∈ s.rejected

/-- A step after which every message is still held: if a message is handed to the pool, the
pool is there, its lock can be taken, its queue is not full and it is not shutting down; a pool
is not destroyed again after its release. -/
def Keeps (s : CustodyState) : CustodyOp → Prop
  | .recv duplicateOk lockOk _ _ => duplicateOk = false ∨
    s.freed = false ∧ lockOk = true ∧ ∃ pool, s.gThreadpool = some pool ∧ pool.Accepts
  | .exit _ _ => s.gThreadpool = none ∨ s.freed = false
  | _ => True

/-- The messages are accounted for, and the pool, unless it is released, is sound. -/
structure Accounted (s : CustodyState) : Prop where
  defined : s.undefined = false
  perm : (s.queued ++ s.executing ++ s.released).Perm (List.range s.created)
  released : ∀ id ∈ s.released, id ∈ s.executed ∨ id ∈ s.rejected
  sound : ∀ pool, s.freed = false → s.gThreadpool = some pool → ∃ q, pool.Sound q

section Places
variable {s t : CustodyState} {pool : ThreadpoolT Nat} {q : List Nat}

theorem queued_of_sound (hfreed : s.freed = false) (hpool : s.gThreadpool = some pool)
    (h : pool.Sound q) : s.queued = q := by
  rw [queued, hfreed, hpool]
  exact h.holds.toList_eq

theorem executing_of_pool (hfreed : s.freed = false) (hpool : s.gThreadpool = some pool) :
    s.executing = pool.executing := by
  rw [executing, hfreed, hpool]
  rfl

/-- A state with a sound pool whose messages are accounted for. -/
theorem Accounted.of_sound (hdefined : t.undefined = false) (hfreed : t.freed = false)
    (hpool : t.gThreadpool = some pool) (hsound : pool.Sound q)
    (hperm : (q ++ pool.executing ++ t.released).Perm (List.range t.created))
    (hreleased : ∀ id ∈ t.released, id ∈ t.executed ∨ id ∈ t.rejected) : Accounted t where
  defined := hdefined
  perm := by
    rw [queued_of_sound hfreed hpool hsound, executing_of_pool hfreed hpool]
    exact hperm
  released := hreleased
  sound pool' _ hpool' := by
    rw [hpool] at hpool'
    cases hpool'
    exact ⟨q, hsound⟩

/-- What is known of the pool while it is not released. -/
theorem Accounted.exists_sound (h : s.Accounted) (hfreed : s.freed = false)
    (hpool : s.gThreadpool = some pool) :
    ∃ q, pool.Sound q ∧ (q ++ pool.executing ++ s.released).Perm (List.range s.created) := by
  obtain ⟨q, hsound⟩ := h.sound pool hfreed hpool
  refine ⟨q, hsound, ?_⟩
  rw [← queued_of_sound hfreed hpool hsound, ← executing_of_pool hfreed hpool]
  exact h.perm

/-- Each number below the bound is once in a permutation of them. -/
theorem Accounted.conserved (h : s.Accounted) : s.Conserved where
  defined := h.defined
  once id hid := by
    rw [h.perm.count_eq]
    exact List.count_eq_one_of_mem List.nodup_range (List.mem_range.mpr hid)
  released := h.released

theorem accounted_initial {memory : Nat → Nat} {threadCount queueSize : Nat} {ok : Bool} :
    (initial (ThreadpoolT.create memory threadCount queueSize ok)).Accounted := by
  cases hpool : ThreadpoolT.create memory threadCount queueSize ok with
  | none => exact ⟨rfl, .refl _, by simp [initial], by simp [initial]⟩
  | some pool =>
    obtain ⟨hsound, hexecuting⟩ := ThreadpoolT.create_sound hpool
    refine .of_sound rfl rfl rfl hsound ?_ (by simp [initial])
    rw [hexecuting]
    rfl

end Places

section Steps
variable {s t : CustodyState} {pool : ThreadpoolT Nat} {b : Option Int32}

/-- One more message, wherever it is put. -/
theorem perm_range_succ {l r : List Nat} {n : Nat} (h : (l ++ r).Perm (List.range n)) :
    (l ++ n :: r).Perm (List.range (n + 1)) := by
  rw [List.range_succ]
  exact (List.perm_middle.trans (h.cons n)).trans (List.perm_append_singleton n _).symm

/-- A message whose copy fails is released by `cb_ws_recv`. -/
theorem Accounted.reject (h : s.Accounted) :
    Accounted { s with created := s.created + 1, rejected := s.created :: s.rejected,
                       released := s.created :: s.released } where
  defined := h.defined
  perm := perm_range_succ h.perm
  released id hid := by
    rcases List.mem_cons.mp hid with rfl | hid
    · exact .inr List.mem_cons_self
    · exact (h.released id hid).imp_right (List.mem_cons_of_mem _)
  sound := h.sound

/-- A message that the pool accepts is queued. -/
theorem Accounted.push (h : s.Accounted) (hfreed : s.freed = false)
    (hpool : s.gThreadpool = some pool) (haccepts : pool.Accepts) :
    Accounted { s with
      created := s.created + 1
      gThreadpool := some { pool with queue := pool.queue.push s.created } } := by
  obtain ⟨q, hsound, hperm⟩ := h.exists_sound hfreed hpool
  refine .of_sound h.defined hfreed rfl (hsound.push haccepts s.created) ?_ h.released
  rw [List.append_assoc] at hperm
  have hnew := perm_range_succ hperm
  simpa [ThreadpoolT.executing] using hnew

/-- A worker takes the first message, or leaves. -/
theorem Accounted.grab {pool' : ThreadpoolT Nat} {w : Worker Nat} {i : Nat} (h : s.Accounted)
    (hfreed : s.freed = false) (hpool : s.gThreadpool = some pool)
    (hi : pool.workers[i]? = some .waiting) (hgrab : pool.grab = some (w, pool')) :
    Accounted { s with gThreadpool := some (pool'.setWorker i w) } := by
  obtain ⟨q, hsound, hperm⟩ := h.exists_sound hfreed hpool
  rcases hsound.grab_cases hgrab with ⟨rfl, rfl, hgraceful, rfl⟩ | ⟨task, rest, rfl, rfl, rfl⟩
  · refine .of_sound h.defined hfreed rfl (hsound.setWorker fun _ ↦ ⟨hgraceful, rfl⟩) ?_ h.released
    have hsame : (pool'.setWorker i .ended).executing.Perm pool'.executing :=
      ThreadpoolT.executing_set_perm hi
    exact ((hsame.append_left []).append_right _).trans hperm
  · refine .of_sound h.defined hfreed rfl (hsound.pop.setWorker (by simp)) ?_ h.released
    have hmore : (ThreadpoolT.setWorker { pool with queue := pool.queue.pop } i
        (.running task)).executing.Perm (task :: pool.executing) :=
      ThreadpoolT.executing_set_perm hi
    refine ((hmore.append_left rest).append_right _).trans (List.Perm.trans ?_ hperm)
    exact List.perm_middle.append_right _

/-- A worker finishes and releases a message. -/
theorem Accounted.finish {task i : Nat} (h : s.Accounted) (hfreed : s.freed = false)
    (hpool : s.gThreadpool = some pool) (hi : pool.workers[i]? = some (.running task)) :
    Accounted { s with gThreadpool := some (pool.setWorker i .waiting),
                       executed := task :: s.executed, released := task :: s.released } := by
  obtain ⟨q, hsound, hperm⟩ := h.exists_sound hfreed hpool
  refine .of_sound h.defined hfreed rfl (hsound.setWorker (by simp)) ?_ ?_
  · have hless : (task :: (pool.setWorker i .waiting).executing).Perm pool.executing :=
      ThreadpoolT.executing_set_perm hi
    refine List.Perm.trans ?_ hperm
    refine List.Perm.trans ?_ ((hless.append_left q).append_right _)
    simp only [List.append_assoc, List.cons_append]
    exact List.perm_middle.append_left q |>.trans (by simp)
  · intro id hid
    rcases List.mem_cons.mp hid with rfl | hid
    · exact .inl List.mem_cons_self
    · exact (h.released id hid).imp_left (List.mem_cons_of_mem _)

/-- `leda_exit` shuts a pool down, if that has not been done. -/
theorem Accounted.exit {pool' : ThreadpoolT Nat} {lockOk broadcastOk joining : Bool} {err : Int32}
    (h : s.Accounted) (hfreed : s.freed = false) (hpool : s.gThreadpool = some pool)
    (hdestroy : pool.destroy true lockOk broadcastOk = (err, pool')) :
    Accounted { s with gThreadpool := some pool', joining := joining } := by
  obtain ⟨q, hsound, hperm⟩ := h.exists_sound hfreed hpool
  rcases ThreadpoolT.destroy_cases hdestroy with ⟨rfl, -⟩ | ⟨-, rfl⟩
  · exact .of_sound h.defined hfreed rfl hsound hperm h.released
  · exact .of_sound h.defined hfreed rfl hsound.shutdown hperm h.released

/-- When every thread has left, nothing is queued or executed. -/
theorem Accounted.idle (h : s.Accounted) (hpool : s.gThreadpool = some pool)
    (hended : ∀ w ∈ pool.workers, w = .ended) : s.queued = [] ∧ s.executing = [] := by
  cases hfreed : s.freed with
  | true => simp [queued, executing, hfreed]
  | false =>
    obtain ⟨q, hsound, -⟩ := h.exists_sound hfreed hpool
    have hmem : .ended ∈ pool.workers := by
      obtain ⟨w, hw⟩ := List.exists_mem_of_ne_nil _ hsound.workers_ne
      rw [← hended w hw]
      exact hw
    obtain ⟨-, rfl⟩ := hsound.drained hmem
    refine ⟨queued_of_sound hfreed hpool hsound, ?_⟩
    rw [executing_of_pool hfreed hpool, ThreadpoolT.executing, List.filterMap_eq_nil_iff]
    intro w hw
    rw [hended w hw]
    rfl

/-- The pool is released after the last thread has left. -/
theorem Accounted.joined {freed : Bool} (h : s.Accounted) (hpool : s.gThreadpool = some pool)
    (hended : ∀ w ∈ pool.workers, w = .ended) :
    Accounted { s with joining := false, freed := s.freed || freed } := by
  obtain ⟨hqueued, hexecuting⟩ := h.idle hpool hended
  cases freed with
  | false =>
    rw [Bool.or_false]
    exact ⟨h.defined, h.perm, h.released, h.sound⟩
  | true =>
    rw [Bool.or_true]
    refine ⟨h.defined, ?_, h.released, by simp⟩
    have hperm := h.perm
    rw [hqueued, hexecuting] at hperm
    exact hperm

/-- What `cb_ws_recv` does after a successful copy while the pool is not released. -/
theorem custodyStep_recv (hfreed : s.freed = false) (lockOk signalOk unlockOk : Bool) :
    custodyStep s (.recv true lockOk signalOk unlockOk) =
      some (some (ThreadpoolT.add lockOk signalOk unlockOk s.created s.gThreadpool).1, { s with
        created := s.created + 1
        gThreadpool :=
          (ThreadpoolT.add lockOk signalOk unlockOk s.created s.gThreadpool).2 }) := by
  rw [custodyStep, if_neg (by simp), if_neg (by simp [hfreed])]

/-- Every step that keeps what it is given leaves the messages accounted for. -/
theorem Accounted.step {a : CustodyOp} (h : s.Accounted) (hkeeps : s.Keeps a)
    (hstep : custodyStep s a = some (b, t)) : t.Accounted := by
  cases a with
  | recv duplicateOk lockOk signalOk unlockOk =>
    cases duplicateOk with
    | false =>
      cases hstep
      exact h.reject
    | true =>
      rcases hkeeps with hdup | ⟨hfreed, rfl, pool, hpool, haccepts⟩
      · cases hdup
      · have hadd : (ThreadpoolT.add true signalOk unlockOk s.created s.gThreadpool).2 =
            some { pool with queue := pool.queue.push s.created } := by
          rw [hpool, ThreadpoolT.add_some, if_pos ⟨rfl, haccepts⟩]
        rw [custodyStep_recv hfreed, hadd] at hstep
        cases hstep
        exact h.push hfreed hpool haccepts
  | grab worker =>
    obtain ⟨pool, hpool, hstep⟩ := Option.bind_eq_some_iff.mp hstep
    split at hstep
    · cases hstep
    · next hwaiting =>
      rw [not_or, not_not, Bool.not_eq_true] at hwaiting
      obtain ⟨⟨w, pool'⟩, hgrab, hstep⟩ := Option.bind_eq_some_iff.mp hstep
      cases hstep
      exact h.grab hwaiting.1 hpool hwaiting.2 hgrab
  | finish worker =>
    obtain ⟨pool, hpool, hstep⟩ := Option.bind_eq_some_iff.mp hstep
    split at hstep
    · next task hrunning =>
      split at hstep
      · cases hstep
      · next hfreed =>
        cases hstep
        exact h.finish (Bool.not_eq_true _ ▸ hfreed) hpool hrunning
    · cases hstep
  | exit lockOk broadcastOk =>
    rw [custodyStep] at hstep
    cases hpool : s.gThreadpool with
    | none =>
      rw [hpool] at hstep
      cases hstep
      exact h
    | some pool =>
      have hfreed : s.freed = false := hkeeps.resolve_left (by simp [hpool])
      rcases hdestroy : pool.destroy true lockOk broadcastOk with ⟨err, pool'⟩
      simp only [hpool] at hstep
      rw [if_neg (by simp [hfreed]), hdestroy] at hstep
      cases hstep
      exact h.exit hfreed hpool hdestroy
  | joined joinOk =>
    obtain ⟨pool, hpool, hstep⟩ := Option.bind_eq_some_iff.mp hstep
    split at hstep
    · next hjoined =>
      cases hstep
      exact h.joined hpool hjoined.2
    · cases hstep

/-- The next message is in no place yet. -/
theorem Accounted.count_created (h : s.Accounted) :
    (s.queued ++ s.executing ++ s.released).count s.created = 0 := by
  rw [h.perm.count_eq, List.count_eq_zero, List.mem_range]
  exact Nat.lt_irrefl _

/-- A message that is not kept is in no place, and a released pool is not used without
undefined behaviour. -/
theorem Accounted.not_conserved {a : CustodyOp} (h : s.Accounted) (hkeeps : ¬ s.Keeps a)
    (hstep : custodyStep s a = some (b, t)) : ¬ t.Conserved := by
  intro hconserved
  cases a with
  | recv duplicateOk lockOk signalOk unlockOk =>
    rw [Keeps, not_or, Bool.not_eq_false] at hkeeps
    obtain ⟨rfl, hrefused⟩ := hkeeps
    cases hfreed : s.freed with
    | true =>
      rw [custodyStep, if_neg (by simp), if_pos hfreed] at hstep
      cases hstep
      cases hconserved.defined
    | false =>
      have hsame : (ThreadpoolT.add lockOk signalOk unlockOk s.created s.gThreadpool).2 =
          s.gThreadpool := by
        cases hpool : s.gThreadpool with
        | none => rfl
        | some pool =>
          have hnot : ¬ (lockOk = true ∧ pool.Accepts) :=
            fun ⟨hlock, haccepts⟩ ↦ hrefused ⟨hfreed, hlock, pool, hpool, haccepts⟩
          rw [ThreadpoolT.add_some, if_neg hnot]
      rw [custodyStep_recv hfreed, hsame] at hstep
      cases hstep
      have honce := hconserved.once s.created (Nat.lt_succ_self _)
      have hzero := h.count_created
      exact absurd (honce.symm.trans hzero) (by decide)
  | exit lockOk broadcastOk =>
    rw [Keeps, not_or, Bool.not_eq_false] at hkeeps
    obtain ⟨pool, hpool⟩ := Option.ne_none_iff_exists'.mp hkeeps.1
    simp only [custodyStep, hpool, hkeeps.2, if_true] at hstep
    cases hstep
    cases hconserved.defined
  | grab worker => exact hkeeps trivial
  | finish worker => exact hkeeps trivial
  | joined joinOk => exact hkeeps trivial

end Steps

section Runs
variable {memory : Nat → Nat} {threadCount queueSize : Nat} {ok : Bool} {s : CustodyState}
  {tr : List (CustodyOp × Option Int32)}

theorem accounted_of_run (h : Run (StepRel.guard Keeps (StepRel.ofFn custodyStep))
    (initial (ThreadpoolT.create memory threadCount queueSize ok)) tr s) : s.Accounted :=
  h.invariant accounted_initial fun _ _ _ _ hs hr ↦ hs.step hr.1 hr.2

/-- Along a run whose steps keep what they are given every message is in exactly one place, and
a step that does not keep it loses it. -/
theorem messages_conserved (h : Run (StepRel.guard Keeps (StepRel.ofFn custodyStep))
    (initial (ThreadpoolT.create memory threadCount queueSize ok)) tr s) :
    s.Conserved ∧
      ∀ a b t, custodyStep s a = some (b, t) → ¬ s.Keeps a → ¬ t.Conserved :=
  ⟨(accounted_of_run h).conserved, fun _ _ _ hstep hkeeps ↦
    (accounted_of_run h).not_conserved hkeeps hstep⟩

/-- One message that is queued, executed and released. -/
theorem messages_conserved_once :
    ∃ tr s, Run (StepRel.guard Keeps (StepRel.ofFn custodyStep))
        (initial (ThreadpoolT.create (fun _ ↦ 0) 1 1 true)) tr s ∧
      s.created = 1 ∧ s.executed = [0] ∧ s.Conserved := by
  have hrecv : Run (StepRel.guard Keeps (StepRel.ofFn custodyStep))
      (initial (ThreadpoolT.create (fun _ ↦ 0) 1 1 true)) [(.recv true true true true, some 0)] _ :=
    .single ⟨.inr ⟨rfl, rfl, _, rfl, by decide⟩, rfl⟩
  have hgrab := Run.snoc (a := CustodyOp.grab 0) hrecv ⟨trivial, rfl⟩
  have hrun := Run.snoc (a := CustodyOp.finish 0) hgrab ⟨trivial, rfl⟩
  exact ⟨_, _, hrun, rfl, rfl, (messages_conserved hrun).1⟩

/-- Frames that arrive while no worker does anything fill the queue. -/
theorem exists_backlog (memory : Nat → Nat) {threadCount queueSize : Nat}
    (hthreads : 0 < threadCount ∧ threadCount ≤ maxThreads)
    (hsize : 0 < queueSize ∧ queueSize ≤ maxQueue) {n : Nat} (hn : n ≤ queueSize) :
    ∃ tr s pool, Run (StepRel.guard Keeps (StepRel.ofFn custodyStep))
        (initial (ThreadpoolT.create memory threadCount queueSize true)) tr s ∧
      tr.map Prod.fst = List.replicate n (.recv true true true true) ∧
      s.freed = false ∧ s.gThreadpool = some pool ∧ pool.shutdown = none ∧
      pool.queue.count = n ∧ pool.queue.size = queueSize := by
  induction n with
  | zero =>
    refine ⟨[], _, ⟨.empty ((List.range queueSize).map memory), none,
      List.replicate threadCount .waiting⟩, .nil, rfl, rfl, ?_, rfl, rfl, by simp⟩
    rw [initial, ThreadpoolT.create, if_neg (by omega), if_pos rfl]
  | succ n ih =>
    obtain ⟨tr, s, pool, hrun, htr, hfreed, hpool, hshutdown, hcount, hsize⟩ :=
      ih (Nat.le_of_succ_le hn)
    have haccepts : pool.Accepts := ⟨by omega, hshutdown⟩
    have hkeeps : s.Keeps (.recv true true true true) :=
      .inr ⟨hfreed, rfl, pool, hpool, haccepts⟩
    have hstep := custodyStep_recv hfreed true true true
    refine ⟨_, _, { pool with queue := pool.queue.push s.created },
      .snoc hrun ⟨hkeeps, hstep⟩, ?_, hfreed, ?_, hshutdown, ?_, ?_⟩
    · rw [List.map_append, htr, List.replicate_succ']
      rfl
    · dsimp only
      rw [hpool, ThreadpoolT.add_some, if_pos ⟨rfl, haccepts⟩]
    · exact congrArg (· + 1) hcount
    · rw [RingQueue.size_push, hsize]

/-- One frame more than the queue has slots loses a message. -/
theorem exists_lost (memory : Nat → Nat) {threadCount queueSize : Nat}
    (hthreads : 0 < threadCount ∧ threadCount ≤ maxThreads)
    (hsize : 0 < queueSize ∧ queueSize ≤ maxQueue) :
    ∃ tr s, Run (StepRel.ofFn custodyStep)
        (initial (ThreadpoolT.create memory threadCount queueSize true)) tr s ∧
      tr.map Prod.fst = List.replicate (queueSize + 1) (.recv true true true true) ∧
      ¬ s.Conserved := by
  obtain ⟨tr, s, pool, hrun, htr, hfreed, hpool, -, hcount, hsize⟩ :=
    exists_backlog memory hthreads hsize (Nat.le_refl _)
  have hfull : ¬ s.Keeps (.recv true true true true) := by
    rintro (h | ⟨-, -, pool', hpool', haccepts⟩)
    · cases h
    · rw [hpool] at hpool'
      cases hpool'
      exact haccepts.1 (hcount.trans hsize.symm)
  have hstep := custodyStep_recv hfreed true true true
  refine ⟨_, _, .snoc (hrun.mono fun _ _ _ _ hr ↦ hr.2) hstep, ?_,
    (accounted_of_run hrun).not_conserved hfull hstep⟩
  rw [List.map_append, htr, List.replicate_succ']
  rfl

/-- The queue of the SDK has 5 * 1024 slots. -/
theorem backlog_lost :
    ∃ tr s, Run (StepRel.ofFn custodyStep)
        (initial (ThreadpoolT.create (fun _ ↦ 0) 5 (5 * 1024) true)) tr s ∧
      tr.map Prod.fst = List.replicate (5 * 1024 + 1) (.recv true true true true) ∧
      ¬ s.Conserved :=
  exists_lost (fun _ ↦ 0) ⟨by decide, by decide⟩ ⟨by decide, by decide⟩

end Runs

end CustodyState

end LedaSdk.Leda
