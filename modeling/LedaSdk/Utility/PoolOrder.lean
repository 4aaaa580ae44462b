import LedaSdk.Utility.PoolAtomicity

/-!
# The order of the tasks

What the threads of the pool do to the tasks, over any run: each accepted task begins once, in
the order of acceptance, and ends in the worker that began it; a pool that shuts down accepts
nothing, and begins nothing if it shuts down at once.
-/

namespace LedaSdk.Utility
open LedaSdk.Base

variable {α : Type}

namespace PoolEvent

/-- A task that the pool accepts. -/
def accepted? : PoolEvent α → Option α
  | .added argument err => if err = 0 then some argument else none
  | _ => none

/-- A task that a worker begins. -/
def took? : PoolEvent α → Option α
  | .took _ task => some task
  | _ => none

/-- A task that a worker ends. -/
def finished? : PoolEvent α → Option α
  | .finished _ task => some task
  | _ => none

/-- The pool is told to shut down in the way `graceful` says. -/
def Shuts (graceful : Bool) (e : PoolEvent α) : Prop := e = .destroyed graceful 0

end PoolEvent

/-- The tasks accepted so far. -/
def accepted (es : List (PoolEvent α)) : List α := es.filterMap PoolEvent.accepted?

/-- The tasks begun so far. -/
def taken (es : List (PoolEvent α)) : List α := es.filterMap PoolEvent.took?

/-- The tasks ended so far. -/
def finished (es : List (PoolEvent α)) : List α := es.filterMap PoolEvent.finished?

namespace ThreadpoolT
variable {p p' : ThreadpoolT α} {q : List α} {w : Worker α} {i : Nat} {task : α} {err : Int32}

/-- What a worker does next, whether or not the pool shuts down at once. -/
theorem grab_cases (h : p.queue.Holds q) (hgrab : p.grab = some (w, p')) :
    (w = .ended ∧ p' = p ∧
        (p.shutdown = some .immediate ∨ p.shutdown = some .graceful ∧ q = [])) ∨
      ∃ task rest, q = task :: rest ∧ w = .running task ∧ p.shutdown ≠ some .immediate ∧
        p' = { p with queue := p.queue.pop } := by
  have hempty : p.queue.count = 0 ↔ q = [] := by rw [h.count_eq, List.length_eq_zero_iff]
  rw [grab] at hgrab
  split at hgrab
  · cases hgrab
  · next hbusy =>
    split at hgrab
    · next hshut =>
      cases hgrab
      rw [hempty] at hshut
      exact .inl ⟨rfl, rfl, hshut⟩
    · next hstay =>
      rw [hempty] at hbusy hstay
      cases q with
      | nil =>
        exfalso
        cases hs : p.shutdown with
        | none => exact hbusy ⟨rfl, hs⟩
        | some kind =>
          cases kind with
          | immediate => exact hstay (.inl hs)
          | graceful => exact hstay (.inr ⟨hs, rfl⟩)
      | cons task rest =>
        rw [h.front?_eq] at hgrab
        cases hgrab
        exact .inr ⟨task, rest, rfl, rfl, fun hs ↦ hstay (.inl hs), rfl⟩

/-- What `threadpool_add` does if the lock can be taken. -/
theorem addLocked_cases (h : p.addLocked true true true task = (err, p')) :
    (err = 0 ∧ p.Accepts ∧ p' = { p with queue := p.queue.push task }) ∨ (err ≠ 0 ∧ p' = p) := by
  by_cases hfull : p.queue.count = p.queue.size
  · have heq : p.addLocked true true true task = (threadpoolQueueFull, p) := by
      simp [addLocked, hfull]
    cases heq.symm.trans h
    exact .inr ⟨by decide, rfl⟩
  · by_cases hs : p.shutdown.isSome = true
    · have heq : p.addLocked true true true task = (threadpoolShutdown, p) := by
        simp [addLocked, hfull, hs]
      cases heq.symm.trans h
      exact .inr ⟨by decide, rfl⟩
    · have heq : p.addLocked true true true task =
          (0, { p with queue := p.queue.push task }) := by
        simp [addLocked, hfull, hs]
      cases heq.symm.trans h
      exact .inl ⟨rfl, ⟨hfull, Option.not_isSome_iff_eq_none.mp hs⟩, rfl⟩

end ThreadpoolT

@[simp] theorem accepted_concat (es : List (PoolEvent α)) (e : PoolEvent α) :
    accepted (es ++ [e]) = accepted es ++ e.accepted?.toList := by
  rw [accepted, List.filterMap_append]
  cases h : e.accepted? <;> simp [accepted, h]

@[simp] theorem taken_concat (es : List (PoolEvent α)) (e : PoolEvent α) :
    taken (es ++ [e]) = taken es ++ e.took?.toList := by
  rw [taken, List.filterMap_append]
  cases h : e.took? <;> simp [taken, h]

@[simp] theorem finished_concat (es : List (PoolEvent α)) (e : PoolEvent α) :
    finished (es ++ [e]) = finished es ++ e.finished?.toList := by
  rw [finished, List.filterMap_append]
  cases h : e.finished? <;> simp [finished, h]

/-- The tasks of a pool with the queue `q` after the events `es`. -/
structure Ledger (es : List (PoolEvent α)) (p : ThreadpoolT α) (q : List α) : Prop where
  holds : p.queue.Holds q
  order : accepted es = taken es ++ q
  executing : (taken es).Perm (finished es ++ p.executing)
  ended : .ended ∈ p.workers →
    p.shutdown = some .immediate ∨ p.shutdown = some .graceful ∧ q = []
  shutdown : ∀ graceful, (∃ e ∈ es, PoolEvent.Shuts graceful e) ↔
    p.shutdown = some (if graceful then .graceful else .immediate)
  /-- Nothing is accepted after a shutdown, and nothing is begun after an immediate one. -/
  closed : EachAfter (fun before (e : PoolEvent α) ↦
    (e.accepted?.isSome → ∀ e' ∈ before, ∀ graceful, ¬ PoolEvent.Shuts graceful e') ∧
      (e.took?.isSome → ∀ e' ∈ before, ¬ PoolEvent.Shuts false e')) es

namespace Ledger
variable {es : List (PoolEvent α)} {p p' : ThreadpoolT α} {q q' : List α} {e : PoolEvent α}

theorem initial {cells : List α} (h : cells ≠ []) :
    Ledger [] (⟨.empty cells, none, []⟩ : ThreadpoolT α) [] where
  holds := RingQueue.holds_empty h
  order := rfl
  executing := List.Perm.refl _
  ended hm := absurd hm List.not_mem_nil
  shutdown graceful := by simp
  closed := .nil

/-- A pool that is not shutting down was not told to. -/
theorem not_shut (h : Ledger es p q) (hnone : p.shutdown = none) :
    ∀ e ∈ es, ∀ graceful, ¬ PoolEvent.Shuts graceful e := by
  intro e he graceful hshut
  have hsome := (h.shutdown graceful).mp ⟨e, he, hshut⟩
  rw [hnone] at hsome
  cases hsome

/-- A pool that does not shut down at once was not told to. -/
theorem not_immediate (h : Ledger es p q) (hne : p.shutdown ≠ some .immediate) :
    ∀ e ∈ es, ¬ PoolEvent.Shuts false e := fun e he hshut ↦
  hne ((h.shutdown false).mp ⟨e, he, hshut⟩)

/-- One more event: the task that it accepts goes to the end of the queue, and the one that it
begins is the first of the queue. -/
theorem extend (h : Ledger es p q) (hholds : p'.queue.Holds q')
    (horder : q ++ e.accepted?.toList = e.took?.toList ++ q')
    (hexecuting : (e.took?.toList ++ p.executing).Perm (e.finished?.toList ++ p'.executing))
    (hended : .ended ∈ p'.workers →
      p'.shutdown = some .immediate ∨ p'.shutdown = some .graceful ∧ q' = [])
    (hshut : ∀ graceful, p'.shutdown = some (if graceful then .graceful else .immediate) ↔
      p.shutdown = some (if graceful then .graceful else .immediate) ∨
        PoolEvent.Shuts graceful e)
    (hopen : e.accepted?.isSome → p.shutdown = none)
    (hgoing : e.took?.isSome → p.shutdown ≠ some .immediate) : Ledger (es ++ [e]) p' q' where
  holds := hholds
  order := by
    rw [accepted_concat, taken_concat, h.order, List.append_assoc, horder, List.append_assoc]
  executing := by
    rw [taken_concat, finished_concat, List.append_assoc]
    refine (h.executing.append_right _).trans ?_
    rw [List.append_assoc]
    exact (List.perm_append_comm.trans hexecuting).append_left _
  ended := hended
  shutdown graceful := by
    rw [hshut, ← h.shutdown graceful]
    simp only [List.mem_append, List.mem_singleton, or_and_right, exists_or, exists_eq_left]
  closed := EachAfter.concat_iff.mpr
    ⟨h.closed, fun ha ↦ h.not_shut (hopen ha), fun ht ↦ h.not_immediate (hgoing ht)⟩

section Events
variable {i : Nat} {task : α} {err : Int32} {graceful : Bool}

/-- An event that is no shutdown leaves the pool as it is in this respect. -/
private theorem shut_iff (hnot : ∀ graceful, ¬ PoolEvent.Shuts graceful e) (graceful : Bool) :
    p.shutdown = some (if graceful then .graceful else .immediate) ↔
      p.shutdown = some (if graceful then .graceful else .immediate) ∨
        PoolEvent.Shuts graceful e :=
  ⟨.inl, fun h ↦ h.resolve_right (hnot graceful)⟩

theorem spawned (h : Ledger es p q) :
    Ledger (es ++ [.spawned]) { p with workers := p.workers ++ [.waiting] } q := by
  refine h.extend h.holds (List.append_nil q) ?_ ?_ (shut_iff (by simp [PoolEvent.Shuts])) nofun
    nofun
  · have hsame : ThreadpoolT.executing { p with workers := p.workers ++ [.waiting] } =
        p.executing := by
      simp [ThreadpoolT.executing, Worker.task?]
    rw [hsame]
    exact List.Perm.refl _
  · intro hm
    apply h.ended
    simpa using hm

theorem accept (h : Ledger es p q) (haccepts : p.Accepts) :
    Ledger (es ++ [.added task 0]) { p with queue := p.queue.push task } (q ++ [task]) := by
  refine h.extend ?_ rfl (List.Perm.refl _) ?_ (shut_iff (by simp [PoolEvent.Shuts]))
    (fun _ ↦ haccepts.2) nofun
  · apply h.holds.push
    have hne := haccepts.1
    have hle := h.holds.length_le
    rw [h.holds.count_eq] at hne
    omega
  · intro hm
    rcases h.ended hm with hs | ⟨hs, -⟩ <;> cases haccepts.2.symm.trans hs

theorem refuse (h : Ledger es p q) (herr : err ≠ 0) : Ledger (es ++ [.added task err]) p q := by
  have hnone : (PoolEvent.added task err).accepted? = none := if_neg herr
  refine h.extend h.holds ?_ (List.Perm.refl _) h.ended (shut_iff (by simp [PoolEvent.Shuts])) ?_
    nofun
  · rw [hnone]
    exact List.append_nil q
  · rw [hnone]
    exact nofun

theorem shut (h : Ledger es p q) (hnone : p.shutdown = none) :
    Ledger (es ++ [.destroyed graceful 0])
      { p with shutdown := some (if graceful then .graceful else .immediate) } q := by
  refine h.extend h.holds (List.append_nil q) (List.Perm.refl _) ?_ ?_ nofun nofun
  · intro hm
    rcases h.ended hm with hs | ⟨hs, -⟩ <;> cases hnone.symm.trans hs
  · intro g
    rw [hnone]
    cases g <;> cases graceful <;> simp [PoolEvent.Shuts]

theorem alreadyShut (h : Ledger es p q) (herr : err ≠ 0) :
    Ledger (es ++ [.destroyed graceful err]) p q :=
  h.extend h.holds (List.append_nil q) (List.Perm.refl _) h.ended
    (shut_iff (by simp [PoolEvent.Shuts, herr])) nofun nofun

theorem took (h : Ledger es p (task :: q)) (hi : p.workers[i]? = some .waiting)
    (hgoing : p.shutdown ≠ some .immediate) :
    Ledger (es ++ [.took i task])
      (ThreadpoolT.setWorker { p with queue := p.queue.pop } i (.running task)) q := by
  refine h.extend h.holds.pop (List.append_nil _) ?_ ?_ (shut_iff (by simp [PoolEvent.Shuts]))
    nofun (fun _ ↦ hgoing)
  · exact (ThreadpoolT.executing_set_perm (w := .running task) hi).symm
  · intro hm
    rcases List.mem_or_eq_of_mem_set hm with hold | hnew
    · rcases h.ended hold with hs | ⟨-, hnil⟩
      · exact .inl hs
      · cases hnil
    · cases hnew

theorem finish (h : Ledger es p q) (hi : p.workers[i]? = some (.running task)) :
    Ledger (es ++ [.finished i task]) (p.setWorker i .waiting) q := by
  refine h.extend h.holds (List.append_nil q) ?_ ?_ (shut_iff (by simp [PoolEvent.Shuts])) nofun
    nofun
  · exact (ThreadpoolT.executing_set_perm (w := .waiting) hi).symm
  · intro hm
    rcases List.mem_or_eq_of_mem_set hm with hold | hnew
    · exact h.ended hold
    · cases hnew

theorem leave (h : Ledger es p q) (hi : p.workers[i]? = some .waiting)
    (hshut : p.shutdown = some .immediate ∨ p.shutdown = some .graceful ∧ q = []) :
    Ledger (es ++ [.left i]) (p.setWorker i .ended) q := by
  refine h.extend h.holds (List.append_nil q) ?_ (fun _ ↦ hshut)
    (shut_iff (by simp [PoolEvent.Shuts])) nofun nofun
  exact (ThreadpoolT.executing_set_perm (w := .ended) hi).symm

end Events

/-- What each event of the pool does to its tasks. -/
theorem step (h : Ledger es p q) (hstep : atomicRel p e () p') :
    ∃ q', Ledger (es ++ [e]) p' q' := by
  cases e with
  | spawned =>
    obtain rfl := hstep
    exact ⟨q, h.spawned⟩
  | added argument err =>
    rcases ThreadpoolT.addLocked_cases hstep with ⟨rfl, haccepts, rfl⟩ | ⟨herr, rfl⟩
    · exact ⟨_, h.accept haccepts⟩
    · exact ⟨q, h.refuse herr⟩
  | destroyed graceful err =>
    change p.destroy graceful true true = (err, p') at hstep
    simp only [ThreadpoolT.destroy, not_true, if_false, if_true] at hstep
    split at hstep
    · cases hstep
      exact ⟨q, h.alreadyShut (by decide)⟩
    · next hnone =>
      cases hstep
      exact ⟨q, h.shut (Option.not_isSome_iff_eq_none.mp hnone)⟩
  | took i task =>
    obtain ⟨hi, rest, hgrab, rfl⟩ := hstep
    rcases ThreadpoolT.grab_cases h.holds hgrab with ⟨hw, -, -⟩ | ⟨_, q', rfl, hw, hne, rfl⟩
    · cases hw
    · cases hw
      exact ⟨q', h.took hi hne⟩
  | finished i task =>
    obtain ⟨hi, rfl⟩ := hstep
    exact ⟨q, h.finish hi⟩
  | left i =>
    obtain ⟨hi, rest, hgrab, rfl⟩ := hstep
    rcases ThreadpoolT.grab_cases h.holds hgrab with ⟨-, rfl, hshut⟩ | ⟨_, q', -, hw, -, -⟩
    · exact ⟨q, h.leave hi hshut⟩
    · cases hw

/-- The books are right after every run of the pool. -/
theorem of_eventRun {cells : List α} (hcells : cells ≠ []) {p : ThreadpoolT α}
    (h : EventRun atomicRel ⟨.empty cells, none, []⟩ es p) : ∃ q, Ledger es p q :=
  h.history_invariant (I := fun es p ↦ ∃ q, Ledger es p q) ⟨[], initial hcells⟩
    fun _ _ _ _ ⟨_, hledger⟩ hstep ↦ hledger.step hstep

end Ledger

/-- A run of the threads of a pool that was created. -/
abbrev PoolRun (s : PoolThreads α) (tr : List (PoolAct α × Option (PoolEvent α)))
    (t : PoolThreads α) : Prop := Run (StepRel.ofFn poolStep) s tr t

namespace PoolThreads
variable {memory : Nat → α} {threadCount queueSize : Nat} {ok : Bool} {s₀ s : PoolThreads α}
  {tr : List (PoolAct α × Option (PoolEvent α))}

/-- Mutual exclusion and the refinement, from the beginning of any run. -/
theorem refines (h₀ : create memory threadCount queueSize ok = some s₀) (h : PoolRun s₀ tr s) :
    s.Coordinated ∧ EventRun atomicRel s₀.atomic (visible tr) s.atomic := by
  obtain ⟨-, cells, -, rfl⟩ := create_cases h₀
  exact Run.refine (I := Coordinated) (coordinated_initial cells threadCount)
    (fun _ _ _ _ hi hstep ↦ hi.step hstep) h

/-- The books of any run. -/
theorem ledger (h₀ : create memory threadCount queueSize ok = some s₀) (h : PoolRun s₀ tr s) :
    ∃ q, Ledger (visible tr) s.atomic q := by
  have hrun := (refines h₀ h).2
  obtain ⟨-, cells, hcells, rfl⟩ := create_cases h₀
  exact Ledger.of_eventRun hcells hrun

/-- The statements of the threads, however they interleave, do to the pool what its functions
do to it one at a time, and at most one thread is at a statement under the lock. -/
theorem threads_refine_pool (h₀ : create memory threadCount queueSize ok = some s₀)
    (h : PoolRun s₀ tr s) :
    EventRun atomicRel ⟨.empty ((List.range queueSize).map memory), none, []⟩ (visible tr)
        s.atomic ∧
      ∀ t u, s.inside t = true → s.inside u = true → t = u := by
  obtain ⟨hco, hrun⟩ := refines h₀ h
  refine ⟨?_, fun t u ht hu ↦ hco.locked.unique ht hu⟩
  rw [create] at h₀
  split at h₀
  · cases h₀
  · split at h₀
    · cases h₀
      exact hrun
    · cases h₀

/-- The tasks begin in the order in which they were accepted, each accepted task once or not
yet, and those that began have ended or are being run. After a shutdown nothing is accepted,
and after an immediate one nothing begins. -/
theorem tasks_in_order (h₀ : create memory threadCount queueSize ok = some s₀)
    (h : PoolRun s₀ tr s) :
    (∃ q, s.settled.Holds q ∧ accepted (visible tr) = taken (visible tr) ++ q) ∧
      (taken (visible tr)).Perm (finished (visible tr) ++ s.atomic.executing) ∧
      EachAfter (fun before (e : PoolEvent α) ↦
        (e.accepted?.isSome → ∀ e' ∈ before, ∀ graceful, ¬ PoolEvent.Shuts graceful e') ∧
          (e.took?.isSome → ∀ e' ∈ before, ¬ PoolEvent.Shuts false e')) (visible tr) := by
  obtain ⟨q, hledger⟩ := ledger h₀ h
  exact ⟨⟨q, hledger.holds, hledger.order⟩, hledger.executing, hledger.closed⟩

/-- One worker that is started, finds no task and sleeps, is woken by a task and ends it. -/
def oneTask : List (PoolAct Nat) :=
  List.replicate 4 (.caller 0 true 0) ++ List.replicate 2 (.worker 0) ++
    .add 7 :: List.replicate 7 (.caller 1 true 0) ++ List.replicate 6 (.worker 0)

/-- The pool of one worker and one cell. -/
theorem create_one : create (fun _ ↦ 0) 1 1 true = some (initial [0] 1) := rfl

theorem threads_refine_pool_one :
    ∃ tr s, exec poolStep (initial [0] 1) oneTask = some (tr, s) ∧
      EventRun atomicRel ⟨.empty [0], none, []⟩ (visible tr) s.atomic ∧
        ∀ t u, s.inside t = true → s.inside u = true → t = u := by
  have hexec : exec poolStep (initial [0] 1) oneTask = some (_, _) := rfl
  exact ⟨_, _, hexec, threads_refine_pool create_one (Run.of_exec poolStep hexec)⟩

/-- Two tasks, of which one worker has ended the first and begun the second. -/
def twoTasks : List (PoolAct Nat) :=
  List.replicate 4 (.caller 0 true 0) ++ List.replicate 2 (.worker 0) ++
    .add 7 :: List.replicate 7 (.caller 1 true 0) ++
      .add 8 :: List.replicate 7 (.caller 2 true 0) ++ List.replicate 8 (.worker 0)

theorem tasks_in_order_two :
    ∃ tr s, exec poolStep (initial [0, 0] 1) twoTasks = some (tr, s) ∧
      accepted (visible tr) = [7, 8] ∧ taken (visible tr) = [7, 8] ∧ finished (visible tr) = [7] ∧
      (∃ q, s.settled.Holds q ∧ accepted (visible tr) = taken (visible tr) ++ q) ∧
      (taken (visible tr)).Perm (finished (visible tr) ++ s.atomic.executing) ∧
      EachAfter (fun before (e : PoolEvent Nat) ↦
        (e.accepted?.isSome → ∀ e' ∈ before, ∀ graceful, ¬ PoolEvent.Shuts graceful e') ∧
          (e.took?.isSome → ∀ e' ∈ before, ¬ PoolEvent.Shuts false e')) (visible tr) := by
  have hcreate : create (fun _ ↦ 0) 1 2 true = some (initial [0, 0] 1) := rfl
  have hexec : exec poolStep (initial [0, 0] 1) twoTasks = some (_, _) := rfl
  exact ⟨_, _, hexec, rfl, rfl, rfl, tasks_in_order hcreate (Run.of_exec poolStep hexec)⟩

end PoolThreads

end LedaSdk.Utility
