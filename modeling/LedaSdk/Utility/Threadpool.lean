import Mathlib.Data.List.Perm.Basic
import LedaSdk.Base.RingQueue
import LedaSdk.ErrorCode

/-!
# The thread pool

`sdk/utility/threadpool/threadpool.c` and `threadpool.h`. Every function of the pool holds its
lock, so each is one step. All tasks of the SDK have the same function, and a task is its
argument.
-/

namespace LedaSdk.Utility
open LedaSdk.Base

/-- `threadpool_invalid`. -/
def threadpoolInvalid : Int32 := -1

/-- `threadpool_lock_failure`. -/
def threadpoolLockFailure : Int32 := -2

/-- `threadpool_queue_full`. -/
def threadpoolQueueFull : Int32 := -3

/-- `threadpool_shutdown`. -/
def threadpoolShutdown : Int32 := -4

/-- `threadpool_thread_failure`. -/
def threadpoolThreadFailure : Int32 := -5

/-- `MAX_THREADS`. -/
def maxThreads : Nat := 64

/-- `MAX_QUEUE`. -/
def maxQueue : Nat := 65536

/-- `threadpool_shutdown_t`, `threadpool.c:39–42`. -/
inductive ThreadpoolShutdownT where
  | immediate
  | graceful
  deriving DecidableEq

/-- What a worker thread does: it waits for a task or is about to look for one, runs a task,
or has left its loop. -/
inductive Worker (α : Type) where
  | waiting
  | running (task : α)
  | ended
  deriving DecidableEq

/-- The task that a worker runs. -/
def Worker.task? {α : Type} : Worker α → Option α
  | .running task => some task
  | _ => none

/-- `threadpool_t`, `threadpool.c:76–88`, with its threads. -/
structure ThreadpoolT (α : Type) where
  queue : RingQueue α
  shutdown : Option ThreadpoolShutdownT
  workers : List (Worker α)

namespace ThreadpoolT
variable {α : Type}

/-- `threadpool_create`, `threadpool.c:99–147`, where `ok` says that the pool and its threads
can be created; the memory of the queue is not written. -/
def create (memory : Nat → α) (threadCount queueSize : Nat) (ok : Bool) :
    Option (ThreadpoolT α) :=
  if threadCount = 0 ∨ maxThreads < threadCount ∨ queueSize = 0 ∨ maxQueue < queueSize then none
  else if ok then
    some ⟨.empty ((List.range queueSize).map memory), none, List.replicate threadCount .waiting⟩
  else none

/-- `threadpool_add` of a pool that is not null, `threadpool.c:160–196`, with the results of
`pthread_mutex_lock`, `pthread_cond_signal` and `pthread_mutex_unlock`. -/
def addLocked (lockOk signalOk unlockOk : Bool) (argument : α) (pool : ThreadpoolT α) :
    Int32 × ThreadpoolT α :=
  if ¬ lockOk then (threadpoolLockFailure, pool)
  else
    let (err, pool) :=
      if pool.queue.count = pool.queue.size then (threadpoolQueueFull, pool)
      else if pool.shutdown.isSome then (threadpoolShutdown, pool)
      else (if signalOk then 0 else threadpoolLockFailure,
        { pool with queue := pool.queue.push argument })
    (if unlockOk then err else threadpoolLockFailure, pool)

/-- `threadpool_add`, `threadpool.c:149–197`. -/
def add (lockOk signalOk unlockOk : Bool) (argument : α) :
    Option (ThreadpoolT α) → Int32 × Option (ThreadpoolT α)
  | none => (threadpoolInvalid, none)
  | some pool =>
    let (err, pool) := addLocked lockOk signalOk unlockOk argument pool
    (err, some pool)

/-- `threadpool_destroy` up to the calls of `pthread_join`, `threadpool.c:199–229`, which
follow if the result is 0. -/
def destroy (graceful lockOk broadcastOk : Bool) (pool : ThreadpoolT α) :
    Int32 × ThreadpoolT α :=
  if ¬ lockOk then (threadpoolLockFailure, pool)
  else if pool.shutdown.isSome then (threadpoolShutdown, pool)
  else (if broadcastOk then 0 else threadpoolLockFailure,
    { pool with shutdown := some (if graceful then .graceful else .immediate) })

/-- One round of `threadpool_thread` up to the call of the task, `threadpool.c:274–302`: what
the thread does next, `none` as long as it waits. -/
def grab (pool : ThreadpoolT α) : Option (Worker α × ThreadpoolT α) :=
  if pool.queue.count = 0 ∧ pool.shutdown = none then none
  else if pool.shutdown = some .immediate ∨
      pool.shutdown = some .graceful ∧ pool.queue.count = 0 then some (.ended, pool)
  else pool.queue.front?.map fun task ↦ (.running task, { pool with queue := pool.queue.pop })

/-- A worker goes on to do something else. -/
def setWorker (pool : ThreadpoolT α) (i : Nat) (w : Worker α) : ThreadpoolT α :=
  { pool with workers := pool.workers.set i w }

/-- `threadpool_add` queues a task. -/
def Accepts (pool : ThreadpoolT α) : Prop :=
  pool.queue.count ≠ pool.queue.size ∧ pool.shutdown = none

instance (pool : ThreadpoolT α) : Decidable pool.Accepts := inferInstanceAs (Decidable (_ ∧ _))

/-- The tasks that the workers run. -/
def executing (pool : ThreadpoolT α) : List α := pool.workers.filterMap Worker.task?

/-- A pool that shuts down gracefully or not at all: the queue is a ring queue, there are
threads, and they leave only after the last task. -/
structure Sound (pool : ThreadpoolT α) (q : List α) : Prop where
  holds : pool.queue.Holds q
  workers_ne : pool.workers ≠ []
  graceful : pool.shutdown ≠ some .immediate
  drained : .ended ∈ pool.workers → pool.shutdown = some .graceful ∧ q = []

/-- `threadpool_add` queues a task exactly if it gets the lock and the pool accepts it. -/
theorem add_some (lockOk signalOk unlockOk : Bool) (argument : α) (pool : ThreadpoolT α) :
    (add lockOk signalOk unlockOk argument (some pool)).2 =
      some (if lockOk = true ∧ pool.Accepts then
        { pool with queue := pool.queue.push argument } else pool) := by
  cases lockOk with
  | false => rfl
  | true =>
    by_cases hfull : pool.queue.count = pool.queue.size
    · simp [add, addLocked, Accepts, hfull]
    · cases hshutdown : pool.shutdown with
      | none => simp [add, addLocked, Accepts, hfull, hshutdown]
      | some kind => simp [add, addLocked, Accepts, hfull, hshutdown]

/-- What `threadpool_destroy` does to a pool. -/
theorem destroy_cases {graceful lockOk broadcastOk : Bool} {pool pool' : ThreadpoolT α}
    {err : Int32} (h : pool.destroy graceful lockOk broadcastOk = (err, pool')) :
    (pool' = pool ∧ err ≠ 0) ∨
      (pool.shutdown = none ∧
        pool' = { pool with shutdown := some (if graceful then .graceful else .immediate) }) := by
  rw [destroy] at h
  split at h
  · cases h
    exact .inl ⟨rfl, by decide⟩
  · split at h
    · cases h
      exact .inl ⟨rfl, by decide⟩
    · next hnone =>
      cases h
      exact .inr ⟨Option.not_isSome_iff_eq_none.mp hnone, rfl⟩

namespace Sound
variable {pool pool' : ThreadpoolT α} {q : List α} {w : Worker α} {i : Nat}

/-- What a worker does next in a sound pool. -/
theorem grab_cases (h : pool.Sound q) (hgrab : pool.grab = some (w, pool')) :
    (w = .ended ∧ pool' = pool ∧ pool.shutdown = some .graceful ∧ q = []) ∨
      ∃ task rest, q = task :: rest ∧ w = .running task ∧
        pool' = { pool with queue := pool.queue.pop } := by
  have hempty : pool.queue.count = 0 ↔ q = [] := by
    rw [h.holds.count_eq, List.length_eq_zero_iff]
  rw [grab] at hgrab
  split at hgrab
  · cases hgrab
  · next hwait =>
    split at hgrab
    · next hend =>
      cases hgrab
      rcases hend with hend | ⟨hgraceful, hcount⟩
      · exact absurd hend h.graceful
      · exact .inl ⟨rfl, rfl, hgraceful, hempty.mp hcount⟩
    · next hend =>
      cases q with
      | nil =>
        -- An empty queue without a shutdown keeps the thread waiting.
        exfalso
        cases hshutdown : pool.shutdown with
        | none => exact hwait ⟨hempty.mpr rfl, hshutdown⟩
        | some kind =>
          cases kind with
          | immediate => exact h.graceful hshutdown
          | graceful => exact hend (.inr ⟨hshutdown, hempty.mpr rfl⟩)
      | cons task rest =>
        rw [h.holds.front?_eq] at hgrab
        cases hgrab
        exact .inr ⟨task, rest, rfl, rfl, rfl⟩

/-- A task is queued only while no thread has left. -/
theorem push (h : pool.Sound q) (haccepts : pool.Accepts) (task : α) :
    Sound { pool with queue := pool.queue.push task } (q ++ [task]) where
  holds := by
    apply h.holds.push
    have hne := haccepts.1
    have hle := h.holds.length_le
    rw [h.holds.count_eq] at hne
    omega
  workers_ne := h.workers_ne
  graceful := h.graceful
  drained hended := by
    have hnone := (h.drained hended).1
    rw [haccepts.2] at hnone
    cases hnone

/-- A worker that takes the first task or goes on waiting. -/
theorem setWorker (h : pool.Sound q) (hw : w = .ended → pool.shutdown = some .graceful ∧ q = []) :
    (pool.setWorker i w).Sound q where
  holds := h.holds
  workers_ne := by
    have hne := h.workers_ne
    simpa [ThreadpoolT.setWorker] using hne
  graceful := h.graceful
  drained hended := by
    rcases List.mem_or_eq_of_mem_set hended with hold | hnew
    · exact h.drained hold
    · exact hw hnew.symm

theorem pop {task : α} (h : pool.Sound (task :: q)) :
    Sound { pool with queue := pool.queue.pop } q where
  holds := h.holds.pop
  workers_ne := h.workers_ne
  graceful := h.graceful
  drained hended := by
    cases (h.drained hended).2

/-- A shutdown that waits for the tasks. -/
theorem shutdown (h : pool.Sound q) :
    Sound { pool with shutdown := some .graceful } q where
  holds := h.holds
  workers_ne := h.workers_ne
  graceful hs := by cases hs
  drained hended := ⟨rfl, (h.drained hended).2⟩

end Sound

/-- A new pool is sound and has nothing to do. -/
theorem create_sound {memory : Nat → α} {threadCount queueSize : Nat} {ok : Bool}
    {pool : ThreadpoolT α} (h : create memory threadCount queueSize ok = some pool) :
    pool.Sound [] ∧ pool.executing = [] := by
  rw [create] at h
  split at h
  · cases h
  · next hsizes =>
    split at h
    · cases h
      have hcells : (List.range queueSize).map memory ≠ [] := by
        simp only [ne_eq, List.map_eq_nil_iff, List.range_eq_nil]
        omega
      have hnone : .ended ∉ List.replicate threadCount (Worker.waiting (α := α)) := by
        intro hm
        cases List.eq_of_mem_replicate hm
      have hthreads : List.replicate threadCount (Worker.waiting (α := α)) ≠ [] := by
        simp only [ne_eq, List.replicate_eq_nil_iff]
        omega
      refine ⟨⟨RingQueue.holds_empty hcells, hthreads, by simp, fun hm ↦ absurd hm hnone⟩, ?_⟩
      simp [executing, Worker.task?]
    · cases h

section Workers
variable {pool : ThreadpoolT α} {w old : Worker α} {i : Nat}

/-- Replacing what one worker does replaces its task. -/
theorem executing_set_perm (hi : pool.workers[i]? = some old) :
    (old.task?.toList ++ (pool.setWorker i w).executing).Perm
      (w.task?.toList ++ pool.executing) := by
  obtain ⟨hlt, hold⟩ := List.getElem?_eq_some_iff.mp hi
  have hset : (pool.workers.set i w).Perm (w :: pool.workers.eraseIdx i) :=
    List.set_perm_cons_eraseIdx hlt w
  have hget : pool.workers.Perm (old :: pool.workers.eraseIdx i) := by
    rw [← hold]
    exact (List.getElem_cons_eraseIdx_perm hlt).symm
  have hcons : ∀ (v : Worker α) (l : List (Worker α)),
      (v :: l).filterMap Worker.task? = v.task?.toList ++ l.filterMap Worker.task? := by
    intro v l
    cases v <;> rfl
  have hset' := hset.filterMap Worker.task?
  have hget' := hget.filterMap Worker.task?
  rw [hcons] at hset' hget'
  refine (hset'.append_left old.task?.toList).trans ?_
  refine List.Perm.trans ?_ (hget'.symm.append_left w.task?.toList)
  rw [← List.append_assoc, ← List.append_assoc]
  exact List.perm_append_comm.append_right _

end Workers

end ThreadpoolT
end LedaSdk.Utility
