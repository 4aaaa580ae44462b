import LedaSdk.Base.Monitor
import LedaSdk.Base.Refinement
import LedaSdk.Utility.Threadpool

/-!
# The threads of the pool

`sdk/utility/threadpool/threadpool.c:99–310`, statement by statement: worker threads that
sleep on the condition variable, calls of `threadpool_add` and `threadpool_destroy` by other
threads at the same time, and `threadpool_create`, which starts the workers one by one. Taking
the lock succeeds; creating, signalling, broadcasting and joining may fail. The writes under
the lock are separate steps, and still every run is one of the pool of
`LedaSdk.Utility.Threadpool`, whose functions are single steps.
-/

namespace LedaSdk.Utility
open LedaSdk.Base

/-- A thread that uses the pool: a worker, or the thread of a call. -/
inductive PoolThread where
  | worker (i : Nat)
  | caller (k : Nat)
  deriving DecidableEq

/-- `struct threadpool_t`, `threadpool.c:76–88`. -/
structure PoolMemory (α : Type) where
  /-- `queue`, `queue_size`, `head`, `tail` and `count`. -/
  queue : RingQueue α
  shutdown : Option ThreadpoolShutdownT
  threadCount : Nat
  started : Int
  lock : Option PoolThread
  /-- `threadpool_free` has released the pool. -/
  freed : Bool

/-- The next statement of a worker, `threadpool_thread`, `threadpool.c:276–308`. -/
inductive WorkerPoint (α : Type) where
  /-- Line 278. -/
  | locking
  /-- Lines 282–294. -/
  | testing
  /-- Line 283, until a signal or a spurious wakeup. -/
  | sleeping
  /-- Line 283, after it: the lock is taken again. -/
  | woken
  /-- Line 295. -/
  | advancing (task : α)
  /-- Line 296. -/
  | counting (task : α)
  /-- Line 299. -/
  | unlocking (task : α)
  /-- Line 302. -/
  | running (task : α)
  /-- Line 305. -/
  | leaving
  /-- Line 307. -/
  | exiting
  | ended

/-- The next statement of a call. -/
inductive CallPoint (α : Type) where
  /-- `threadpool_create`, lines 130–132, with the number of threads still to be created. -/
  | spawning (left : Nat)
  /-- Line 136. -/
  | countingThread (left : Nat)
  /-- Line 137. -/
  | countingStarted (left : Nat)
  /-- `threadpool_create` has returned the pool. -/
  | handedOver
  /-- `threadpool_add`, line 160. -/
  | addLocking (argument : α)
  /-- Lines 164–174. -/
  | addTesting (argument : α)
  /-- Lines 180–181. -/
  | storing (argument : α) (next : Nat)
  /-- Line 182. -/
  | settingTail (next : Nat)
  /-- Line 183. -/
  | settingCount
  /-- Line 186. -/
  | signalling
  /-- Line 192. -/
  | addUnlocking (err : Int32)
  /-- `threadpool_destroy`, line 207. -/
  | destroyLocking (graceful : Bool)
  /-- Line 213. -/
  | destroyTesting (graceful : Bool)
  /-- Line 219. -/
  | settingShutdown (graceful : Bool)
  /-- Line 223. -/
  | broadcasting
  /-- Lines 215, 225 and 229. -/
  | destroyUnlocking (err : Int32)
  /-- Lines 232–236. -/
  | joining (i : Nat) (err : Int32)
  /-- Line 241. -/
  | freeing
  | returned (err : Int32)

/-- What the functions of the pool do as seen from outside: the result of the tests of a call,
and what a worker does next. -/
inductive PoolEvent (α : Type) where
  | spawned
  | added (argument : α) (err : Int32)
  | destroyed (graceful : Bool) (err : Int32)
  | took (i : Nat) (task : α)
  | finished (i : Nat) (task : α)
  | left (i : Nat)

variable {α : Type}

namespace WorkerPoint

def isSleeping : WorkerPoint α → Bool
  | .sleeping => true
  | _ => false

def isEnded : WorkerPoint α → Bool
  | .ended => true
  | _ => false

/-- What `pthread_cond_broadcast` does to a worker. -/
def wake : WorkerPoint α → WorkerPoint α
  | .sleeping => .woken
  | w => w

/-- The points at which a worker holds the lock. -/
def holds : WorkerPoint α → Bool
  | .testing | .advancing _ | .counting _ | .unlocking _ | .leaving | .exiting => true
  | _ => false

/-- What a worker does in the pool whose functions are single steps. -/
def role : WorkerPoint α → Worker α
  | .locking | .testing | .sleeping | .woken => .waiting
  | .advancing task | .counting task | .unlocking task | .running task => .running task
  | .leaving | .exiting | .ended => .ended

/-- What the queue will be once the worker is done with it. -/
def pending : WorkerPoint α → RingQueue α → RingQueue α
  | .advancing _, q => q.pop
  | .counting _, q => { q with count := q.count - 1 }
  | _, q => q

end WorkerPoint

namespace CallPoint

def isHandedOver : CallPoint α → Bool
  | .handedOver => true
  | _ => false

/-- The points at which a call holds the lock. -/
def holds : CallPoint α → Bool
  | .addTesting _ | .storing _ _ | .settingTail _ | .settingCount | .signalling
  | .addUnlocking _ | .destroyTesting _ | .settingShutdown _ | .broadcasting
  | .destroyUnlocking _ => true
  | _ => false

/-- What the queue will be once the call is done with it. -/
def pending : CallPoint α → RingQueue α → RingQueue α
  | .storing argument next, q =>
    { q with cells := q.cells.set q.tail argument, tail := next, count := q.count + 1 }
  | .settingTail next, q => { q with tail := next, count := q.count + 1 }
  | .settingCount, q => { q with count := q.count + 1 }
  | _, q => q

end CallPoint

/-- Take the lock if it is free. -/
def PoolMemory.acquire (m : PoolMemory α) (t : PoolThread) : Option (PoolMemory α) :=
  if m.lock = none then some { m with lock := some t } else none

/-- Leave the lock. -/
def PoolMemory.release (m : PoolMemory α) : PoolMemory α := { m with lock := none }

section Release
variable (m : PoolMemory α)

@[simp] theorem PoolMemory.release_queue : m.release.queue = m.queue := rfl
@[simp] theorem PoolMemory.release_shutdown : m.release.shutdown = m.shutdown := rfl
@[simp] theorem PoolMemory.release_threadCount : m.release.threadCount = m.threadCount := rfl
@[simp] theorem PoolMemory.release_started : m.release.started = m.started := rfl
@[simp] theorem PoolMemory.release_lock : m.release.lock = none := rfl
@[simp] theorem PoolMemory.release_freed : m.release.freed = m.freed := rfl

end Release

@[simp] theorem threadpoolQueueFull_ne : threadpoolQueueFull ≠ 0 := by decide
@[simp] theorem threadpoolShutdown_ne : threadpoolShutdown ≠ 0 := by decide
@[simp] theorem threadpoolLockFailure_ne : threadpoolLockFailure ≠ 0 := by decide
@[simp] theorem threadpoolThreadFailure_ne : threadpoolThreadFailure ≠ 0 := by decide

/-- The next statement of the worker `i`: what is seen of it, where the worker is then, and the
pool. -/
def workerStep (i : Nat) (m : PoolMemory α) :
    WorkerPoint α → Option (Option (PoolEvent α) × WorkerPoint α × PoolMemory α)
  | .locking | .woken => (m.acquire (.worker i)).map fun m ↦ (none, .testing, m)
  | .testing =>
    if m.queue.count = 0 ∧ m.shutdown = none then some (none, .sleeping, m.release)
    else if m.shutdown = some .immediate ∨
        m.shutdown = some .graceful ∧ m.queue.count = 0 then some (some (.left i), .leaving, m)
    else m.queue.front?.map fun task ↦ (some (.took i task), .advancing task, m)
  | .advancing task =>
    let head := (m.queue.head + 1) % m.queue.size
    some (none, .counting task, { m with queue := { m.queue with head := head } })
  | .counting task =>
    let count := m.queue.count - 1
    some (none, .unlocking task, { m with queue := { m.queue with count := count } })
  | .unlocking task => some (none, .running task, m.release)
  | .running task => some (some (.finished i task), .locking, m)
  | .leaving => some (none, .exiting, { m with started := m.started - 1 })
  | .exiting => some (none, .ended, m.release)
  | .sleeping | .ended => none

/-- `pthread_cond_signal`: one of the sleeping workers, if there are any, wakes up. -/
def signal (woken : Nat) (workers : List (WorkerPoint α)) : Option (List (WorkerPoint α)) :=
  if workers.any WorkerPoint.isSleeping then
    if (workers[woken]?).any WorkerPoint.isSleeping then some (workers.set woken .woken) else none
  else some workers

/-- The next statement of the call `k`, where `ok` says whether the function of the library that
it calls succeeds and `woken` is the worker that a signal wakes. -/
def callStep (k : Nat) (ok : Bool) (woken : Nat) (m : PoolMemory α)
    (workers : List (WorkerPoint α)) : CallPoint α →
    Option (Option (PoolEvent α) × CallPoint α × PoolMemory α × List (WorkerPoint α))
  | .spawning 0 => some (none, .handedOver, m, workers)
  | .spawning (left + 1) =>
    if ok then some (some .spawned, .countingThread left, m, workers ++ [.locking])
    else some (none, .destroyLocking false, m, workers)
  | .countingThread left =>
    some (none, .countingStarted left, { m with threadCount := m.threadCount + 1 }, workers)
  | .countingStarted left =>
    some (none, .spawning left, { m with started := m.started + 1 }, workers)
  | .addLocking argument =>
    (m.acquire (.caller k)).map fun m ↦ (none, .addTesting argument, m, workers)
  | .addTesting argument =>
    let next := (m.queue.tail + 1) % m.queue.size
    if m.queue.count = m.queue.size then
      some (some (.added argument threadpoolQueueFull), .addUnlocking threadpoolQueueFull, m,
        workers)
    else if m.shutdown.isSome then
      some (some (.added argument threadpoolShutdown), .addUnlocking threadpoolShutdown, m,
        workers)
    else some (some (.added argument 0), .storing argument next, m, workers)
  | .storing argument next =>
    let cells := m.queue.cells.set m.queue.tail argument
    some (none, .settingTail next, { m with queue := { m.queue with cells := cells } }, workers)
  | .settingTail next =>
    some (none, .settingCount, { m with queue := { m.queue with tail := next } }, workers)
  | .settingCount =>
    let count := m.queue.count + 1
    some (none, .signalling, { m with queue := { m.queue with count := count } }, workers)
  | .signalling =>
    if ok then (signal woken workers).map fun workers ↦ (none, .addUnlocking 0, m, workers)
    else some (none, .addUnlocking threadpoolLockFailure, m, workers)
  | .addUnlocking err => some (none, .returned err, m.release, workers)
  | .destroyLocking graceful =>
    (m.acquire (.caller k)).map fun m ↦ (none, .destroyTesting graceful, m, workers)
  | .destroyTesting graceful =>
    if m.shutdown.isSome then
      some (some (.destroyed graceful threadpoolShutdown), .destroyUnlocking threadpoolShutdown,
        m, workers)
    else some (none, .settingShutdown graceful, m, workers)
  | .settingShutdown graceful =>
    let shutdown := if graceful then .graceful else .immediate
    some (some (.destroyed graceful 0), .broadcasting, { m with shutdown := some shutdown },
      workers)
  | .broadcasting =>
    if ok then some (none, .destroyUnlocking 0, m, workers.map WorkerPoint.wake)
    else some (none, .destroyUnlocking threadpoolLockFailure, m, workers)
  | .destroyUnlocking err =>
    some (none, if err = 0 then .joining 0 0 else .returned err, m.release, workers)
  | .joining i err =>
    if i < m.threadCount then
      if ok then
        if (workers[i]?).any WorkerPoint.isEnded then
          some (none, .joining (i + 1) err, m, workers)
        else none
      else some (none, .joining (i + 1) threadpoolThreadFailure, m, workers)
    else some (none, if err = 0 then .freeing else .returned err, m, workers)
  | .freeing =>
    some (none, .returned 0, if 0 < m.started then m else { m with freed := true }, workers)
  | .handedOver | .returned _ => none

/-- What a statement of the worker `i` can do. -/
inductive WorkerMove (i : Nat) (m : PoolMemory α) :
    WorkerPoint α → Option (PoolEvent α) → WorkerPoint α → PoolMemory α → Prop
  | lock {w : WorkerPoint α} (hw : w = .locking ∨ w = .woken) (free : m.lock = none) :
      WorkerMove i m w none .testing { m with lock := some (.worker i) }
  | sleep (empty : m.queue.count = 0) (running : m.shutdown = none) :
      WorkerMove i m .testing none .sleeping m.release
  | leave (shut : m.shutdown = some .immediate ∨
        m.shutdown = some .graceful ∧ m.queue.count = 0) :
      WorkerMove i m .testing (some (.left i)) .leaving m
  | take (task : α) (busy : ¬ (m.queue.count = 0 ∧ m.shutdown = none))
      (stay : ¬ (m.shutdown = some .immediate ∨
        m.shutdown = some .graceful ∧ m.queue.count = 0))
      (front : m.queue.front? = some task) :
      WorkerMove i m .testing (some (.took i task)) (.advancing task) m
  | advance (task : α) :
      WorkerMove i m (.advancing task) none (.counting task)
        { m with queue := { m.queue with head := (m.queue.head + 1) % m.queue.size } }
  | count (task : α) :
      WorkerMove i m (.counting task) none (.unlocking task)
        { m with queue := { m.queue with count := m.queue.count - 1 } }
  | unlock (task : α) : WorkerMove i m (.unlocking task) none (.running task) m.release
  | finish (task : α) : WorkerMove i m (.running task) (some (.finished i task)) .locking m
  | discount : WorkerMove i m .leaving none .exiting { m with started := m.started - 1 }
  | exit : WorkerMove i m .exiting none .ended m.release

theorem workerStep_cases {i : Nat} {m m' : PoolMemory α} {w w' : WorkerPoint α}
    {e : Option (PoolEvent α)} (h : workerStep i m w = some (e, w', m')) :
    WorkerMove i m w e w' m' := by
  have hlock : ∀ w, w = .locking ∨ w = .woken →
      (m.acquire (.worker i)).map (fun m ↦ ((none : Option (PoolEvent α)),
        WorkerPoint.testing (α := α), m)) = some (e, w', m') → WorkerMove i m w e w' m' := by
    intro w hw h
    rw [PoolMemory.acquire] at h
    split at h
    · next hfree =>
      cases h
      exact .lock hw hfree
    · cases h
  cases w with
  | locking => exact hlock _ (.inl rfl) h
  | woken => exact hlock _ (.inr rfl) h
  | testing =>
    rw [workerStep] at h
    split at h
    · next hsleep =>
      cases h
      exact .sleep hsleep.1 hsleep.2
    · next hbusy =>
      split at h
      · next hshut =>
        cases h
        exact .leave hshut
      · next hstay =>
        obtain ⟨task, hfront, heq⟩ := Option.map_eq_some_iff.mp h
        cases heq
        exact .take task hbusy hstay hfront
  | sleeping | ended => cases h
  | advancing task =>
    cases h
    exact .advance task
  | counting task =>
    cases h
    exact .count task
  | unlocking task =>
    cases h
    exact .unlock task
  | running task =>
    cases h
    exact .finish task
  | leaving =>
    cases h
    exact .discount
  | exiting =>
    cases h
    exact .exit

/-- What a statement of the call `k` can do to the call, the pool and the workers. -/
inductive CallMove (k : Nat) (ok : Bool) (m : PoolMemory α) (workers : List (WorkerPoint α)) :
    CallPoint α → Option (PoolEvent α) → CallPoint α → PoolMemory α → List (WorkerPoint α) → Prop
  | handOver : CallMove k ok m workers (.spawning 0) none .handedOver m workers
  | spawn (left : Nat) :
      CallMove k ok m workers (.spawning (left + 1)) (some .spawned) (.countingThread left) m
        (workers ++ [.locking])
  | giveUp (left : Nat) (failure : ok = false) :
      CallMove k ok m workers (.spawning (left + 1)) none (.destroyLocking false) m workers
  | countThread (left : Nat) :
      CallMove k ok m workers (.countingThread left) none (.countingStarted left)
        { m with threadCount := m.threadCount + 1 } workers
  | countStarted (left : Nat) :
      CallMove k ok m workers (.countingStarted left) none (.spawning left)
        { m with started := m.started + 1 } workers
  | lock {c c' : CallPoint α} (free : m.lock = none)
      (hc : (∃ argument, c = .addLocking argument ∧ c' = .addTesting argument) ∨
        ∃ graceful, c = .destroyLocking graceful ∧ c' = .destroyTesting graceful) :
      CallMove k ok m workers c none c' { m with lock := some (.caller k) } workers
  | refuse (argument : α) {err : Int32}
      (refused : m.queue.count = m.queue.size ∧ err = threadpoolQueueFull ∨
        m.queue.count ≠ m.queue.size ∧ m.shutdown.isSome = true ∧ err = threadpoolShutdown) :
      CallMove k ok m workers (.addTesting argument) (some (.added argument err))
        (.addUnlocking err) m workers
  | accept (argument : α) (room : m.queue.count ≠ m.queue.size) (running : m.shutdown = none) :
      CallMove k ok m workers (.addTesting argument) (some (.added argument 0))
        (.storing argument ((m.queue.tail + 1) % m.queue.size)) m workers
  | store (argument : α) (next : Nat) :
      CallMove k ok m workers (.storing argument next) none (.settingTail next)
        { m with queue := { m.queue with cells := m.queue.cells.set m.queue.tail argument } }
        workers
  | setTail (next : Nat) :
      CallMove k ok m workers (.settingTail next) none .settingCount
        { m with queue := { m.queue with tail := next } } workers
  | setCount :
      CallMove k ok m workers .settingCount none .signalling
        { m with queue := { m.queue with count := m.queue.count + 1 } } workers
  | signalOne {woken : Nat} (success : ok = true) (asleep : workers[woken]? = some .sleeping) :
      CallMove k ok m workers .signalling none (.addUnlocking 0) m (workers.set woken .woken)
  | signalNone (success : ok = true) (awake : ∀ w ∈ workers, w.isSleeping = false) :
      CallMove k ok m workers .signalling none (.addUnlocking 0) m workers
  | signalFails (failure : ok = false) :
      CallMove k ok m workers .signalling none (.addUnlocking threadpoolLockFailure) m workers
  | addUnlock (err : Int32) :
      CallMove k ok m workers (.addUnlocking err) none (.returned err) m.release workers
  | alreadyShut (graceful : Bool) (shut : m.shutdown.isSome = true) :
      CallMove k ok m workers (.destroyTesting graceful)
        (some (.destroyed graceful threadpoolShutdown)) (.destroyUnlocking threadpoolShutdown) m
        workers
  | mayShut (graceful : Bool) (running : m.shutdown = none) :
      CallMove k ok m workers (.destroyTesting graceful) none (.settingShutdown graceful) m
        workers
  | shut (graceful : Bool) :
      CallMove k ok m workers (.settingShutdown graceful) (some (.destroyed graceful 0))
        .broadcasting
        { m with shutdown := some (if graceful then .graceful else .immediate) } workers
  | broadcast (success : ok = true) :
      CallMove k ok m workers .broadcasting none (.destroyUnlocking 0) m
        (workers.map WorkerPoint.wake)
  | broadcastFails (failure : ok = false) :
      CallMove k ok m workers .broadcasting none (.destroyUnlocking threadpoolLockFailure) m
        workers
  | destroyUnlock (err : Int32) {c' : CallPoint α}
      (hc : c' = if err = 0 then .joining 0 0 else .returned err) :
      CallMove k ok m workers (.destroyUnlocking err) none c' m.release workers
  | join {i : Nat} (err : Int32) (hi : i < m.threadCount) (ended : workers[i]? = some .ended) :
      CallMove k ok m workers (.joining i err) none (.joining (i + 1) err) m workers
  | joinFails {i : Nat} (err : Int32) (hi : i < m.threadCount) :
      CallMove k ok m workers (.joining i err) none (.joining (i + 1) threadpoolThreadFailure) m
        workers
  | joined {i : Nat} (err : Int32) {c' : CallPoint α} (hi : m.threadCount ≤ i)
      (hc : c' = if err = 0 then .freeing else .returned err) :
      CallMove k ok m workers (.joining i err) none c' m workers
  | free : CallMove k ok m workers .freeing none (.returned 0)
        (if 0 < m.started then m else { m with freed := true }) workers

theorem WorkerPoint.isSleeping_iff {w : WorkerPoint α} : w.isSleeping = true ↔ w = .sleeping := by
  cases w <;> simp [isSleeping]

theorem WorkerPoint.isEnded_iff {w : WorkerPoint α} : w.isEnded = true ↔ w = .ended := by
  cases w <;> simp [isEnded]

theorem WorkerPoint.any_isSleeping {o : Option (WorkerPoint α)} :
    o.any isSleeping = true ↔ o = some .sleeping := by
  cases o <;> simp [isSleeping_iff]

theorem WorkerPoint.any_isEnded {o : Option (WorkerPoint α)} :
    o.any isEnded = true ↔ o = some .ended := by
  cases o <;> simp [isEnded_iff]

theorem callStep_cases {k : Nat} {ok : Bool} {woken : Nat} {m m' : PoolMemory α}
    {workers workers' : List (WorkerPoint α)} {c c' : CallPoint α} {e : Option (PoolEvent α)}
    (h : callStep k ok woken m workers c = some (e, c', m', workers')) :
    CallMove k ok m workers c e c' m' workers' := by
  cases c with
  | spawning left =>
    cases left with
    | zero =>
      cases h
      exact .handOver
    | succ left =>
      rw [callStep] at h
      split at h
      · cases h
        exact .spawn left
      · next hok =>
        cases h
        exact .giveUp left (by simpa using hok)
  | countingThread left =>
    cases h
    exact .countThread left
  | countingStarted left =>
    cases h
    exact .countStarted left
  | handedOver | returned err => cases h
  | addLocking argument =>
    rw [callStep, PoolMemory.acquire] at h
    split at h
    · next hfree =>
      cases h
      exact .lock hfree (.inl ⟨argument, rfl, rfl⟩)
    · cases h
  | addTesting argument =>
    rw [callStep] at h
    split at h
    · next hfull =>
      cases h
      exact .refuse argument (.inl ⟨hfull, rfl⟩)
    · next hroom =>
      split at h
      · next hshut =>
        cases h
        exact .refuse argument (.inr ⟨hroom, hshut, rfl⟩)
      · next hopen =>
        cases h
        exact .accept argument hroom (Option.not_isSome_iff_eq_none.mp hopen)
  | storing argument next =>
    cases h
    exact .store argument next
  | settingTail next =>
    cases h
    exact .setTail next
  | settingCount =>
    cases h
    exact .setCount
  | signalling =>
    rw [callStep] at h
    split at h
    · next hok =>
      obtain ⟨ws, hws, heq⟩ := Option.map_eq_some_iff.mp h
      cases heq
      rw [signal] at hws
      split at hws
      · split at hws
        · next hasleep =>
          cases hws
          exact .signalOne hok (WorkerPoint.any_isSleeping.mp hasleep)
        · cases hws
      · next hnone =>
        cases hws
        exact .signalNone hok (by simpa using hnone)
    · next hok =>
      cases h
      exact .signalFails (by simpa using hok)
  | addUnlocking err =>
    cases h
    exact .addUnlock err
  | destroyLocking graceful =>
    rw [callStep, PoolMemory.acquire] at h
    split at h
    · next hfree =>
      cases h
      exact .lock hfree (.inr ⟨graceful, rfl, rfl⟩)
    · cases h
  | destroyTesting graceful =>
    rw [callStep] at h
    split at h
    · next hshut =>
      cases h
      exact .alreadyShut graceful hshut
    · next hopen =>
      cases h
      exact .mayShut graceful (Option.not_isSome_iff_eq_none.mp hopen)
  | settingShutdown graceful =>
    cases h
    exact .shut graceful
  | broadcasting =>
    rw [callStep] at h
    split at h
    · next hok =>
      cases h
      exact .broadcast hok
    · next hok =>
      cases h
      exact .broadcastFails (by simpa using hok)
  | destroyUnlocking err =>
    cases h
    exact .destroyUnlock err rfl
  | joining i err =>
    rw [callStep] at h
    split at h
    · next hi =>
      split at h
      · split at h
        · next hended =>
          cases h
          exact .join err hi (WorkerPoint.any_isEnded.mp hended)
        · cases h
      · cases h
        exact .joinFails err hi
    · next hi =>
      cases h
      exact .joined err (Nat.le_of_not_lt hi) rfl
  | freeing =>
    cases h
    exact .free

/-- The pool with all its threads. Call 0 is the one of `threadpool_create`. -/
structure PoolThreads (α : Type) where
  memory : PoolMemory α
  workers : List (WorkerPoint α)
  calls : List (CallPoint α)

/-- What happens next: a statement of a worker or of a call, a spurious wakeup, or a new call. -/
inductive PoolAct (α : Type) where
  | worker (i : Nat)
  | wake (i : Nat)
  | caller (k : Nat) (ok : Bool) (woken : Nat)
  | add (argument : α)
  | destroy (graceful : Bool)

namespace PoolThreads

/-- A pool with its queue in these cells that has still to start its threads. -/
def initial (cells : List α) (threadCount : Nat) : PoolThreads α :=
  ⟨⟨.empty cells, none, 0, 0, none, false⟩, [], [.spawning threadCount]⟩

/-- `threadpool_create` before it starts the threads, `threadpool.c:102–127`, where `ok` says
that the memory, the lock and the condition variable can be had; the memory of the queue is not
written. -/
def create (memory : Nat → α) (threadCount queueSize : Nat) (ok : Bool) :
    Option (PoolThreads α) :=
  if threadCount = 0 ∨ maxThreads < threadCount ∨ queueSize = 0 ∨ maxQueue < queueSize then none
  else if ok then some (initial ((List.range queueSize).map memory) threadCount)
  else none

/-- A pool has threads to start and room for tasks. -/
theorem create_cases {memory : Nat → α} {threadCount queueSize : Nat} {ok : Bool}
    {s : PoolThreads α} (h : create memory threadCount queueSize ok = some s) :
    0 < threadCount ∧ ∃ cells, cells ≠ [] ∧ s = initial cells threadCount := by
  rw [create] at h
  split at h
  · cases h
  · next hsizes =>
    split at h
    · cases h
      refine ⟨by omega, _, ?_, rfl⟩
      simp only [ne_eq, List.map_eq_nil_iff, List.range_eq_nil]
      omega
    · cases h

/-- The pool was handed out and is not released: it may be used. -/
def usable (s : PoolThreads α) : Bool :=
  !s.memory.freed && (s.calls[0]?).any CallPoint.isHandedOver

end PoolThreads

/-- One step of the pool. No step of a call is defined after the release of the pool. -/
def poolStep (s : PoolThreads α) : PoolAct α → Option (Option (PoolEvent α) × PoolThreads α)
  | .worker i => do
    let w ← s.workers[i]?
    let (e, w, m) ← workerStep i s.memory w
    some (e, { s with memory := m, workers := s.workers.set i w })
  | .wake i =>
    if (s.workers[i]?).any WorkerPoint.isSleeping then
      some (none, { s with workers := s.workers.set i .woken })
    else none
  | .caller k ok woken =>
    if s.memory.freed then none
    else do
      let c ← s.calls[k]?
      let (e, c, m, workers) ← callStep k ok woken s.memory s.workers c
      some (e, ⟨m, workers, s.calls.set k c⟩)
  | .add argument =>
    if s.usable then some (none, { s with calls := s.calls ++ [.addLocking argument] }) else none
  | .destroy graceful =>
    if s.usable then some (none, { s with calls := s.calls ++ [.destroyLocking graceful] })
    else none

/-- What a step of the pool can be. -/
inductive PoolMove (s : PoolThreads α) :
    PoolAct α → Option (PoolEvent α) → PoolThreads α → Prop
  | worker {i : Nat} {w w' : WorkerPoint α} {e : Option (PoolEvent α)} {m' : PoolMemory α}
      (hi : s.workers[i]? = some w) (move : WorkerMove i s.memory w e w' m') :
      PoolMove s (.worker i) e ⟨m', s.workers.set i w', s.calls⟩
  | wake {i : Nat} (hi : s.workers[i]? = some .sleeping) :
      PoolMove s (.wake i) none { s with workers := s.workers.set i .woken }
  | caller {k woken : Nat} {ok : Bool} {c c' : CallPoint α} {e : Option (PoolEvent α)}
      {m' : PoolMemory α} {workers' : List (WorkerPoint α)} (live : s.memory.freed = false)
      (hk : s.calls[k]? = some c) (move : CallMove k ok s.memory s.workers c e c' m' workers') :
      PoolMove s (.caller k ok woken) e ⟨m', workers', s.calls.set k c'⟩
  | call {a : PoolAct α} {c : CallPoint α} (usable : s.usable = true)
      (hc : (∃ argument, a = .add argument ∧ c = .addLocking argument) ∨
        ∃ graceful, a = .destroy graceful ∧ c = .destroyLocking graceful) :
      PoolMove s a none { s with calls := s.calls ++ [c] }

theorem poolStep_cases {s t : PoolThreads α} {a : PoolAct α} {e : Option (PoolEvent α)}
    (h : poolStep s a = some (e, t)) : PoolMove s a e t := by
  cases a with
  | worker i =>
    simp only [poolStep, Option.bind_eq_bind, Option.bind_eq_some_iff, Option.some.injEq,
      Prod.mk.injEq] at h
    obtain ⟨w, hi, ⟨e', w', m'⟩, hw, rfl, rfl⟩ := h
    exact .worker hi (workerStep_cases hw)
  | wake i =>
    rw [poolStep] at h
    split at h
    · next hasleep =>
      cases h
      exact .wake (WorkerPoint.any_isSleeping.mp hasleep)
    · cases h
  | caller k ok woken =>
    rw [poolStep] at h
    split at h
    · cases h
    · next hfreed =>
      simp only [Option.bind_eq_bind, Option.bind_eq_some_iff, Option.some.injEq,
        Prod.mk.injEq] at h
      obtain ⟨c, hk, ⟨e', c', m', workers'⟩, hc, rfl, rfl⟩ := h
      exact .caller (by simpa using hfreed) hk (callStep_cases hc)
  | add argument =>
    rw [poolStep] at h
    split at h
    · next husable =>
      cases h
      exact .call husable (.inl ⟨argument, rfl, rfl⟩)
    · cases h
  | destroy graceful =>
    rw [poolStep] at h
    split at h
    · next husable =>
      cases h
      exact .call husable (.inr ⟨graceful, rfl, rfl⟩)
    · cases h

end LedaSdk.Utility
