import LedaSdk.Utility.PoolThreads

/-!
# The functions of the pool are single steps

While a thread holds the lock, the queue is seen as it will be when the thread is done with
it. Seen so, each statement of the threads of `LedaSdk.Utility.PoolThreads` is a function of
the pool of `LedaSdk.Utility.Threadpool`, or nothing at all.
-/

namespace LedaSdk.Utility
open LedaSdk.Base

variable {α : Type}

/-- The functions of the pool as single steps; a library function that fails is seen only in the
result that the caller gets. -/
def atomicRel : EventRel (ThreadpoolT α) (PoolEvent α)
  | p, .spawned, _, p' => p' = { p with workers := p.workers ++ [.waiting] }
  | p, .added argument err, _, p' => p.addLocked true true true argument = (err, p')
  | p, .destroyed graceful err, _, p' => p.destroy graceful true true = (err, p')
  | p, .took i task, _, p' =>
    p.workers[i]? = some .waiting ∧
      ∃ rest, p.grab = some (.running task, rest) ∧ p' = rest.setWorker i (.running task)
  | p, .left i, _, p' =>
    p.workers[i]? = some .waiting ∧
      ∃ rest, p.grab = some (.ended, rest) ∧ p' = rest.setWorker i .ended
  | p, .finished i task, _, p' =>
    p.workers[i]? = some (.running task) ∧ p' = p.setWorker i .waiting

namespace PoolThreads
variable {s : PoolThreads α} {m' : PoolMemory α} {i k : Nat} {w w' : WorkerPoint α}
  {c c' : CallPoint α} {workers' : List (WorkerPoint α)} {e : Option (PoolEvent α)}

/-- Whether a thread is at a point that holds the lock. -/
def inside (s : PoolThreads α) : PoolThread → Bool
  | .worker i => (s.workers[i]?).any WorkerPoint.holds
  | .caller k => (s.calls[k]?).any CallPoint.holds

/-- Mutual exclusion. -/
def Locked (s : PoolThreads α) : Prop := Exclusive s.inside s.memory.lock

/-- What a thread will still do to the queue before it leaves the lock. -/
def pendingAt (s : PoolThreads α) : PoolThread → RingQueue α → RingQueue α
  | .worker i => (s.workers[i]?).elim id WorkerPoint.pending
  | .caller k => (s.calls[k]?).elim id CallPoint.pending

/-- The queue as it will be when the thread that holds the lock is done with it. -/
def settled (s : PoolThreads α) : RingQueue α :=
  s.memory.lock.elim s.memory.queue fun t ↦ s.pendingAt t s.memory.queue

/-- The pool as its single-step functions see it. -/
def atomic (s : PoolThreads α) : ThreadpoolT α :=
  ⟨s.settled, s.memory.shutdown, s.workers.map WorkerPoint.role⟩

section Settled

theorem settled_of_free (h : s.memory.lock = none) : s.settled = s.memory.queue := by
  rw [settled, h, Option.elim_none]

theorem settled_of_worker (h : s.memory.lock = some (.worker i)) (hi : s.workers[i]? = some w) :
    s.settled = w.pending s.memory.queue := by
  rw [settled, h, Option.elim_some, pendingAt, hi, Option.elim_some]

theorem settled_of_caller (h : s.memory.lock = some (.caller k)) (hk : s.calls[k]? = some c) :
    s.settled = c.pending s.memory.queue := by
  rw [settled, h, Option.elim_some, pendingAt, hk, Option.elim_some]

theorem Locked.lock_of_worker (h : s.Locked) (hi : s.workers[i]? = some w)
    (hw : w.holds = true) : s.memory.lock = some (.worker i) := by
  apply (h (.worker i)).mp
  simp [inside, hi, hw]

theorem Locked.lock_of_caller (h : s.Locked) (hk : s.calls[k]? = some c) (hc : c.holds = true) :
    s.memory.lock = some (.caller k) := by
  apply (h (.caller k)).mp
  simp [inside, hk, hc]

end Settled

/-- How the lock follows the worker. -/
theorem lockStep_worker {m : PoolMemory α} (h : WorkerMove i m w e w' m') :
    LockStep (PoolThread.worker i) w.holds w'.holds m.lock m'.lock := by
  cases h with
  | lock hw hfree =>
    rw [hfree]
    rcases hw with rfl | rfl <;> exact .acquire
  | sleep | unlock | exit => exact .release _
  | leave | take | advance | count | finish | discount => exact .stay _ _

/-- How the lock follows the call. -/
theorem lockStep_caller {ok : Bool} {m : PoolMemory α} {workers : List (WorkerPoint α)}
    (h : CallMove k ok m workers c e c' m' workers') :
    LockStep (PoolThread.caller k) c.holds c'.holds m.lock m'.lock := by
  cases h with
  | lock hfree hc =>
    rw [hfree]
    rcases hc with ⟨argument, rfl, rfl⟩ | ⟨graceful, rfl, rfl⟩ <;> exact .acquire
  | addUnlock => exact .release _
  | destroyUnlock err hc =>
    rw [hc]
    split <;> exact .release _
  | joined err hi hc =>
    rw [hc]
    split <;> exact .stay _ _
  | free => split <;> exact .stay _ _
  | _ => exact .stay _ _

/-- A call leaves the workers where they are as far as the lock goes. -/
theorem holds_of_callMove {ok : Bool} {m : PoolMemory α} {workers : List (WorkerPoint α)}
    (h : CallMove k ok m workers c e c' m' workers') (j : Nat) :
    (workers'[j]?).any WorkerPoint.holds = (workers[j]?).any WorkerPoint.holds := by
  cases h with
  | spawn left => exact any_getElem?_concat (show WorkerPoint.holds .locking = false from rfl) workers j
  | @signalOne woken _ hasleep =>
    rcases eq_or_ne woken j with rfl | hne
    · rw [List.getElem?_set_self (List.getElem?_eq_some_iff.mp hasleep).1, hasleep]
      rfl
    · rw [List.getElem?_set_ne hne]
  | broadcast =>
    rw [List.getElem?_map]
    cases workers[j]? with
    | none => rfl
    | some w => cases w <;> rfl
  | _ => rfl

section Locked

/-- The other threads are where they were. -/
private theorem inside_set_worker (m : PoolMemory α) (w' : WorkerPoint α) (u : PoolThread)
    (hu : u ≠ .worker i) :
    inside ⟨m, s.workers.set i w', s.calls⟩ u = s.inside u := by
  cases u with
  | worker j =>
    rw [inside, List.getElem?_set_ne (by rintro rfl; exact hu rfl)]
    rfl
  | caller k => rfl

private theorem inside_worker (m : PoolMemory α) (hi : s.workers[i]? = some w)
    (w' : WorkerPoint α) :
    inside ⟨m, s.workers.set i w', s.calls⟩ (.worker i) = w'.holds := by
  simp [inside, List.getElem?_set_self (List.getElem?_eq_some_iff.mp hi).1]

/-- A worker's statement keeps mutual exclusion. -/
theorem Locked.worker (h : s.Locked) (hi : s.workers[i]? = some w)
    (hmove : WorkerMove i s.memory w e w' m') :
    Locked ⟨m', s.workers.set i w', s.calls⟩ := by
  apply Exclusive.step h (inside_set_worker m' w')
  rw [inside_worker m' hi w']
  simpa [inside, hi] using lockStep_worker hmove

/-- A call's statement keeps mutual exclusion. -/
theorem Locked.caller {ok : Bool} (h : s.Locked) (hk : s.calls[k]? = some c)
    (hmove : CallMove k ok s.memory s.workers c e c' m' workers') :
    Locked ⟨m', workers', s.calls.set k c'⟩ := by
  have hlt := (List.getElem?_eq_some_iff.mp hk).1
  apply Exclusive.step (t := .caller k) h
  · intro u hu
    cases u with
    | worker j => exact holds_of_callMove hmove j
    | caller j =>
      rw [inside, List.getElem?_set_ne (by rintro rfl; exact hu rfl)]
      rfl
  · simpa [inside, hk, List.getElem?_set_self hlt] using lockStep_caller hmove

/-- A worker that wakes up without a signal keeps mutual exclusion. -/
theorem Locked.wake (h : s.Locked) (hi : s.workers[i]? = some .sleeping) :
    Locked { s with workers := s.workers.set i .woken } := by
  apply Exclusive.step h (inside_set_worker s.memory .woken)
  rw [inside_worker s.memory hi .woken, inside, hi]
  exact .stay _ _

/-- A new call keeps mutual exclusion. -/
theorem Locked.call (h : s.Locked) (hc : c.holds = false) :
    Locked { s with calls := s.calls ++ [c] } := by
  have hinside : inside { s with calls := s.calls ++ [c] } = s.inside := by
    funext u
    cases u with
    | worker i => rfl
    | caller k => exact any_getElem?_concat hc s.calls k
  rw [Locked, hinside]
  exact h

end Locked

section Settled

theorem CallPoint.pending_of_outside (h : c.holds = false) : c.pending = id := by
  cases c <;> first | rfl | cases h

/-- A new thread does nothing to the queue. -/
theorem elim_pending_concat {π : Type} {pending : π → RingQueue α → RingQueue α} {p : π}
    (hp : pending p = id) (l : List π) (j : Nat) :
    ((l ++ [p])[j]?).elim id pending = (l[j]?).elim id pending := by
  rcases Nat.lt_trichotomy j l.length with hlt | rfl | hgt
  · rw [List.getElem?_append_left hlt]
  · rw [List.getElem?_concat_length, List.getElem?_eq_none (Nat.le_refl _)]
    exact hp
  · rw [List.getElem?_eq_none (by rw [List.length_append, List.length_singleton]; omega),
      List.getElem?_eq_none (by omega)]

/-- Replacing a thread that has nothing to do to the queue by another one. -/
theorem elim_pending_set {π : Type} {pending : π → RingQueue α → RingQueue α} {p p' : π}
    {l : List π} (hi : l[i]? = some p) (hp : pending p = id) (hp' : pending p' = id) (j : Nat) :
    ((l.set i p')[j]?).elim id pending = (l[j]?).elim id pending := by
  rcases eq_or_ne i j with rfl | hne
  · rw [List.getElem?_set_self (List.getElem?_eq_some_iff.mp hi).1, hi, Option.elim_some,
      Option.elim_some, hp, hp']
  · rw [List.getElem?_set_ne hne]

/-- A call has no part in what the workers do to the queue. -/
theorem pending_of_callMove {ok : Bool} {m : PoolMemory α} {workers : List (WorkerPoint α)}
    (h : CallMove k ok m workers c e c' m' workers') (j : Nat) :
    (workers'[j]?).elim id WorkerPoint.pending = (workers[j]?).elim id WorkerPoint.pending := by
  cases h with
  | spawn left => exact elim_pending_concat rfl workers j
  | signalOne _ hasleep => exact elim_pending_set hasleep rfl rfl j
  | broadcast =>
    rw [List.getElem?_map]
    cases workers[j]? with
    | none => rfl
    | some w => cases w <;> rfl
  | _ => rfl

/-- The queue is seen unchanged if the threads do to it what they did before. -/
theorem settled_congr {s' : PoolThreads α} (hqueue : s'.memory.queue = s.memory.queue)
    (hlock : s'.memory.lock = s.memory.lock) (h : ∀ t, s'.pendingAt t = s.pendingAt t) :
    s'.settled = s.settled := by
  have hpending : s'.pendingAt = s.pendingAt := funext h
  rw [settled, settled, hqueue, hlock, hpending]

end Settled

section Roles

theorem role_of_set {workers : List (WorkerPoint α)} (hi : workers[i]? = some w)
    (hrole : w'.role = w.role) :
    (workers.set i w').map WorkerPoint.role = workers.map WorkerPoint.role := by
  rw [List.map_set, hrole]
  apply List.ext_getElem?
  intro j
  rcases eq_or_ne i j with rfl | hne
  · have hlt : i < (workers.map WorkerPoint.role).length := by
      rw [List.length_map]
      exact (List.getElem?_eq_some_iff.mp hi).1
    rw [List.getElem?_set_self hlt, List.getElem?_map, hi, Option.map_some]
  · rw [List.getElem?_set_ne hne]

theorem role_getElem? (hi : s.workers[i]? = some w) : s.atomic.workers[i]? = some w.role := by
  rw [atomic, List.getElem?_map, hi, Option.map_some]

/-- What a call does to the workers: it starts one, or leaves their parts unchanged. -/
theorem role_of_callMove {ok : Bool} {m : PoolMemory α} {workers : List (WorkerPoint α)}
    (h : CallMove k ok m workers c e c' m' workers') (hspawn : e ≠ some .spawned) :
    workers'.map WorkerPoint.role = workers.map WorkerPoint.role := by
  cases h with
  | spawn left => exact absurd rfl hspawn
  | signalOne _ hasleep => exact role_of_set hasleep rfl
  | broadcast =>
    rw [List.map_map]
    apply List.map_congr_left
    intro w _
    cases w <;> rfl
  | _ => rfl

end Roles

section Visibly

/-- Nothing is seen of a step that leaves the three parts of the pool as they are. -/
theorem atomic_congr {s' : PoolThreads α} (hqueue : s'.settled = s.settled)
    (hshut : s'.memory.shutdown = s.memory.shutdown)
    (hworkers : s'.workers.map WorkerPoint.role = s.workers.map WorkerPoint.role) :
    s'.atomic = s.atomic := by
  rw [atomic, atomic, hqueue, hshut, hworkers]

/-- A statement of a worker is one step of the pool, or none. -/
theorem worker_visibly (h : s.Locked) (hi : s.workers[i]? = some w)
    (hmove : WorkerMove i s.memory w e w' m') :
    Visibly atomicRel s.atomic e (atomic ⟨m', s.workers.set i w', s.calls⟩) := by
  have hi' : (s.workers.set i w')[i]? = some w' :=
    List.getElem?_set_self (List.getElem?_eq_some_iff.mp hi).1
  have hrole := role_getElem? hi
  have hmine : w.holds = true → s.settled = w.pending s.memory.queue := fun hw ↦
    settled_of_worker (h.lock_of_worker hi hw) hi
  have hmine' : w'.holds = true →
      settled ⟨m', s.workers.set i w', s.calls⟩ = w'.pending m'.queue := fun hw ↦
    settled_of_worker ((h.worker hi hmove).lock_of_worker hi' hw) hi'
  cases hmove with
  | lock hw hfree =>
    refine atomic_congr ?_ rfl (role_of_set hi ?_)
    · rw [settled_of_free hfree]
      exact hmine' rfl
    · rcases hw with rfl | rfl <;> rfl
  | sleep hempty hrunning =>
    refine atomic_congr ?_ rfl (role_of_set hi rfl)
    rw [hmine rfl]
    exact settled_of_free rfl
  | leave hshut =>
    have hqueue : s.settled = s.memory.queue := hmine rfl
    have hgrab : s.atomic.grab = some (.ended, s.atomic) := by
      rw [ThreadpoolT.grab, if_neg, if_pos]
      · simpa only [atomic, hqueue] using hshut
      · rintro ⟨-, hnone⟩
        rcases hshut with himm | ⟨hgrace, -⟩
        · exact absurd (himm.symm.trans hnone) (by simp)
        · exact absurd (hgrace.symm.trans hnone) (by simp)
    refine ⟨hrole, s.atomic, hgrab, ?_⟩
    simp only [atomic, ThreadpoolT.setWorker, hmine' rfl, hqueue, List.map_set]
    rfl
  | take task hbusy hstay hfront =>
    have hqueue : s.settled = s.memory.queue := hmine rfl
    have hgrab : s.atomic.grab =
        some (.running task, { s.atomic with queue := s.memory.queue.pop }) := by
      rw [ThreadpoolT.grab, if_neg, if_neg]
      · simp only [atomic, hqueue, hfront, Option.map_some]
      · simpa only [atomic, hqueue] using hstay
      · simpa only [atomic, hqueue] using hbusy
    refine ⟨hrole, _, hgrab, ?_⟩
    simp only [atomic, ThreadpoolT.setWorker, hmine' rfl, List.map_set]
    rfl
  | advance task =>
    refine atomic_congr ?_ rfl (role_of_set hi rfl)
    rw [hmine rfl]
    exact hmine' rfl
  | count task =>
    refine atomic_congr ?_ rfl (role_of_set hi rfl)
    rw [hmine rfl]
    exact hmine' rfl
  | unlock task =>
    refine atomic_congr ?_ rfl (role_of_set hi rfl)
    rw [hmine rfl]
    exact settled_of_free rfl
  | finish task =>
    refine ⟨hrole, ?_⟩
    have hqueue : settled ⟨s.memory, s.workers.set i .locking, s.calls⟩ = s.settled := by
      refine settled_congr (s := s) rfl rfl fun t ↦ ?_
      cases t with
      | worker j => exact elim_pending_set hi rfl rfl j
      | caller k => rfl
    simp only [atomic, ThreadpoolT.setWorker, hqueue, List.map_set]
    rfl
  | discount =>
    refine atomic_congr ?_ rfl (role_of_set hi rfl)
    rw [hmine rfl]
    exact hmine' rfl
  | exit =>
    refine atomic_congr ?_ rfl (role_of_set hi rfl)
    rw [hmine rfl]
    exact settled_of_free rfl

/-- What `threadpool_add` queues at once is what its statements queue one by one. -/
private theorem addLocked_of_tests {p : ThreadpoolT α} {argument : α} {err : Int32}
    (h : p.queue.count = p.queue.size ∧ err = threadpoolQueueFull ∨
      p.queue.count ≠ p.queue.size ∧ p.shutdown.isSome = true ∧ err = threadpoolShutdown) :
    p.addLocked true true true argument = (err, p) := by
  rcases h with ⟨hfull, rfl⟩ | ⟨hroom, hshut, rfl⟩
  · simp [ThreadpoolT.addLocked, hfull]
  · simp [ThreadpoolT.addLocked, hroom, hshut]

/-- A statement of a call is one step of the pool, or none. -/
theorem caller_visibly {ok : Bool} (h : s.Locked) (hk : s.calls[k]? = some c)
    (hdecided : ∀ graceful, c = .settingShutdown graceful → s.memory.shutdown = none)
    (hmove : CallMove k ok s.memory s.workers c e c' m' workers') :
    Visibly atomicRel s.atomic e (atomic ⟨m', workers', s.calls.set k c'⟩) := by
  have hk' : (s.calls.set k c')[k]? = some c' :=
    List.getElem?_set_self (List.getElem?_eq_some_iff.mp hk).1
  have hmine : c.holds = true → s.settled = c.pending s.memory.queue := fun hc ↦
    settled_of_caller (h.lock_of_caller hk hc) hk
  have hmine' : c'.holds = true →
      settled ⟨m', workers', s.calls.set k c'⟩ = c'.pending m'.queue := fun hc ↦
    settled_of_caller ((h.caller hk hmove).lock_of_caller hk' hc) hk'
  have hroles := role_of_callMove hmove
  -- A call that has nothing to do with the lock has nothing to do with the queue.
  have houtside : c.holds = false → c'.holds = false → m'.queue = s.memory.queue →
      m'.lock = s.memory.lock →
      settled ⟨m', workers', s.calls.set k c'⟩ = s.settled := by
    intro hc hc' hqueue hlock
    refine settled_congr (s := s) hqueue hlock fun t ↦ ?_
    cases t with
    | worker j => exact pending_of_callMove hmove j
    | caller j =>
      exact elim_pending_set hk (CallPoint.pending_of_outside hc)
        (CallPoint.pending_of_outside hc') j
  cases hmove with
  | handOver | giveUp | countThread | countStarted | join | joinFails =>
    exact atomic_congr (houtside rfl rfl rfl rfl) rfl (hroles (by simp))
  | joined err hi hc =>
    refine atomic_congr (houtside rfl ?_ rfl rfl) rfl (hroles (by simp))
    rw [hc]
    split <;> rfl
  | free =>
    refine atomic_congr (houtside rfl rfl ?_ ?_) ?_ (hroles (by simp))
    all_goals split <;> rfl
  | spawn left =>
    have hqueue := houtside rfl rfl rfl rfl
    change atomic _ = _
    simp only [atomic, hqueue, List.map_append, List.map_singleton]
    rfl
  | lock hfree hc =>
    refine atomic_congr ?_ rfl (hroles (by simp))
    rw [settled_of_free hfree]
    rcases hc with ⟨argument, rfl, rfl⟩ | ⟨graceful, rfl, rfl⟩
    · exact hmine' rfl
    · exact hmine' rfl
  | refuse argument hrefused =>
    have hqueue : s.settled = s.memory.queue := hmine rfl
    have hsame : atomic ⟨s.memory, s.workers, s.calls.set k _⟩ = s.atomic :=
      atomic_congr (by rw [hqueue]; exact hmine' rfl) rfl (hroles (by simp))
    change s.atomic.addLocked true true true argument = (_, atomic _)
    rw [hsame]
    apply addLocked_of_tests
    simpa only [atomic, hqueue] using hrefused
  | accept argument hroom hrunning =>
    have hqueue : s.settled = s.memory.queue := hmine rfl
    have hafter : atomic ⟨s.memory, s.workers, s.calls.set k
        (.storing argument ((s.memory.queue.tail + 1) % s.memory.queue.size))⟩ =
        { s.atomic with queue := s.memory.queue.push argument } := by
      simp only [atomic, hmine' rfl]
      rfl
    change s.atomic.addLocked true true true argument = (0, atomic _)
    rw [hafter]
    simp [ThreadpoolT.addLocked, atomic, hqueue, hroom, hrunning]
  | store | setTail | setCount | signalOne | signalNone | signalFails | mayShut | broadcast |
    broadcastFails =>
    refine atomic_congr ?_ rfl (hroles (by simp))
    rw [hmine rfl]
    exact hmine' rfl
  | addUnlock err =>
    refine atomic_congr ?_ rfl (hroles (by simp))
    rw [hmine rfl]
    exact settled_of_free rfl
  | destroyUnlock err =>
    refine atomic_congr ?_ rfl (hroles (by simp))
    rw [hmine rfl]
    exact settled_of_free rfl
  | alreadyShut graceful hshut =>
    have hsame : atomic ⟨s.memory, s.workers, s.calls.set k _⟩ = s.atomic :=
      atomic_congr (by rw [hmine rfl]; exact hmine' rfl) rfl (hroles (by simp))
    change s.atomic.destroy graceful true true = (threadpoolShutdown, atomic _)
    rw [hsame]
    simp [ThreadpoolT.destroy, atomic, hshut]
  | shut graceful =>
    have hqueue := (hmine' rfl).trans (hmine rfl).symm
    change s.atomic.destroy graceful true true = (0, atomic _)
    simp [ThreadpoolT.destroy, atomic, hqueue, hdecided graceful rfl]

end Visibly

/-- Under the lock a call that has found the pool running still finds it so. -/
structure Coordinated (s : PoolThreads α) : Prop where
  locked : s.Locked
  decided : ∀ (k : Nat) (graceful : Bool), s.calls[k]? = some (.settingShutdown graceful) →
    s.memory.shutdown = none

theorem coordinated_initial (cells : List α) (threadCount : Nat) :
    (initial cells threadCount).Coordinated where
  locked := by
    apply Exclusive.of_free
    intro t
    cases t with
    | worker i => rfl
    | caller k => cases k <;> rfl
  decided k graceful hk := rfl

namespace Coordinated

/-- Only the holder of the lock shuts the pool down. -/
theorem shutdown_worker {m : PoolMemory α} (h : WorkerMove i m w e w' m') :
    m'.shutdown = m.shutdown := by
  cases h <;> rfl

/-- A call that still has to shut the pool down. -/
theorem decided_caller {ok : Bool} (h : s.Coordinated) (hk : s.calls[k]? = some c)
    (hmove : CallMove k ok s.memory s.workers c e c' m' workers') (j : Nat) (graceful : Bool)
    (hj : (s.calls.set k c')[j]? = some (.settingShutdown graceful)) : m'.shutdown = none := by
  have hlt := (List.getElem?_eq_some_iff.mp hk).1
  rcases eq_or_ne k j with rfl | hne
  · rw [List.getElem?_set_self hlt] at hj
    obtain rfl := Option.some.inj hj
    cases hmove with
    | lock hfree hc =>
      rcases hc with ⟨argument, -, hc⟩ | ⟨_, -, hc⟩ <;> cases hc
    | mayShut _ hrunning => exact hrunning
    | destroyUnlock err hc => split at hc <;> cases hc
    | joined err hi hc => split at hc <;> cases hc
  · rw [List.getElem?_set_ne hne] at hj
    have hnone := h.decided j graceful hj
    cases hmove with
    | shut =>
      -- Two calls would hold the lock.
      have hboth := h.locked.unique (t := .caller k) (u := .caller j)
        (by simp [inside, hk, CallPoint.holds]) (by simp [inside, hj, CallPoint.holds])
      exact absurd (PoolThread.caller.inj hboth) hne
    | free =>
      split
      · exact hnone
      · exact hnone
    | _ => exact hnone

/-- A new call is not seen. -/
theorem call (h : s.Coordinated) (hc : c.holds = false)
    (hnot : ∀ graceful, c ≠ .settingShutdown graceful) :
    Coordinated { s with calls := s.calls ++ [c] } ∧
      Visibly atomicRel s.atomic none (atomic { s with calls := s.calls ++ [c] }) := by
  refine ⟨⟨h.locked.call hc, fun k graceful hk ↦ ?_⟩, ?_⟩
  · change (s.calls ++ [c])[k]? = _ at hk
    rcases List.mem_append.mp (List.mem_of_getElem? hk) with hold | hnew
    · obtain ⟨j, hj⟩ := List.mem_iff_getElem?.mp hold
      exact h.decided j graceful hj
    · exact absurd (List.mem_singleton.mp hnew).symm (hnot graceful)
  · refine atomic_congr ?_ rfl rfl
    refine settled_congr (s := s) rfl rfl fun t ↦ ?_
    cases t with
    | worker j => rfl
    | caller k => exact elim_pending_concat (CallPoint.pending_of_outside hc) s.calls k

/-- Each step of the threads is a step of the pool, or none, and keeps the discipline. -/
theorem step {t : PoolThreads α} {a : PoolAct α} (h : s.Coordinated)
    (hstep : poolStep s a = some (e, t)) :
    t.Coordinated ∧ Visibly atomicRel s.atomic e t.atomic := by
  cases poolStep_cases hstep with
  | worker hi hmove =>
    refine ⟨⟨h.locked.worker hi hmove, fun k graceful hk ↦ ?_⟩, worker_visibly h.locked hi hmove⟩
    rw [shutdown_worker hmove]
    exact h.decided k graceful hk
  | wake hi =>
    refine ⟨⟨h.locked.wake hi, h.decided⟩, ?_⟩
    refine atomic_congr ?_ rfl (role_of_set hi rfl)
    refine settled_congr (s := s) rfl rfl fun t ↦ ?_
    cases t with
    | worker j => exact elim_pending_set hi rfl rfl j
    | caller k => rfl
  | @caller k _ _ _ _ _ _ _ _ hk hmove =>
    refine ⟨⟨h.locked.caller hk hmove, h.decided_caller hk hmove⟩, ?_⟩
    exact caller_visibly h.locked hk (fun graceful hg ↦ h.decided k graceful (hg ▸ hk)) hmove
  | call _ hc =>
    rcases hc with ⟨argument, rfl, rfl⟩ | ⟨graceful, rfl, rfl⟩
    · exact h.call rfl (by simp)
    · exact h.call rfl (by simp)

end Coordinated
end PoolThreads
end LedaSdk.Utility
