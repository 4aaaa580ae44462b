import LedaSdk.Utility.PoolOrder

/-!
# Shutting the pool down

`threadpool_destroy` returns to its caller when all workers have left; then the pool is
released, once, and no worker uses it any more. The counters `thread_count` and `started` are
written without the lock by `threadpool_create`, and still count the threads.
-/

namespace LedaSdk.Utility
open LedaSdk.Base

variable {α : Type}

/-- A worker that has still to count itself out, line 305. -/
def WorkerPoint.counted : WorkerPoint α → Nat
  | .exiting | .ended => 0
  | _ => 1

namespace CallPoint

/-- The thread that `threadpool_create` has started and not entered in `thread_count`. -/
def uncounted : CallPoint α → Nat
  | .countingThread _ => 1
  | _ => 0

/-- The thread that `threadpool_create` has started and not entered in `started`. -/
def unstarted : CallPoint α → Nat
  | .countingThread _ | .countingStarted _ => 1
  | _ => 0

/-- A call that has set the shutdown and may still release the pool. -/
def closing : CallPoint α → Nat
  | .broadcasting | .joining _ _ | .freeing => 1
  | .destroyUnlocking err => if err = 0 then 1 else 0
  | _ => 0

/-- The threads that `threadpool_create` has still to start. -/
def remaining : CallPoint α → Option Nat
  | .spawning left | .countingThread left | .countingStarted left => some left
  | .handedOver => some 0
  | _ => none

/-- The points of `threadpool_create`. -/
def creating : CallPoint α → Bool
  | .spawning _ | .countingThread _ | .countingStarted _ => true
  | _ => false

/-- The points that the call of `threadpool_create` comes to if it does not return the pool. -/
def ofCreate : CallPoint α → Bool
  | .spawning _ | .countingThread _ | .countingStarted _ | .broadcasting | .destroyUnlocking _
  | .joining _ _ | .freeing | .returned _ => true
  | .destroyLocking graceful | .destroyTesting graceful | .settingShutdown graceful => !graceful
  | _ => false

end CallPoint

namespace PoolThreads
variable {s : PoolThreads α} {m m' : PoolMemory α} {i k : Nat} {w w' : WorkerPoint α}
  {c c' : CallPoint α} {workers workers' : List (WorkerPoint α)} {e : Option (PoolEvent α)}
  {ok : Bool}

/-- Waking workers does not change how many of them are counted. -/
theorem total_counted_wake (workers : List (WorkerPoint α)) :
    total WorkerPoint.counted (workers.map WorkerPoint.wake) =
      total WorkerPoint.counted workers := by
  induction workers with
  | nil => rfl
  | cons w workers ih =>
    rw [List.map_cons, total_cons, total_cons, ih]
    cases w <;> rfl

/-- What a call does to the number of threads, counted and not counted. -/
theorem threads_of_callMove (h : CallMove k ok m workers c e c' m' workers') :
    m'.threadCount + c'.uncounted + workers.length =
      m.threadCount + c.uncounted + workers'.length := by
  cases h with
  | lock _ hc => rcases hc with ⟨_, rfl, rfl⟩ | ⟨_, rfl, rfl⟩ <;> rfl
  | destroyUnlock _ hc | joined _ _ hc =>
    rw [hc]
    split <;> rfl
  | free => split <;> rfl
  | spawn => simp [CallPoint.uncounted]; omega
  | _ => simp [CallPoint.uncounted]

/-- What a call does to the number of threads that have not left. -/
theorem started_of_callMove (h : CallMove k ok m workers c e c' m' workers') :
    m'.started + c'.unstarted + total WorkerPoint.counted workers =
      m.started + c.unstarted + total WorkerPoint.counted workers' := by
  cases h with
  | lock _ hc => rcases hc with ⟨_, rfl, rfl⟩ | ⟨_, rfl, rfl⟩ <;> rfl
  | destroyUnlock _ hc | joined _ _ hc =>
    rw [hc]
    split <;> rfl
  | free => split <;> rfl
  | spawn => simp [CallPoint.unstarted, WorkerPoint.counted]; omega
  | countStarted => simp [CallPoint.unstarted]
  | signalOne _ hasleep =>
    have := total_set WorkerPoint.counted hasleep .woken
    simp [CallPoint.unstarted, WorkerPoint.counted] at this ⊢
    omega
  | broadcast => simp [CallPoint.unstarted, total_counted_wake]
  | _ => simp [CallPoint.unstarted]

/-- A worker's statement and the number of threads that have not left. -/
theorem started_of_workerMove (h : WorkerMove i m w e w' m') :
    m'.started + w.counted = m.started + w'.counted := by
  cases h with
  | lock hw => rcases hw with rfl | rfl <;> rfl
  | discount => simp [WorkerPoint.counted]
  | _ => rfl

/-- What a call does to the shutdown and the release of the pool. -/
theorem closing_of_callMove (h : CallMove k ok m workers c e c' m' workers') :
    (m'.freed = m.freed ∧ m'.shutdown = m.shutdown ∧ c'.closing ≤ c.closing) ∨
      (∃ graceful, c = .settingShutdown graceful ∧ c'.closing = 1 ∧ m'.freed = m.freed ∧
        m'.shutdown.isSome = true) ∨
      (c = .freeing ∧ c' = .returned 0 ∧ m'.shutdown = m.shutdown) := by
  cases h with
  | lock _ hc => rcases hc with ⟨_, rfl, rfl⟩ | ⟨_, rfl, rfl⟩ <;> exact .inl ⟨rfl, rfl, Nat.le_refl _⟩
  | shut graceful => exact .inr (.inl ⟨graceful, rfl, rfl, rfl, rfl⟩)
  | free =>
    refine .inr (.inr ⟨rfl, rfl, ?_⟩)
    split <;> rfl
  | destroyUnlock err hc =>
    refine .inl ⟨rfl, rfl, ?_⟩
    rw [hc]
    split <;> simp [CallPoint.closing, *]
  | joined err hi hc =>
    refine .inl ⟨rfl, rfl, ?_⟩
    rw [hc]
    split <;> simp [CallPoint.closing]
  | _ => exact .inl ⟨rfl, rfl, by simp [CallPoint.closing]⟩

/-- A worker that has ended stays so, and no worker begins at its end. -/
theorem ended_of_callMove (h : CallMove k ok m workers c e c' m' workers') {j : Nat}
    (hj : workers[j]? = some .ended) : workers'[j]? = some .ended := by
  cases h with
  | spawn => rw [List.getElem?_append_left (List.getElem?_eq_some_iff.mp hj).1, hj]
  | @signalOne woken _ hasleep =>
    have hne : woken ≠ j := by
      rintro rfl
      cases hj.symm.trans hasleep
    rw [List.getElem?_set_ne hne, hj]
  | broadcast => rw [List.getElem?_map, hj]; rfl
  | _ => exact hj

/-- The call of `threadpool_create` is over when it has returned the pool. -/
theorem not_callMove_handedOver : ¬ CallMove k ok m workers .handedOver e c' m' workers' := by
  intro h
  cases h with
  | lock _ hc => rcases hc with ⟨_, hc, -⟩ | ⟨_, hc, -⟩ <;> cases hc

/-- No call goes back to the creation of the pool. -/
theorem creating_of_callMove (h : CallMove k ok m workers c e c' m' workers')
    (hc : c.creating = false) : c'.creating = false := by
  cases h with
  | lock _ hc => rcases hc with ⟨_, rfl, rfl⟩ | ⟨_, rfl, rfl⟩ <;> rfl
  | destroyUnlock _ hc | joined _ _ hc =>
    rw [hc]
    split <;> rfl
  | handOver | spawn | countThread | countStarted => cases hc
  | _ => rfl

/-- The workers that are there and those still to be started. -/
theorem remaining_of_callMove (h : CallMove k ok m workers c e c' m' workers') {left' : Nat}
    (hleft : c'.remaining = some left') :
    ∃ left, c.remaining = some left ∧ workers'.length + left' = workers.length + left := by
  cases h with
  | lock _ hc => rcases hc with ⟨_, rfl, rfl⟩ | ⟨_, rfl, rfl⟩ <;> cases hleft
  | destroyUnlock _ hc | joined _ _ hc =>
    rw [hc] at hleft
    split at hleft <;> cases hleft
  | handOver | countThread | countStarted =>
    cases hleft
    exact ⟨_, rfl, rfl⟩
  | spawn left =>
    cases hleft
    refine ⟨_, rfl, ?_⟩
    rw [List.length_append, List.length_singleton]
    omega
  | _ => cases hleft

/-- Only the creation of the pool starts workers. -/
theorem length_of_callMove (h : CallMove k ok m workers c e c' m' workers')
    (hc : c.creating = false) : workers'.length = workers.length := by
  cases h with
  | spawn => cases hc
  | signalOne => rw [List.length_set]
  | broadcast => rw [List.length_map]
  | _ => rfl

/-- If all workers have ended, a call that starts none changes nothing about it. -/
theorem allEnded_of_callMove (h : CallMove k ok m workers c e c' m' workers')
    (hc : c.creating = false) (hall : ∀ w ∈ workers, w = .ended) : ∀ w ∈ workers', w = .ended := by
  cases h with
  | spawn => cases hc
  | signalOne _ hasleep => cases hall _ (List.mem_of_getElem? hasleep)
  | broadcast =>
    intro w hw
    obtain ⟨v, hv, rfl⟩ := List.mem_map.mp hw
    rw [hall v hv]
    rfl
  | _ => exact hall

/-- A worker that moves has not ended, and changes neither the number of threads nor what
`threadpool_destroy` has done. -/
theorem frame_of_workerMove (h : WorkerMove i m w e w' m') :
    w ≠ .ended ∧ m'.threadCount = m.threadCount ∧ m'.shutdown = m.shutdown ∧ m'.freed = m.freed := by
  cases h with
  | lock hw => rcases hw with rfl | rfl <;> exact ⟨nofun, rfl, rfl, rfl⟩
  | _ => exact ⟨nofun, rfl, rfl, rfl⟩

/-- The threads of a pool for `threadCount` workers, how they are counted, and who may release
the pool. -/
structure Managed (threadCount : Nat) (s : PoolThreads α) : Prop where
  called : s.calls ≠ []
  few : s.workers.length ≤ threadCount
  planned : ∀ (c : CallPoint α) (left : Nat), s.calls[0]? = some c → c.remaining = some left →
    s.workers.length + left = threadCount
  counted : s.memory.threadCount + total CallPoint.uncounted s.calls = s.workers.length
  started : s.memory.started + total CallPoint.unstarted s.calls =
    total WorkerPoint.counted s.workers
  /-- Nobody else uses the pool while it is being created. -/
  creation : ∀ (k : Nat) (c : CallPoint α), s.calls[k]? = some c → 0 < k →
    c.creating = false ∧ s.calls[0]? = some .handedOver
  single : total CallPoint.closing s.calls + (if s.memory.freed then 1 else 0) ≤ 1
  running : s.memory.shutdown = none → total CallPoint.closing s.calls = 0 ∧
    s.memory.freed = false
  joined : ∀ (k i : Nat), s.calls[k]? = some (.joining i 0) →
    ∀ j < i, s.workers[j]? = some .ended
  freeing : ∀ k : Nat, s.calls[k]? = some .freeing → ∀ w ∈ s.workers, w = .ended
  freed : s.memory.freed = true → ∀ w ∈ s.workers, w = .ended

theorem managed_initial (cells : List α) (threadCount : Nat) :
    (initial cells threadCount).Managed threadCount where
  called := by simp [initial]
  few := Nat.zero_le _
  planned c left hc hleft := by
    cases hc
    cases hleft
    exact Nat.zero_add _
  counted := rfl
  started := rfl
  creation k c hk hpos := by
    cases k with
    | zero => exact absurd hpos (Nat.lt_irrefl 0)
    | succ k => cases hk
  single := by simp [initial, CallPoint.closing]
  running _ := ⟨rfl, rfl⟩
  joined k i hk := by
    cases k with
    | zero => cases hk
    | succ k => cases hk
  freeing k hk := by
    cases k with
    | zero => cases hk
    | succ k => cases hk
  freed h := by cases h

namespace Managed
variable {n : Nat}

/-- A thread that runs at the same time as a call which is not creating the pool is not creating
it either. -/
theorem not_creating (h : s.Managed n) (hk : s.calls[k]? = some c) (hc : c.creating = false) :
    ∀ c ∈ s.calls, c.creating = false := by
  have h0 : ∀ c, s.calls[0]? = some c → c.creating = false := by
    intro c₀ h0
    rcases Nat.eq_zero_or_pos k with rfl | hpos
    · rw [hk] at h0
      obtain rfl := Option.some.inj h0
      exact hc
    · have hover := (h.creation k c hk hpos).2
      rw [hover] at h0
      obtain rfl := Option.some.inj h0
      rfl
  intro c' hc'
  obtain ⟨j, hj⟩ := List.mem_iff_getElem?.mp hc'
  rcases Nat.eq_zero_or_pos j with rfl | hpos
  · exact h0 c' hj
  · exact (h.creation j c' hj hpos).1

theorem total_eq_zero (h : s.Managed n) (hk : s.calls[k]? = some c) (hc : c.creating = false)
    {f : CallPoint α → Nat} (hf : ∀ c, c.creating = false → f c = 0) : total f s.calls = 0 :=
  Base.total_eq_zero fun c' hc' ↦ hf c' (h.not_creating hk hc c' hc')

/-- Once a call other than that of the creation is there, all threads are counted. -/
theorem threadCount_eq (h : s.Managed n) (hk : s.calls[k]? = some c) (hc : c.creating = false) :
    s.memory.threadCount = s.workers.length ∧
      s.memory.started = total WorkerPoint.counted s.workers := by
  have huncounted := h.total_eq_zero hk hc (f := CallPoint.uncounted)
    fun c hc ↦ by cases c <;> first | rfl | cases hc
  have hunstarted := h.total_eq_zero hk hc (f := CallPoint.unstarted)
    fun c hc ↦ by cases c <;> first | rfl | cases hc
  have hcounted := h.counted
  have hstarted := h.started
  rw [huncounted] at hcounted
  rw [hunstarted] at hstarted
  exact ⟨by omega, by omega⟩

/-- The call that is about to release the pool will do so. -/
theorem releases (h : s.Managed n) (hk : s.calls[k]? = some .freeing) :
    s.memory.freed = false ∧ s.memory.started = 0 ∧ ∀ w ∈ s.workers, w = .ended := by
  have hended := h.freeing k hk
  have hclosing := le_total CallPoint.closing hk
  have hsingle := h.single
  refine ⟨?_, ?_, hended⟩
  · cases hf : s.memory.freed with
    | false => rfl
    | true =>
      rw [hf] at hsingle
      simp only [CallPoint.closing, if_true] at hclosing hsingle
      omega
  · rw [(h.threadCount_eq hk rfl).2, Base.total_eq_zero fun w hw ↦ by rw [hended w hw]; rfl]
    rfl

/-- No call is left that would release the pool again. -/
theorem closing_of_freed (h : s.Managed n) (hf : s.memory.freed = true) :
    ∀ c ∈ s.calls, c.closing = 0 := by
  have hsingle := h.single
  rw [hf] at hsingle
  simp only [if_true] at hsingle
  exact fun c hc ↦ eq_zero_of_total (f := CallPoint.closing) (by omega) hc

/-- A worker that has not ended goes on. -/
theorem setWorker (h : s.Managed n) (hi : s.workers[i]? = some w) (hended : w ≠ .ended)
    (hcount : m'.threadCount = s.memory.threadCount) (hshut : m'.shutdown = s.memory.shutdown)
    (hfreed : m'.freed = s.memory.freed)
    (hmoved : m'.started + w.counted = s.memory.started + w'.counted) :
    Managed n ⟨m', s.workers.set i w', s.calls⟩ := by
  have hnotall : ¬ ∀ w ∈ s.workers, w = .ended := fun hall ↦
    hended (hall w (List.mem_of_getElem? hi))
  constructor
  case called => exact h.called
  case few =>
    rw [List.length_set]
    exact h.few
  case planned =>
    intro c left hc hleft
    rw [List.length_set]
    exact h.planned c left hc hleft
  case counted =>
    rw [List.length_set, hcount]
    exact h.counted
  case started =>
    have hset := total_set WorkerPoint.counted hi w'
    have hstarted := h.started
    change m'.started + total CallPoint.unstarted s.calls =
      (total WorkerPoint.counted (s.workers.set i w') : Nat)
    omega
  case creation => exact h.creation
  case single =>
    rw [hfreed]
    exact h.single
  case running =>
    rw [hshut, hfreed]
    exact h.running
  case joined =>
    intro k j hk l hl
    have hl' := h.joined k j hk l hl
    have hne : i ≠ l := by
      rintro rfl
      exact hended (Option.some.inj (hi.symm.trans hl'))
    rw [List.getElem?_set_ne hne, hl']
  case freeing => exact fun k hk ↦ absurd (h.freeing k hk) hnotall
  case freed =>
    rw [hfreed]
    exact fun hf ↦ absurd (h.freed hf) hnotall

theorem worker (h : s.Managed n) (hi : s.workers[i]? = some w)
    (hmove : WorkerMove i s.memory w e w' m') :
    Managed n ⟨m', s.workers.set i w', s.calls⟩ := by
  obtain ⟨hended, hcount, hshut, hfreed⟩ := frame_of_workerMove hmove
  exact h.setWorker hi hended hcount hshut hfreed (started_of_workerMove hmove)

theorem wake (h : s.Managed n) (hi : s.workers[i]? = some .sleeping) :
    Managed n { s with workers := s.workers.set i .woken } :=
  h.setWorker hi nofun rfl rfl rfl rfl

/-- A call that comes to join the worker after the last one it has joined. -/
theorem joined_of_callMove (h : s.Managed n) (hk : s.calls[k]? = some c)
    (hmove : CallMove k ok s.memory s.workers c e c' m' workers') {j : Nat}
    (hc' : c' = .joining j 0) : ∀ l < j, workers'[l]? = some .ended := by
  cases hmove with
  | lock _ hc => rcases hc with ⟨_, -, rfl⟩ | ⟨_, -, rfl⟩ <;> cases hc'
  | destroyUnlock err hc =>
    rw [hc] at hc'
    split at hc'
    · cases hc'
      exact fun l hl ↦ absurd hl (Nat.not_lt_zero l)
    · cases hc'
  | join err hi hended =>
    cases hc'
    intro l hl
    rcases Nat.lt_or_eq_of_le (Nat.le_of_lt_succ hl) with hlt | rfl
    · exact h.joined k _ hk l hlt
    · exact hended
  | joinFails err hi =>
    injection hc' with _ herr
    exact absurd herr threadpoolThreadFailure_ne
  | joined err hi hc =>
    rw [hc] at hc'
    split at hc' <;> cases hc'
  | _ => cases hc'

/-- A call is about to release the pool only when it has joined all workers. -/
theorem freeing_of_callMove (h : s.Managed n) (hk : s.calls[k]? = some c)
    (hmove : CallMove k ok s.memory s.workers c e c' m' workers') (hc' : c' = .freeing) :
    ∀ w ∈ workers', w = .ended := by
  cases hmove with
  | lock _ hc => rcases hc with ⟨_, -, rfl⟩ | ⟨_, -, rfl⟩ <;> cases hc'
  | destroyUnlock err hc =>
    rw [hc] at hc'
    split at hc' <;> cases hc'
  | @joined i err _ hi hc =>
    rw [hc] at hc'
    split at hc'
    · next herr =>
      rw [herr] at hk
      have hcount := (h.threadCount_eq hk rfl).1
      intro w hw
      obtain ⟨l, hl⟩ := List.mem_iff_getElem?.mp hw
      have hlt := (List.getElem?_eq_some_iff.mp hl).1
      have hended := h.joined k i hk l (by omega)
      exact Option.some.inj (hl.symm.trans hended)
    · cases hc'
  | _ => cases hc'

/-- A call starts no more workers than were asked for. -/
theorem length_le_of_callMove (h : s.Managed n) (hk : s.calls[k]? = some c)
    (hmove : CallMove k ok s.memory s.workers c e c' m' workers') : workers'.length ≤ n := by
  have hfew := h.few
  cases hcreating : c.creating with
  | false =>
    rw [length_of_callMove hmove hcreating]
    exact hfew
  | true =>
    have hk0 : k = 0 := by
      by_contra hne
      have hnot := (h.creation k c hk (Nat.pos_of_ne_zero hne)).1
      rw [hcreating] at hnot
      cases hnot
    subst hk0
    cases hmove with
    | spawn left =>
      have hplanned := h.planned _ _ hk rfl
      rw [List.length_append, List.length_singleton]
      omega
    | signalOne => cases hcreating
    | broadcast => cases hcreating
    | _ => exact hfew

theorem caller (h : s.Managed n) (hco : s.Coordinated) (hfreed : s.memory.freed = false)
    (hk : s.calls[k]? = some c) (hmove : CallMove k ok s.memory s.workers c e c' m' workers') :
    Managed n ⟨m', workers', s.calls.set k c'⟩ := by
  have hlt := (List.getElem?_eq_some_iff.mp hk).1
  have hother : ∀ {j : Nat} {c₂ : CallPoint α}, (s.calls.set k c')[j]? = some c₂ →
      (j = k ∧ c₂ = c') ∨ (j ≠ k ∧ s.calls[j]? = some c₂) := by
    intro j c₂ hj
    rcases eq_or_ne k j with rfl | hne
    · rw [List.getElem?_set_self hlt] at hj
      exact .inl ⟨rfl, (Option.some.inj hj).symm⟩
    · rw [List.getElem?_set_ne hne] at hj
      exact .inr ⟨hne.symm, hj⟩
  have hclosing := total_set CallPoint.closing hk c'
  have hclosing_le := le_total CallPoint.closing hk
  have hcases := closing_of_callMove hmove
  constructor
  case called => simpa using h.called
  case few => exact h.length_le_of_callMove hk hmove
  case planned =>
    intro c₂ left hc₂ hleft
    rcases hother hc₂ with ⟨rfl, rfl⟩ | ⟨hne, hc₂⟩
    · obtain ⟨left', hleft', hlen⟩ := remaining_of_callMove hmove hleft
      have := h.planned c left' hk hleft'
      change workers'.length + left = n
      omega
    · have hnot := (h.creation k c hk (Nat.pos_of_ne_zero hne.symm)).1
      have hplanned := h.planned c₂ left hc₂ hleft
      have hlen := length_of_callMove hmove hnot
      change workers'.length + left = n
      omega
  case counted =>
    have hset := total_set CallPoint.uncounted hk c'
    have hmoved := threads_of_callMove hmove
    have hcounted := h.counted
    change m'.threadCount + total CallPoint.uncounted (s.calls.set k c') = workers'.length
    omega
  case started =>
    have hset := total_set CallPoint.unstarted hk c'
    have hmoved := started_of_callMove hmove
    have hstarted := h.started
    change m'.started + (total CallPoint.unstarted (s.calls.set k c') : Nat) =
      (total WorkerPoint.counted workers' : Nat)
    omega
  case creation =>
    intro j c₂ hj hpos
    rcases hother hj with ⟨rfl, rfl⟩ | ⟨hne, hj⟩
    · obtain ⟨hnot, hover⟩ := h.creation j c hk hpos
      exact ⟨creating_of_callMove hmove hnot, by
        rw [List.getElem?_set_ne (Nat.ne_of_gt hpos)]; exact hover⟩
    · obtain ⟨hnot, hover⟩ := h.creation j c₂ hj hpos
      refine ⟨hnot, ?_⟩
      have hk0 : k ≠ 0 := by
        rintro rfl
        obtain rfl := Option.some.inj (hk.symm.trans hover)
        exact not_callMove_handedOver hmove
      rw [List.getElem?_set_ne hk0]
      exact hover
  case single =>
    have hsingle := h.single
    have hrunning := h.running
    change total CallPoint.closing (s.calls.set k c') + (if m'.freed then 1 else 0) ≤ 1
    rcases hcases with ⟨hf, -, hle⟩ | ⟨graceful, rfl, hone, hf, -⟩ | ⟨rfl, rfl, -⟩
    · rw [hf]
      omega
    · have hzero := (hrunning (hco.decided k graceful hk)).1
      rw [hf, hfreed]
      simp only [Bool.false_eq_true, if_false]
      omega
    · simp only [CallPoint.closing] at hclosing hclosing_le
      split <;> omega
  case running =>
    intro hnone
    have hrunning := h.running
    change m'.shutdown = none at hnone
    change total CallPoint.closing (s.calls.set k c') = 0 ∧ m'.freed = false
    rcases hcases with ⟨hf, hs, hle⟩ | ⟨graceful, -, -, -, hs⟩ | ⟨rfl, rfl, hs⟩
    · rw [hs] at hnone
      have hzero := (hrunning hnone).1
      exact ⟨by omega, hf.trans hfreed⟩
    · rw [hnone] at hs
      cases hs
    · rw [hs] at hnone
      have hzero := (hrunning hnone).1
      simp only [CallPoint.closing] at hclosing_le
      omega
  case joined =>
    intro j l hj
    rcases hother hj with ⟨rfl, hc'⟩ | ⟨-, hj⟩
    · exact h.joined_of_callMove hk hmove hc'.symm
    · exact fun l' hl' ↦ ended_of_callMove hmove (h.joined j l hj l' hl')
  case freeing =>
    intro j hj
    rcases hother hj with ⟨rfl, hc'⟩ | ⟨-, hj⟩
    · exact h.freeing_of_callMove hk hmove hc'.symm
    · exact allEnded_of_callMove hmove (h.not_creating hj rfl c (List.mem_of_getElem? hk))
        (h.freeing j hj)
  case freed =>
    intro hf
    change m'.freed = true at hf
    rcases hcases with ⟨hsame, -, -⟩ | ⟨-, -, -, hsame, -⟩ | ⟨rfl, -, -⟩
    · rw [hsame, hfreed] at hf
      cases hf
    · rw [hsame, hfreed] at hf
      cases hf
    · exact allEnded_of_callMove hmove rfl (h.freeing k hk)

end Managed

theorem handedOver_of_usable (h : s.usable = true) : s.calls[0]? = some .handedOver := by
  simp only [usable, Bool.and_eq_true] at h
  cases h0 : s.calls[0]? with
  | none =>
    rw [h0] at h
    cases h.2
  | some c =>
    rw [h0] at h
    cases c <;> first | rfl | cases h.2

namespace Managed
variable {n : Nat}

/-- A call that only begins, of a pool that was handed out. -/
theorem call (h : s.Managed n) (husable : s.usable = true) (hc : c.creating = false)
    (hclosing : c.closing = 0) : Managed n { s with calls := s.calls ++ [c] } := by
  have hover := handedOver_of_usable husable
  have hlt := (List.getElem?_eq_some_iff.mp hover).1
  have hzero : c.uncounted = 0 ∧ c.unstarted = 0 := by
    cases c <;> first | exact ⟨rfl, rfl⟩ | cases hc
  have hold : ∀ {j : Nat} {c₂ : CallPoint α}, (s.calls ++ [c])[j]? = some c₂ →
      s.calls[j]? = some c₂ ∨ c₂ = c := by
    intro j c₂ hj
    rcases List.mem_append.mp (List.mem_of_getElem? hj) with _ | hnew
    · rcases Nat.lt_or_ge j s.calls.length with hlt | hge
      · rw [List.getElem?_append_left hlt] at hj
        exact .inl hj
      · rw [List.getElem?_append_right hge] at hj
        exact .inr (List.mem_singleton.mp (List.mem_of_getElem? hj))
    · exact .inr (List.mem_singleton.mp hnew)
  constructor
  case called => simp
  case few => exact h.few
  case planned =>
    intro c₂ left hc₂ hleft
    change (s.calls ++ [c])[0]? = _ at hc₂
    rw [List.getElem?_append_left hlt] at hc₂
    exact h.planned c₂ left hc₂ hleft
  case counted =>
    rw [total_concat, hzero.1]
    exact h.counted
  case started =>
    rw [total_concat, hzero.2]
    exact h.started
  case creation =>
    intro j c₂ hj hpos
    change (s.calls ++ [c])[j]? = _ at hj
    rw [List.getElem?_append_left hlt]
    rcases hold hj with hj | rfl
    · exact h.creation j c₂ hj hpos
    · exact ⟨hc, hover⟩
  case single =>
    rw [total_concat, hclosing]
    exact h.single
  case running =>
    rw [total_concat, hclosing]
    exact h.running
  case joined =>
    intro j l hj
    rcases hold hj with hj | rfl
    · exact h.joined j l hj
    · cases hclosing
  case freeing =>
    intro j hj
    rcases hold hj with hj | rfl
    · exact h.freeing j hj
    · cases hclosing
  case freed => exact h.freed

/-- Each step of the threads keeps the counts. -/
theorem step {t : PoolThreads α} {a : PoolAct α} (h : s.Managed n) (hco : s.Coordinated)
    (hstep : poolStep s a = some (e, t)) : t.Managed n := by
  cases poolStep_cases hstep with
  | worker hi hmove => exact h.worker hi hmove
  | wake hi => exact h.wake hi
  | caller hlive hk hmove => exact h.caller hco hlive hk hmove
  | call husable hc =>
    rcases hc with ⟨argument, rfl, rfl⟩ | ⟨graceful, rfl, rfl⟩
    · exact h.call husable rfl rfl
    · exact h.call husable rfl rfl

end Managed

/-- As long as the pool is not handed out, nobody has added a task or asked to wait for the
tasks, and as long as it is being created nobody has shut it down. -/
def Unused (s : PoolThreads α) : Prop :=
  ∀ c : CallPoint α, s.calls[0]? = some c → c = .handedOver ∨
    (c.ofCreate = true ∧ s.memory.shutdown ≠ some .graceful ∧ s.memory.queue.count = 0 ∧
      (c.creating = true → s.memory.shutdown = none))

theorem unused_initial (cells : List α) (threadCount : Nat) :
    (initial cells threadCount).Unused := by
  intro c hc
  cases hc
  exact .inr ⟨rfl, by simp [initial], rfl, fun _ ↦ rfl⟩

namespace Unused
variable {n : Nat}

/-- The call of `threadpool_create` goes on, or returns the pool. -/
theorem callMove (h : CallMove k ok m workers c e c' m' workers') (hc : c.ofCreate = true)
    (hshut : m.shutdown ≠ some .graceful) (hcount : m.queue.count = 0)
    (hnone : c.creating = true → m.shutdown = none) :
    c' = .handedOver ∨
      (c'.ofCreate = true ∧ m'.shutdown ≠ some .graceful ∧ m'.queue.count = 0 ∧
        (c'.creating = true → m'.shutdown = none)) := by
  cases h with
  | handOver => exact .inl rfl
  | lock _ h =>
    rcases h with ⟨_, rfl, -⟩ | ⟨graceful, rfl, rfl⟩
    · cases hc
    · exact .inr ⟨hc, hshut, hcount, nofun⟩
  | mayShut graceful => exact .inr ⟨hc, hshut, hcount, nofun⟩
  | shut graceful =>
    have hfalse : graceful = false := by simpa [CallPoint.ofCreate] using hc
    rw [hfalse]
    exact .inr ⟨rfl, by simp, hcount, nofun⟩
  | destroyUnlock err h | joined err hi h =>
    rw [h]
    refine .inr ⟨?_, hshut, hcount, ?_⟩
    · split <;> rfl
    · split <;> exact nofun
  | free =>
    refine .inr ⟨rfl, ?_, ?_, nofun⟩
    all_goals split <;> assumption
  | spawn | countThread | countStarted => exact .inr ⟨rfl, hshut, hcount, fun _ ↦ hnone rfl⟩
  | giveUp | broadcast | broadcastFails | join | joinFails | alreadyShut =>
    exact .inr ⟨rfl, hshut, hcount, nofun⟩
  | _ => cases hc

theorem step {t : PoolThreads α} {a : PoolAct α} (h : s.Unused) (hm : s.Managed n)
    (hstep : poolStep s a = some (e, t)) : t.Unused := by
  cases poolStep_cases hstep with
  | worker hi hmove =>
    intro c hc
    have hsame := (frame_of_workerMove hmove).2.2.1
    rcases h c hc with rfl | ⟨hown, hshut, hcount, hnone⟩
    · exact .inl rfl
    · refine .inr ⟨hown, hsame ▸ hshut, ?_, hsame ▸ hnone⟩
      cases hmove with
      | count => exact Nat.sub_eq_zero_of_le (by omega)
      | _ => exact hcount
  | wake hi => exact h
  | @caller k _ _ c c' _ _ _ hlive hk hmove =>
    intro c₀ hc₀
    change (s.calls.set k c')[0]? = _ at hc₀
    rcases Nat.eq_zero_or_pos k with rfl | hpos
    · rw [List.getElem?_set_self (List.getElem?_eq_some_iff.mp hk).1] at hc₀
      obtain rfl := Option.some.inj hc₀
      rcases h c hk with rfl | ⟨hown, hshut, hcount, hnone⟩
      · exact absurd hmove not_callMove_handedOver
      · exact callMove hmove hown hshut hcount hnone
    · rw [List.getElem?_set_ne (Nat.ne_of_gt hpos)] at hc₀
      rw [(hm.creation k c hk hpos).2] at hc₀
      exact .inl (Option.some.inj hc₀).symm
  | call husable hc =>
    intro c₀ hc₀
    have hover := handedOver_of_usable husable
    change (s.calls ++ [_])[0]? = _ at hc₀
    rw [List.getElem?_append_left (List.getElem?_eq_some_iff.mp hover).1, hover] at hc₀
    exact .inl (Option.some.inj hc₀).symm

end Unused

section Runs
variable {memory : Nat → α} {threadCount queueSize : Nat} {s₀ : PoolThreads α}
  {tr : List (PoolAct α × Option (PoolEvent α))}

/-- The counts are right after any run. -/
theorem managed (h₀ : create memory threadCount queueSize ok = some s₀) (h : PoolRun s₀ tr s) :
    0 < threadCount ∧ s.Managed threadCount ∧ s.Coordinated ∧ s.Unused := by
  obtain ⟨hpos, cells, -, rfl⟩ := create_cases h₀
  refine ⟨hpos, ?_⟩
  apply Run.invariant (I := fun s ↦ s.Managed threadCount ∧ s.Coordinated ∧ s.Unused) _ _ h
  · exact ⟨managed_initial cells threadCount, coordinated_initial cells threadCount,
      unused_initial cells threadCount⟩
  · exact fun t a b u ⟨hm, hco, hunused⟩ hstep ↦
      ⟨hm.step hco hstep, (hco.step hstep).1, hunused.step hm hstep⟩

/-- No worker is running a task or has one to run after all have ended. -/
theorem executing_of_allEnded (h : ∀ w ∈ s.workers, w = .ended) : s.atomic.executing = [] := by
  rw [ThreadpoolT.executing, atomic, List.filterMap_map, List.filterMap_eq_nil_iff]
  intro w hw
  rw [h w hw]
  rfl

/-- A pool that was told to wait for its tasks had been handed out, with all its workers. -/
theorem workers_of_graceful (hm : s.Managed threadCount) (hunused : s.Unused)
    (hpos : 0 < threadCount) (hgraceful : s.memory.shutdown = some .graceful) :
    s.workers ≠ [] := by
  obtain ⟨c, calls, hc⟩ := List.exists_cons_of_ne_nil hm.called
  have h0 : s.calls[0]? = some c := by rw [hc, List.getElem?_cons_zero]
  rcases hunused c h0 with rfl | ⟨-, hnot, -⟩
  · have hplanned := hm.planned _ 0 h0 rfl
    intro hnil
    rw [hnil, List.length_nil] at hplanned
    omega
  · exact absurd hgraceful hnot

/-- A call of `threadpool_destroy` releases the pool only when all workers have left, it always
succeeds in it, and it is the only one to do so. A released pool has no worker, and if the
shutdown was graceful each accepted task has ended. While `threadpool_create` counts its threads
without the lock, no worker counts itself out. -/
theorem release_is_last (h₀ : create memory threadCount queueSize ok = some s₀)
    (h : PoolRun s₀ tr s) :
    (∀ k : Nat, s.calls[k]? = some .freeing →
        s.memory.freed = false ∧ s.memory.started = 0 ∧ ∀ w ∈ s.workers, w = .ended) ∧
      (s.memory.freed = true →
        (∀ w ∈ s.workers, w = .ended) ∧ (∀ c ∈ s.calls, c.closing = 0) ∧
          ((∃ e ∈ visible tr, PoolEvent.Shuts true e) →
            (accepted (visible tr)).Perm (finished (visible tr)))) ∧
      ∀ c ∈ s.calls, c.creating = true → ∀ w ∈ s.workers, w.role ≠ .ended := by
  obtain ⟨hpos, hm, hco, hunused⟩ := managed h₀ h
  obtain ⟨q, hledger⟩ := ledger h₀ h
  refine ⟨fun k hk ↦ hm.releases hk, fun hf ↦ ?_, fun c hc hcreating w hw hended ↦ ?_⟩
  · have hended := hm.freed hf
    refine ⟨hended, hm.closing_of_freed hf, fun hshuts ↦ ?_⟩
    have hgraceful : s.atomic.shutdown = some .graceful := (hledger.shutdown true).mp hshuts
    have hworkers := workers_of_graceful hm hunused hpos hgraceful
    obtain ⟨w, workers, hw⟩ := List.exists_cons_of_ne_nil hworkers
    have hmem : .ended ∈ s.atomic.workers := by
      rw [atomic, hw, List.map_cons, hended w (by rw [hw]; exact List.mem_cons_self)]
      exact List.mem_cons_self
    have hq : q = [] := by
      rcases hledger.ended hmem with himm | ⟨-, hnil⟩
      · cases hgraceful.symm.trans himm
      · exact hnil
    have hexecuting := hledger.executing
    rw [executing_of_allEnded hended, List.append_nil] at hexecuting
    rw [hledger.order, hq, List.append_nil]
    exact hexecuting
  · obtain ⟨k, hk⟩ := List.mem_iff_getElem?.mp hc
    have hk0 : k = 0 := by
      by_contra hne
      have hnot := (hm.creation k c hk (Nat.pos_of_ne_zero hne)).1
      rw [hcreating] at hnot
      cases hnot
    subst hk0
    have hnone : s.atomic.shutdown = none := by
      rcases hunused c hk with rfl | ⟨-, -, -, hnone⟩
      · cases hcreating
      · exact hnone hcreating
    have hmem : .ended ∈ s.atomic.workers := List.mem_map.mpr ⟨w, hw, hended⟩
    rcases hledger.ended hmem with hs | ⟨hs, -⟩ <;> cases hnone.symm.trans hs

/-- A task is ended before a graceful shutdown, and the pool is released. -/
def oneTaskThenDestroy : List (PoolAct Nat) :=
  oneTask ++ .destroy true :: List.replicate 5 (.caller 2 true 0) ++
    List.replicate 4 (.worker 0) ++ List.replicate 3 (.caller 2 true 0)

theorem release_is_last_one :
    ∃ tr s, exec poolStep (initial [0] 1) oneTaskThenDestroy = some (tr, s) ∧
      s.memory.freed = true ∧ (accepted (visible tr)).Perm (finished (visible tr)) := by
  have hexec : exec poolStep (initial [0] 1) oneTaskThenDestroy = some (_, _) := rfl
  refine ⟨_, _, hexec, rfl, ?_⟩
  obtain ⟨-, -, hperm⟩ := (release_is_last create_one (Run.of_exec poolStep hexec)).2.1 rfl
  exact hperm ⟨.destroyed true 0, by simp [visible], rfl⟩

end Runs

end PoolThreads
end LedaSdk.Utility
