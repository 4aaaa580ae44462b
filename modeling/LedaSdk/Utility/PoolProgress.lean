import LedaSdk.Utility.PoolShutdown

/-!
# Progress of the pool

No wakeup is lost: as long as signals arrive, a worker sleeps only if each queued task has a
worker on its way to it. Hence the threads come to rest, after a bounded number of statements,
only when every call has returned, unless the pool is released, and every accepted task has
ended, unless the pool was shut down at once. A call that is still inside when the pool is
released has no step: what it would do is undefined.
-/

namespace LedaSdk.Utility
open LedaSdk.Base

variable {α : Type}

namespace WorkerPoint

/-- A worker that is on its way to look at the queue. -/
def alert : WorkerPoint α → Nat
  | .locking | .testing | .woken => 1
  | _ => 0

/-- The statements that a worker has before it until it sleeps, leaves or looks at the queue
again. -/
def work : WorkerPoint α → Nat
  | .sleeping | .ended => 0
  | .exiting => 1
  | .leaving => 2
  | .testing => 3
  | .locking | .woken => 4
  | .running _ => 5
  | .unlocking _ => 6
  | .counting _ => 7
  | .advancing _ => 8

end WorkerPoint

namespace CallPoint

/-- A call that has queued a task and has still to signal it. -/
def credit : CallPoint α → Nat
  | .storing _ _ | .settingTail _ | .settingCount | .signalling => 1
  | _ => 0

/-- The statements that a call has before it, with those of the `n` workers that it wakes or
starts. -/
def work (n : Nat) : CallPoint α → Nat
  | .handedOver | .returned _ => 0
  | .spawning left => 7 * left + 1
  | .countingStarted left => 7 * left + 2
  | .countingThread left => 7 * left + 3
  | .addUnlocking _ => 1
  | .signalling => 6
  | .settingCount => 7
  | .settingTail _ => 8
  | .storing _ _ => 9
  | .addTesting _ => 16
  | .addLocking _ => 17
  | .freeing => 1
  | .joining i _ => 2 + (n - i)
  | .destroyUnlocking _ => 3 + n
  | .broadcasting => 4 + 5 * n
  | .settingShutdown _ => 5 + 5 * n
  | .destroyTesting _ => 6 + 5 * n
  | .destroyLocking _ => 7 + 5 * n

end CallPoint

/-- Tasks that an event puts into the queue. -/
def PoolEvent.gain : Option (PoolEvent α) → Nat
  | some (.added _ err) => if err = 0 then 1 else 0
  | _ => 0

/-- Tasks that an event takes from the queue. -/
def PoolEvent.loss : Option (PoolEvent α) → Nat
  | some (.took _ _) => 1
  | _ => 0

/-- The queue grows and shrinks with the events. -/
theorem count_of_visibly {p p' : ThreadpoolT α} {e : Option (PoolEvent α)} {q : List α}
    (hq : p.queue.Holds q) (h : Visibly atomicRel p e p') :
    p'.queue.count + PoolEvent.loss e = p.queue.count + PoolEvent.gain e := by
  cases e with
  | none =>
    rw [show p' = p from h]
    rfl
  | some e =>
    cases e with
    | spawned =>
      rw [show p' = _ from h]
      rfl
    | added argument err =>
      rcases ThreadpoolT.addLocked_cases h with ⟨rfl, -, rfl⟩ | ⟨herr, rfl⟩
      · rfl
      · simp [PoolEvent.gain, PoolEvent.loss, herr]
    | destroyed graceful err =>
      rcases ThreadpoolT.destroy_cases h with ⟨rfl, -⟩ | ⟨-, rfl⟩ <;> rfl
    | took i task =>
      obtain ⟨-, rest, hgrab, rfl⟩ := h
      rcases ThreadpoolT.grab_cases hq hgrab with ⟨hw, -, -⟩ | ⟨_, q', rfl, -, -, rfl⟩
      · cases hw
      · have hcount := hq.count_eq
        rw [List.length_cons] at hcount
        change p.queue.count - 1 + 1 = p.queue.count + 0
        omega
    | left i =>
      obtain ⟨-, rest, hgrab, rfl⟩ := h
      rcases ThreadpoolT.grab_cases hq hgrab with ⟨-, rfl, -⟩ | ⟨_, q', -, hw, -, -⟩
      · rfl
      · cases hw
    | finished i task =>
      obtain ⟨-, rfl⟩ := h
      rfl

namespace PoolThreads
variable {s t : PoolThreads α} {m m' : PoolMemory α} {i k n : Nat} {w w' : WorkerPoint α}
  {c c' : CallPoint α} {workers workers' : List (WorkerPoint α)} {e : Option (PoolEvent α)}
  {a : PoolAct α} {q : List α} {ok : Bool}

/-- A sleeping worker among others, one of which goes on. -/
theorem sleeping_of_set (hw : w' ≠ .sleeping) (h : .sleeping ∈ workers.set i w') :
    .sleeping ∈ workers := by
  rcases List.mem_or_eq_of_mem_set h with hold | hnew
  · exact hold
  · exact absurd hnew.symm hw

/-- What wakes up does not sleep. -/
theorem not_sleeping_wake (w : WorkerPoint α) : w.wake ≠ .sleeping := by
  cases w <;> nofun

/-- No wakeup is lost. -/
structure Roused (s : PoolThreads α) : Prop where
  /-- While a worker sleeps, each queued task has its own worker on its way, or a signal. -/
  covered : s.memory.shutdown = none → .sleeping ∈ s.workers →
    s.settled.count ≤ total WorkerPoint.alert s.workers + total CallPoint.credit s.calls
  /-- No worker sleeps during a shutdown, unless it is just being announced. -/
  roused : s.memory.shutdown ≠ none → .sleeping ∈ s.workers → .broadcasting ∈ s.calls

/-- The signals of a step succeed. -/
def Heard (s : PoolThreads α) : PoolAct α → Prop
  | .caller k ok _ => ok = true ∨
    (s.calls[k]? ≠ some .signalling ∧ s.calls[k]? ≠ some .broadcasting)
  | _ => True

/-- A statement of a worker that neither sleeps nor leaves. -/
theorem alert_of_workerMove (h : WorkerMove i m w e w' m') (hw' : w' ≠ .sleeping)
    (hnone : m.shutdown = none) : w.alert ≤ w'.alert + PoolEvent.loss e := by
  cases h with
  | lock hw => rcases hw with rfl | rfl <;> exact Nat.le_refl _
  | sleep => exact absurd rfl hw'
  | leave hshut => rcases hshut with hs | ⟨hs, -⟩ <;> cases hnone.symm.trans hs
  | _ => simp [WorkerPoint.alert, PoolEvent.loss]

/-- A statement of a call, if its signal succeeds. -/
theorem alert_of_callMove (h : CallMove k ok m workers c e c' m' workers')
    (hheard : ok = true ∨ c ≠ .signalling) (hsleeping : .sleeping ∈ workers) :
    PoolEvent.gain e + total WorkerPoint.alert workers + c.credit ≤
      total WorkerPoint.alert workers' + c'.credit := by
  cases h with
  | lock _ hc => rcases hc with ⟨_, rfl, rfl⟩ | ⟨_, rfl, rfl⟩ <;> simp [PoolEvent.gain, CallPoint.credit]
  | spawn => simp [PoolEvent.gain, CallPoint.credit]
  | signalOne _ hasleep =>
    have hset := total_set WorkerPoint.alert hasleep .woken
    simp only [WorkerPoint.alert] at hset
    simp only [PoolEvent.gain, CallPoint.credit]
    omega
  | signalNone _ hawake => cases hawake _ hsleeping
  | signalFails hfailure =>
    rcases hheard with hok | hne
    · rw [hok] at hfailure
      cases hfailure
    · exact absurd rfl hne
  | refuse argument hrefused =>
    rcases hrefused with ⟨-, rfl⟩ | ⟨-, -, rfl⟩ <;> simp [PoolEvent.gain, CallPoint.credit]
  | accept =>
    simp only [PoolEvent.gain, CallPoint.credit, if_true]
    omega
  | broadcast =>
    have hle : total WorkerPoint.alert workers ≤
        total WorkerPoint.alert (workers.map WorkerPoint.wake) := by
      clear hsleeping
      induction workers with
      | nil => exact Nat.le_refl _
      | cons w workers ih =>
        rw [List.map_cons, total_cons, total_cons]
        have hw : w.alert ≤ w.wake.alert := by
          cases w <;> first | exact Nat.le_refl _ | exact Nat.zero_le _
        omega
    simpa [PoolEvent.gain, CallPoint.credit] using hle
  | destroyUnlock _ hc | joined _ _ hc =>
    rw [hc]
    split <;> simp [PoolEvent.gain, CallPoint.credit]
  | _ => simp [PoolEvent.gain, CallPoint.credit]

namespace Roused

theorem initial (cells : List α) (threadCount : Nat) :
    (PoolThreads.initial cells threadCount).Roused where
  covered _ h := absurd h List.not_mem_nil
  roused _ h := absurd h List.not_mem_nil

theorem worker (h : s.Roused) (hco : s.Coordinated) (hi : s.workers[i]? = some w)
    (hmove : WorkerMove i s.memory w e w' m')
    (hcount : (PoolThreads.settled ⟨m', s.workers.set i w', s.calls⟩).count + PoolEvent.loss e =
      s.settled.count + PoolEvent.gain e) :
    Roused ⟨m', s.workers.set i w', s.calls⟩ := by
  have hshut := (frame_of_workerMove hmove).2.2.1
  have hgain : PoolEvent.gain e = 0 := by cases hmove <;> rfl
  by_cases hsleep : w' = .sleeping
  · -- The queue is empty when a worker falls asleep.
    subst hsleep
    cases hmove with
    | sleep hempty hrunning =>
      have hqueue : s.settled = s.memory.queue :=
        settled_of_worker (hco.locked.lock_of_worker hi rfl) hi
      refine ⟨fun _ _ ↦ ?_, fun hne ↦ absurd hrunning hne⟩
      rw [hqueue, hempty] at hcount
      simp only [PoolEvent.loss, PoolEvent.gain] at hcount
      omega
  · refine ⟨fun hnone hmem ↦ ?_, fun hne hmem ↦ ?_⟩
    · change m'.shutdown = none at hnone
      rw [hshut] at hnone
      have hcovered := h.covered hnone (sleeping_of_set hsleep hmem)
      have halert := alert_of_workerMove hmove hsleep hnone
      have hset := total_set WorkerPoint.alert hi w'
      change _ ≤ total WorkerPoint.alert (s.workers.set i w') + total CallPoint.credit s.calls
      omega
    · change m'.shutdown ≠ none at hne
      rw [hshut] at hne
      exact h.roused hne (sleeping_of_set hsleep hmem)

theorem wake (h : s.Roused) (hi : s.workers[i]? = some .sleeping)
    (hcount : (PoolThreads.settled { s with workers := s.workers.set i .woken }) = s.settled) :
    Roused { s with workers := s.workers.set i .woken } := by
  have hset := total_set WorkerPoint.alert hi .woken
  simp only [WorkerPoint.alert] at hset
  have hwoken : (.woken : WorkerPoint α) ≠ .sleeping := nofun
  refine ⟨fun hnone hmem ↦ ?_, fun hne hmem ↦ h.roused hne (sleeping_of_set hwoken hmem)⟩
  have hcovered := h.covered hnone (sleeping_of_set hwoken hmem)
  rw [hcount]
  change _ ≤ total WorkerPoint.alert (s.workers.set i .woken) + total CallPoint.credit s.calls
  omega

/-- A worker that sleeps after a statement of a call slept before it. -/
theorem sleeping_of_callMove (h : CallMove k ok m workers c e c' m' workers')
    (hmem : .sleeping ∈ workers') : .sleeping ∈ workers ∧ (c = .broadcasting → ok = false) := by
  cases h with
  | spawn =>
    refine ⟨?_, nofun⟩
    rcases List.mem_append.mp hmem with hold | hnew
    · exact hold
    · cases List.mem_singleton.mp hnew
  | signalOne =>
    have hwoken : (.woken : WorkerPoint α) ≠ .sleeping := nofun
    exact ⟨sleeping_of_set hwoken hmem, nofun⟩
  | broadcast =>
    obtain ⟨w, -, hw⟩ := List.mem_map.mp hmem
    exact absurd hw (not_sleeping_wake w)
  | broadcastFails hfailure => exact ⟨hmem, fun _ ↦ hfailure⟩
  | lock _ hc => rcases hc with ⟨_, rfl, -⟩ | ⟨_, rfl, -⟩ <;> exact ⟨hmem, nofun⟩
  | _ => exact ⟨hmem, nofun⟩

theorem caller (h : s.Roused) (hk : s.calls[k]? = some c)
    (hheard : ok = true ∨ (c ≠ .signalling ∧ c ≠ .broadcasting))
    (hmove : CallMove k ok s.memory s.workers c e c' m' workers')
    (hcount : (PoolThreads.settled ⟨m', workers', s.calls.set k c'⟩).count + PoolEvent.loss e =
      s.settled.count + PoolEvent.gain e) :
    Roused ⟨m', workers', s.calls.set k c'⟩ := by
  have hlt := (List.getElem?_eq_some_iff.mp hk).1
  refine ⟨fun hnone hmem ↦ ?_, fun hne hmem ↦ ?_⟩
  · obtain ⟨hold, -⟩ := sleeping_of_callMove hmove hmem
    have halert := alert_of_callMove hmove (hheard.imp_right And.left) hold
    have hset := total_set CallPoint.credit hk c'
    have hsame : s.memory.shutdown = none := by
      rcases closing_of_callMove hmove with ⟨-, hs, -⟩ | ⟨_, -, -, -, hs⟩ | ⟨-, -, hs⟩
      · exact hs.symm.trans hnone
      · change m'.shutdown = none at hnone
        rw [hnone] at hs
        cases hs
      · exact hs.symm.trans hnone
    have hcovered := h.covered hsame hold
    change _ ≤ total WorkerPoint.alert workers' + total CallPoint.credit (s.calls.set k c')
    omega
  · obtain ⟨hold, hfails⟩ := sleeping_of_callMove hmove hmem
    change .broadcasting ∈ s.calls.set k c'
    have hstay : c ≠ .broadcasting → .broadcasting ∈ s.calls → .broadcasting ∈ s.calls.set k c' := by
      intro hc hb
      obtain ⟨j, hj⟩ := List.mem_iff_getElem?.mp hb
      have hne : k ≠ j := by
        rintro rfl
        exact hc (Option.some.inj (hk.symm.trans hj))
      exact List.mem_of_getElem? (i := j) (by rw [List.getElem?_set_ne hne, hj])
    have hc : c ≠ .broadcasting := by
      rintro rfl
      rcases hheard with hok | ⟨-, hnot⟩
      · rw [hfails rfl] at hok
        cases hok
      · exact hnot rfl
    rcases closing_of_callMove hmove with ⟨-, hs, -⟩ | ⟨g, rfl, -, -, -⟩ | ⟨-, -, hs⟩
    · exact hstay hc (h.roused (hs ▸ hne) hold)
    · cases hmove with
      | lock _ hc => rcases hc with ⟨_, hc, -⟩ | ⟨_, hc, -⟩ <;> cases hc
      | shut => exact List.mem_of_getElem? (List.getElem?_set_self hlt)
    · exact hstay hc (h.roused (hs ▸ hne) hold)

theorem call (h : s.Roused) (hcredit : c.credit = 0)
    (hcount : (PoolThreads.settled { s with calls := s.calls ++ [c] }) = s.settled) :
    Roused { s with calls := s.calls ++ [c] } := by
  refine ⟨fun hnone hmem ↦ ?_, fun hne hmem ↦ List.mem_append_left _ (h.roused hne hmem)⟩
  rw [hcount, total_concat, hcredit]
  exact h.covered hnone hmem

/-- Each step whose signals succeed loses no wakeup. -/
theorem step (h : s.Roused) (hco : s.Coordinated) (hq : s.atomic.queue.Holds q)
    (hheard : s.Heard a) (hstep : poolStep s a = some (e, t)) : t.Roused := by
  have hcount : t.settled.count + PoolEvent.loss e = s.settled.count + PoolEvent.gain e :=
    count_of_visibly hq (hco.step hstep).2
  have hsilent : e = none → t.settled = s.settled := by
    rintro rfl
    have hvis : t.atomic = s.atomic := (hco.step hstep).2
    exact congrArg ThreadpoolT.queue hvis
  cases poolStep_cases hstep with
  | worker hi hmove => exact h.worker hco hi hmove hcount
  | wake hi => exact h.wake hi (hsilent rfl)
  | caller hlive hk hmove =>
    refine h.caller hk (hheard.imp_right fun hnot ↦ ?_) hmove hcount
    rw [hk] at hnot
    exact ⟨fun he ↦ hnot.1 (congrArg some he), fun he ↦ hnot.2 (congrArg some he)⟩
  | call _ hc =>
    rcases hc with ⟨argument, rfl, rfl⟩ | ⟨graceful, rfl, rfl⟩
    · exact h.call rfl (hsilent rfl)
    · exact h.call rfl (hsilent rfl)

end Roused

/-- A step that only goes on with what was begun, where all library functions succeed. -/
def Onward : PoolAct α → Prop
  | .worker _ => True
  | .caller _ ok _ => ok = true
  | _ => False

/-- The steps of the threads that only go on. -/
def onwardRel : StepRel (PoolThreads α) (PoolAct α) (Option (PoolEvent α)) :=
  StepRel.guard (fun _ a ↦ Onward a) (StepRel.ofFn poolStep)

/-- What has to hold of the threads for their progress. -/
structure Orderly (n : Nat) (s : PoolThreads α) : Prop where
  managed : s.Managed n
  coordinated : s.Coordinated
  unused : s.Unused
  roused : s.Roused
  ledger : ∃ es q, Ledger es s.atomic q

/-- The statements that the threads have before them, at most. -/
def workload (n : Nat) (s : PoolThreads α) : Nat :=
  total WorkerPoint.work s.workers + total (CallPoint.work n) s.calls + 6 * s.settled.count

/-- A statement of a worker is done with. -/
theorem work_of_workerMove (h : WorkerMove i m w e w' m') :
    w'.work < w.work + 6 * PoolEvent.loss e ∧ PoolEvent.gain e = 0 := by
  cases h with
  | lock hw => rcases hw with rfl | rfl <;> exact ⟨by simp [WorkerPoint.work, PoolEvent.loss], rfl⟩
  | _ => exact ⟨by simp [WorkerPoint.work, PoolEvent.loss], rfl⟩

/-- Waking all workers. -/
theorem work_of_wake (workers : List (WorkerPoint α)) :
    total WorkerPoint.work (workers.map WorkerPoint.wake) ≤
      total WorkerPoint.work workers + 4 * workers.length := by
  induction workers with
  | nil => exact Nat.le_refl _
  | cons w workers ih =>
    have hw : w.wake.work ≤ w.work + 4 := by
      cases w <;> simp [WorkerPoint.wake, WorkerPoint.work]
    rw [List.map_cons, total_cons, total_cons, List.length_cons]
    omega

/-- A statement of a call is done with, whoever it wakes or starts. -/
theorem work_of_callMove (h : CallMove k true m workers c e c' m' workers')
    (hcount : m.threadCount ≤ n) (hfew : workers.length ≤ n) :
    c'.work n + total WorkerPoint.work workers' + 6 * PoolEvent.gain e <
      c.work n + total WorkerPoint.work workers ∧ PoolEvent.loss e = 0 := by
  cases h with
  | giveUp _ hfailure | signalFails hfailure | broadcastFails hfailure => cases hfailure
  | lock _ hc =>
    rcases hc with ⟨_, rfl, rfl⟩ | ⟨_, rfl, rfl⟩
    · exact ⟨by simp [CallPoint.work, PoolEvent.gain], rfl⟩
    · refine ⟨?_, rfl⟩
      simp only [CallPoint.work, PoolEvent.gain]
      omega
  | refuse argument hrefused =>
    refine ⟨?_, rfl⟩
    rcases hrefused with ⟨-, rfl⟩ | ⟨-, -, rfl⟩ <;>
      simp [CallPoint.work, PoolEvent.gain]
  | accept =>
    refine ⟨?_, rfl⟩
    simp only [CallPoint.work, PoolEvent.gain, if_true]
    omega
  | spawn left =>
    refine ⟨?_, rfl⟩
    rw [total_concat]
    simp only [CallPoint.work, WorkerPoint.work, PoolEvent.gain]
    omega
  | signalOne _ hasleep =>
    refine ⟨?_, rfl⟩
    have hset := total_set WorkerPoint.work hasleep .woken
    simp only [WorkerPoint.work] at hset
    simp only [CallPoint.work, PoolEvent.gain]
    omega
  | broadcast =>
    refine ⟨?_, rfl⟩
    have hwake := work_of_wake workers
    simp only [CallPoint.work, PoolEvent.gain]
    omega
  | destroyUnlock err hc =>
    refine ⟨?_, rfl⟩
    rw [hc]
    split <;> simp only [CallPoint.work, PoolEvent.gain] <;> omega
  | joined err hi hc =>
    refine ⟨?_, rfl⟩
    rw [hc]
    split <;> simp only [CallPoint.work, PoolEvent.gain] <;> omega
  | _ =>
    refine ⟨?_, rfl⟩
    simp only [CallPoint.work, PoolEvent.gain]
    omega

namespace Orderly

theorem initial {cells : List α} (hcells : cells ≠ []) (n : Nat) :
    (PoolThreads.initial cells n).Orderly n where
  managed := managed_initial cells n
  coordinated := coordinated_initial cells n
  unused := unused_initial cells n
  roused := .initial cells n
  ledger := ⟨[], [], .initial hcells⟩

/-- Each step whose signals succeed keeps the order. -/
theorem step (h : s.Orderly n) (hheard : s.Heard a) (hstep : poolStep s a = some (e, t)) :
    t.Orderly n := by
  obtain ⟨es, q, hledger⟩ := h.ledger
  obtain ⟨hco, hvis⟩ := h.coordinated.step hstep
  refine ⟨h.managed.step h.coordinated hstep, hco, h.unused.step h.managed hstep,
    h.roused.step h.coordinated hledger.holds hheard hstep, ?_⟩
  cases e with
  | none => exact ⟨es, q, (show t.atomic = s.atomic from hvis) ▸ hledger⟩
  | some e => exact ⟨_, hledger.step hvis⟩

/-- Each step that goes on is work done. -/
theorem workload_lt (h : s.Orderly n) (hon : Onward a) (hstep : poolStep s a = some (e, t)) :
    workload n t < workload n s := by
  obtain ⟨es, q, hledger⟩ := h.ledger
  have hcount : t.settled.count + PoolEvent.loss e = s.settled.count + PoolEvent.gain e :=
    count_of_visibly hledger.holds (h.coordinated.step hstep).2
  cases poolStep_cases hstep with
  | @worker i w w' _ m' hi hmove =>
    obtain ⟨hwork, hgain⟩ := work_of_workerMove hmove
    have hset := total_set WorkerPoint.work hi w'
    change total WorkerPoint.work (s.workers.set i w') + total (CallPoint.work n) s.calls +
      6 * (settled ⟨m', s.workers.set i w', s.calls⟩).count < workload n s
    rw [workload]
    omega
  | @caller k _ ok c c' _ m' workers' hlive hk hmove =>
    obtain rfl : ok = true := hon
    have hcounted := h.managed.counted
    have hfew := h.managed.few
    obtain ⟨hwork, hloss⟩ := work_of_callMove (n := n) hmove (by omega) hfew
    have hset := total_set (CallPoint.work n) hk c'
    change total WorkerPoint.work workers' + total (CallPoint.work n) (s.calls.set k c') +
      6 * (settled ⟨m', workers', s.calls.set k c'⟩).count < workload n s
    rw [workload]
    omega
  | wake => cases hon
  | call _ hc => rcases hc with ⟨_, rfl, -⟩ | ⟨_, rfl, -⟩ <;> cases hon

/-- Steps that go on keep the order and are work done. -/
theorem onward (h : s.Orderly n) (hstep : onwardRel s a e t) :
    t.Orderly n ∧ workload n t < workload n s := by
  obtain ⟨hon, hstep⟩ := hstep
  refine ⟨h.step ?_ hstep, h.workload_lt hon hstep⟩
  cases a with
  | caller k ok woken => exact .inl hon
  | _ => trivial

section Rest

/-- A worker that neither sleeps nor has ended can go on, if the lock is free or its own. -/
theorem worker_goes_on (h : s.Orderly n) (hi : s.workers[i]? = some w)
    (hlock : s.memory.lock = none ∨ w.holds = true) (hsleeping : w ≠ .sleeping)
    (hended : w ≠ .ended) : (workerStep i s.memory w).isSome = true := by
  have hacquire : w.holds = false →
      ((s.memory.acquire (.worker i)).map fun m ↦ ((none : Option (PoolEvent α)),
        (.testing : WorkerPoint α), m)).isSome = true := by
    intro hw
    rcases hlock with hfree | hholds
    · rw [PoolMemory.acquire, if_pos hfree]
      rfl
    · rw [hw] at hholds
      cases hholds
  cases w with
  | locking | woken => exact hacquire rfl
  | testing =>
    rw [workerStep]
    split
    · rfl
    · next hbusy =>
      split
      · rfl
      · next hstay =>
        obtain ⟨es, q, hledger⟩ := h.ledger
        have hqueue : s.settled = s.memory.queue :=
          settled_of_worker (h.coordinated.locked.lock_of_worker hi rfl) hi
        have hholds : s.memory.queue.Holds q := hqueue ▸ hledger.holds
        cases q with
        | nil =>
          exfalso
          have hempty : s.memory.queue.count = 0 := hholds.count_eq
          cases hs : s.memory.shutdown with
          | none => exact hbusy ⟨hempty, hs⟩
          | some kind =>
            cases kind with
            | immediate => exact hstay (.inl hs)
            | graceful => exact hstay (.inr ⟨hs, hempty⟩)
        | cons task rest =>
          rw [hholds.front?_eq]
          rfl
  | sleeping => exact absurd rfl hsleeping
  | ended => exact absurd rfl hended
  | _ => rfl

/-- A call that has not returned can go on, if the lock is free or its own, and the worker that
it joins has ended. -/
theorem caller_goes_on (hlock : s.memory.lock = none ∨ c.holds = true)
    (hover : c ≠ .handedOver) (hreturned : ∀ err, c ≠ .returned err)
    (hjoin : ∀ i err, c = .joining i err → i < s.memory.threadCount →
      s.workers[i]? = some .ended) :
    ∃ woken, (callStep k true woken s.memory s.workers c).isSome = true := by
  have hacquire : c.holds = false → ∃ m, s.memory.acquire (.caller k) = some m := by
    intro hc
    rcases hlock with hfree | hholds
    · exact ⟨_, if_pos hfree⟩
    · rw [hc] at hholds
      cases hholds
  cases c with
  | spawning left => exact ⟨0, by cases left <;> rfl⟩
  | addLocking | destroyLocking =>
    obtain ⟨m, hm⟩ := hacquire rfl
    exact ⟨0, by rw [callStep, hm]; rfl⟩
  | addTesting =>
    refine ⟨0, ?_⟩
    rw [callStep]
    split
    · rfl
    · split <;> rfl
  | destroyTesting =>
    refine ⟨0, ?_⟩
    rw [callStep]
    split <;> rfl
  | signalling =>
    by_cases hany : s.workers.any WorkerPoint.isSleeping = true
    · obtain ⟨w, hw, hasleep⟩ := List.any_eq_true.mp hany
      obtain ⟨j, hj⟩ := List.mem_iff_getElem?.mp hw
      refine ⟨j, ?_⟩
      have hwoken : (s.workers[j]?).any WorkerPoint.isSleeping = true := by
        rw [hj]
        exact hasleep
      simp [callStep, signal, hany, hwoken]
    · exact ⟨0, by simp [callStep, signal, hany]⟩
  | joining i err =>
    refine ⟨0, ?_⟩
    rw [callStep]
    split
    · next hi =>
      rw [hjoin i err rfl hi]
      rfl
    · rfl
  | handedOver => exact absurd rfl hover
  | returned err => exact absurd rfl (hreturned err)
  | _ => exact ⟨0, rfl⟩

end Rest

end Orderly

/-- The threads are done: the workers sleep, or have ended if the pool was shut down, and unless
the pool is released every call has returned. -/
structure AtRest (s : PoolThreads α) : Prop where
  workers : ∀ w ∈ s.workers, w = .sleeping ∨ w = .ended
  calls : s.memory.freed = false → ∀ c ∈ s.calls, c = .handedOver ∨ ∃ err, c = .returned err
  idle : s.memory.shutdown = none → s.settled.count = 0
  shut : s.memory.shutdown ≠ none → ∀ w ∈ s.workers, w = .ended

namespace Orderly

/-- A thread that can go on. -/
theorem not_halted_worker (hi : s.workers[i]? = some w)
    (h : (workerStep i s.memory w).isSome = true) : ¬ Halted onwardRel s := by
  intro hhalt
  obtain ⟨⟨e, w', m'⟩, hw⟩ := Option.isSome_iff_exists.mp h
  exact hhalt (.worker i) e ⟨m', s.workers.set i w', s.calls⟩ ⟨trivial, by
    simp [StepRel.ofFn, poolStep, hi, hw]⟩

theorem not_halted_caller {woken : Nat} (hlive : s.memory.freed = false)
    (hk : s.calls[k]? = some c)
    (h : (callStep k true woken s.memory s.workers c).isSome = true) : ¬ Halted onwardRel s := by
  intro hhalt
  obtain ⟨⟨e, c', m', workers'⟩, hc⟩ := Option.isSome_iff_exists.mp h
  exact hhalt (.caller k true woken) e ⟨m', workers', s.calls.set k c'⟩ ⟨rfl, by
    simp [StepRel.ofFn, poolStep, hlive, hk, hc]⟩

/-- The holder of the lock can always go on. -/
theorem lock_free (h : s.Orderly n) (hlive : s.memory.freed = false)
    (hhalt : Halted onwardRel s) : s.memory.lock = none := by
  cases hlock : s.memory.lock with
  | none => rfl
  | some t =>
    exfalso
    have hinside : s.inside t = true := (h.coordinated.locked t).mpr hlock
    cases t with
    | worker i =>
      obtain ⟨w, hi, hw⟩ := Option.any_eq_true _ _ |>.mp hinside
      have hsleeping : w ≠ .sleeping := by
        rintro rfl
        cases hw
      have hended : w ≠ .ended := by
        rintro rfl
        cases hw
      exact not_halted_worker hi (h.worker_goes_on hi (.inr hw) hsleeping hended) hhalt
    | caller k =>
      obtain ⟨c, hk, hc⟩ := Option.any_eq_true _ _ |>.mp hinside
      have hcall : ∃ woken, (callStep k true woken s.memory s.workers c).isSome = true := by
        apply caller_goes_on (.inr hc)
        · rintro rfl
          cases hc
        · rintro err rfl
          cases hc
        · rintro i err rfl
          cases hc
      obtain ⟨woken, hstep⟩ := hcall
      exact not_halted_caller hlive hk hstep hhalt

/-- No call is announcing a shutdown while the lock is free. -/
theorem not_sleeping_of_shut (h : s.Orderly n) (hfree : s.memory.lock = none)
    (hshut : s.memory.shutdown ≠ none) : .sleeping ∉ s.workers := by
  intro hmem
  obtain ⟨k, hk⟩ := List.mem_iff_getElem?.mp (h.roused.roused hshut hmem)
  have hlock := h.coordinated.locked.lock_of_caller hk rfl
  rw [hfree] at hlock
  cases hlock

/-- While the lock is free, nobody is about to signal a task. -/
theorem credit_of_free (h : s.Orderly n) (hfree : s.memory.lock = none) :
    total CallPoint.credit s.calls = 0 := by
  apply Base.total_eq_zero
  intro c hc
  obtain ⟨k, hk⟩ := List.mem_iff_getElem?.mp hc
  cases hholds : c.holds with
  | true =>
    have hlock := h.coordinated.locked.lock_of_caller hk hholds
    rw [hfree] at hlock
    cases hlock
  | false => cases c <;> first | rfl | cases hholds

/-- When no thread can go on, all are done. -/
theorem atRest (h : s.Orderly n) (hpos : 0 < n) (hhalt : Halted onwardRel s) : s.AtRest := by
  cases hfreed : s.memory.freed with
  | true =>
    have hended := h.managed.freed hfreed
    refine ⟨fun w hw ↦ .inr (hended w hw), fun hf ↦ ?_, fun hnone ↦ ?_, fun _ ↦ hended⟩
    · rw [hfreed] at hf
      cases hf
    · have hf := (h.managed.running hnone).2
      rw [hfreed] at hf
      cases hf
  | false =>
    have hfree := h.lock_free hfreed hhalt
    have hworkers : ∀ w ∈ s.workers, w = .sleeping ∨ w = .ended := by
      intro w hw
      obtain ⟨i, hi⟩ := List.mem_iff_getElem?.mp hw
      by_contra hnot
      rw [not_or] at hnot
      exact not_halted_worker hi (h.worker_goes_on hi (.inl hfree) hnot.1 hnot.2) hhalt
    have hshut : s.memory.shutdown ≠ none → ∀ w ∈ s.workers, w = .ended := by
      intro hs w hw
      rcases hworkers w hw with rfl | hended
      · exact absurd hw (h.not_sleeping_of_shut hfree hs)
      · exact hended
    refine ⟨hworkers, fun _ c hc ↦ ?_, fun hnone ↦ ?_, hshut⟩
    · obtain ⟨k, hk⟩ := List.mem_iff_getElem?.mp hc
      by_contra hnot
      rw [not_or, not_exists] at hnot
      have hcall : ∃ woken, (callStep k true woken s.memory s.workers c).isSome = true := by
        apply caller_goes_on (.inl hfree) hnot.1 hnot.2
        rintro i err rfl hi
        -- A call that joins has shut the pool down.
        have hclosing := le_total CallPoint.closing hk
        have hs : s.memory.shutdown ≠ none := by
          intro hnone
          have hzero := (h.managed.running hnone).1
          simp only [CallPoint.closing] at hclosing
          omega
        have hcount := (h.managed.threadCount_eq hk rfl).1
        have hlt : i < s.workers.length := by omega
        have hi' := List.getElem?_eq_getElem hlt
        rw [hi', hshut hs _ (List.getElem_mem hlt)]
      obtain ⟨woken, hstep⟩ := hcall
      exact not_halted_caller hfreed hk hstep hhalt
    · by_cases hsleeping : .sleeping ∈ s.workers
      · have hcovered := h.roused.covered hnone hsleeping
        have halert : total WorkerPoint.alert s.workers = 0 := by
          apply Base.total_eq_zero
          intro w hw
          rcases hworkers w hw with rfl | rfl <;> rfl
        rw [halert, h.credit_of_free hfree] at hcovered
        omega
      · cases hw : s.workers with
        | nil =>
          -- Without workers the pool was not handed out.
          obtain ⟨c, calls, hc⟩ := List.exists_cons_of_ne_nil h.managed.called
          have h0 : s.calls[0]? = some c := by rw [hc, List.getElem?_cons_zero]
          rcases h.unused c h0 with rfl | ⟨-, -, hcount, -⟩
          · have hplanned := h.managed.planned _ 0 h0 rfl
            rw [hw, List.length_nil] at hplanned
            omega
          · rw [settled_of_free hfree]
            exact hcount
        | cons w workers =>
          exfalso
          have hmem : w ∈ s.workers := by rw [hw]; exact List.mem_cons_self
          obtain rfl : w = .ended := by
            rcases hworkers w hmem with rfl | hended
            · exact absurd hmem hsleeping
            · exact hended
          obtain ⟨es, q, hledger⟩ := h.ledger
          have hrole : .ended ∈ s.atomic.workers := List.mem_map.mpr ⟨_, hmem, rfl⟩
          rcases hledger.ended hrole with hs | ⟨hs, -⟩ <;> cases hnone.symm.trans hs

end Orderly

section Runs
variable {memory : Nat → α} {threadCount queueSize : Nat} {s₀ : PoolThreads α}
  {tr tr' : List (PoolAct α × Option (PoolEvent α))}

/-- A run of the threads of a pool in which all signals arrive. -/
abbrev HeardRun (s : PoolThreads α) (tr : List (PoolAct α × Option (PoolEvent α)))
    (t : PoolThreads α) : Prop := Run (StepRel.guard Heard (StepRel.ofFn poolStep)) s tr t

theorem orderly (h₀ : create memory threadCount queueSize ok = some s₀) (h : HeardRun s₀ tr s) :
    0 < threadCount ∧ s.Orderly threadCount := by
  obtain ⟨hpos, cells, hcells, rfl⟩ := create_cases h₀
  refine ⟨hpos, Run.invariant (I := Orderly threadCount) (.initial hcells threadCount) ?_ h⟩
  exact fun t a b u ht ⟨hheard, hstep⟩ ↦ ht.step hheard hstep

/-- No wakeup is lost: while the lock is free, each task in the queue has its own worker on its
way to it before any worker sleeps, and no worker sleeps once the pool is shut down. -/
theorem no_lost_wakeup (h₀ : create memory threadCount queueSize ok = some s₀)
    (h : HeardRun s₀ tr s) (hfree : s.memory.lock = none) (hsleeping : .sleeping ∈ s.workers) :
    s.memory.shutdown = none ∧ s.memory.queue.count ≤ total WorkerPoint.alert s.workers := by
  obtain ⟨-, hs⟩ := orderly h₀ h
  have hnone : s.memory.shutdown = none := by
    by_contra hshut
    exact hs.not_sleeping_of_shut hfree hshut hsleeping
  have hcovered := hs.roused.covered hnone hsleeping
  rw [hs.credit_of_free hfree, settled_of_free hfree] at hcovered
  exact ⟨hnone, hcovered⟩

/-- Steps that go on continue a run. -/
theorem HeardRun.onward (h : HeardRun s₀ tr s) (h' : Run onwardRel s tr' t) :
    HeardRun s₀ (tr ++ tr') t := by
  apply h.append
  apply h'.mono
  rintro s a b u ⟨hon, hstep⟩
  refine ⟨?_, hstep⟩
  cases a with
  | caller k ok woken => exact .inl hon
  | _ => trivial

/-- At rest every accepted task has ended, unless the pool was shut down at once. -/
theorem finished_of_atRest (h₀ : create memory threadCount queueSize ok = some s₀)
    (h : HeardRun s₀ tr s) (hrest : s.AtRest) (hnot : s.memory.shutdown ≠ some .immediate) :
    (accepted (visible tr)).Perm (finished (visible tr)) := by
  obtain ⟨hpos, hs⟩ := orderly h₀ h
  obtain ⟨q, hledger⟩ := ledger h₀ (h.mono fun _ _ _ _ hstep ↦ hstep.2)
  have hq : q = [] := by
    cases hshut : s.memory.shutdown with
    | none =>
      have hcount := hrest.idle hshut
      rw [hledger.holds.count_eq.symm.trans hcount |> List.length_eq_zero_iff.mp]
    | some kind =>
      cases kind with
      | immediate => exact absurd hshut hnot
      | graceful =>
        have hworkers := workers_of_graceful hs.managed hs.unused hpos hshut
        obtain ⟨w, workers, hw⟩ := List.exists_cons_of_ne_nil hworkers
        have hmem : w ∈ s.workers := by rw [hw]; exact List.mem_cons_self
        have hended := hrest.shut (by rw [hshut]; nofun) w hmem
        have hrole : .ended ∈ s.atomic.workers := List.mem_map.mpr ⟨w, hmem, by rw [hended]; rfl⟩
        rcases hledger.ended hrole with himm | ⟨-, hnil⟩
        · cases hshut.symm.trans himm
        · exact hnil
  have hexecuting : s.atomic.executing = [] := by
    rw [ThreadpoolT.executing, atomic, List.filterMap_map, List.filterMap_eq_nil_iff]
    intro w hw
    rcases hrest.workers w hw with rfl | rfl <;> rfl
  have hperm := hledger.executing
  rw [hexecuting, List.append_nil] at hperm
  rw [hledger.order, hq, List.append_nil]
  exact hperm

/-- If nobody calls the pool any more and no worker wakes without a reason, the threads come to
rest after a bounded number of statements, and then every call has returned, unless the pool is
released, and every accepted task has ended, unless the pool was shut down at once. -/
theorem threads_come_to_rest (h₀ : create memory threadCount queueSize ok = some s₀)
    (h : HeardRun s₀ tr s) :
    (∃ tr' t, Run onwardRel s tr' t ∧ Halted onwardRel t) ∧
      ∀ tr' t, Run onwardRel s tr' t →
        tr'.length ≤ workload threadCount s ∧
          (Halted onwardRel t → t.AtRest ∧ (t.memory.shutdown ≠ some .immediate →
            (accepted (visible (tr ++ tr'))).Perm (finished (visible (tr ++ tr'))))) := by
  obtain ⟨hpos, hs⟩ := orderly h₀ h
  refine ⟨Run.exists_halted (I := Orderly threadCount) (μ := workload threadCount) hs
    fun t a b u ht hstep ↦ ht.onward hstep, fun tr' t hrun ↦ ?_⟩
  obtain ⟨ht, hlen⟩ := Run.length_add_le (I := Orderly threadCount) (μ := workload threadCount) hs
    (fun t a b u ht hstep ↦ ht.onward hstep) hrun
  refine ⟨by omega, fun hhalt ↦ ?_⟩
  have hrest := ht.atRest hpos hhalt
  exact ⟨hrest, finished_of_atRest h₀ (h.onward hrun) hrest⟩

/-- Steps whose library functions all succeed. -/
private theorem heardRun_of_exec {acts : List (PoolAct Nat)} {s : PoolThreads Nat}
    {tr : List (PoolAct Nat × Option (PoolEvent Nat))}
    (h : exec poolStep (initial [0] 1) acts = some (tr, s))
    (hall : ∀ e ∈ tr, ∀ s, Heard s e.1) : HeardRun (initial [0] 1) tr s :=
  (Run.of_exec poolStep h).guarded hall

theorem no_lost_wakeup_one :
    ∃ tr s, exec poolStep (initial [0] 1) (oneTask.take 6) = some (tr, s) ∧
      s.memory.shutdown = none ∧ s.memory.queue.count ≤ total WorkerPoint.alert s.workers := by
  have hexec : exec poolStep (initial [0] 1) (oneTask.take 6) = some (_, _) := rfl
  have hrun := heardRun_of_exec hexec (by simp [Heard])
  exact ⟨_, _, hexec, no_lost_wakeup create_one hrun rfl (List.mem_of_getElem? (i := 0) rfl)⟩

theorem threads_come_to_rest_one :
    ∃ tr s, exec poolStep (initial [0] 1) (oneTask.take 8) = some (tr, s) ∧
      workload 1 s = 16 ∧ ∃ tr' t, Run onwardRel s tr' t ∧ Halted onwardRel t := by
  have hexec : exec poolStep (initial [0] 1) (oneTask.take 8) = some (_, _) := rfl
  have hrun := heardRun_of_exec hexec (by simp [Heard])
  exact ⟨_, _, hexec, rfl, (threads_come_to_rest create_one hrun).1⟩

end Runs

end PoolThreads
end LedaSdk.Utility
