import LedaSdk.Base.Run
import LedaSdk.Leda.Startup

/-!
# The life of the thread pool

Calls of `leda_init` and `leda_exit`, one after the other, while the network thread passes
received frames to the pool (`sdk/leda.c:792–849,1113,1324–1327`). `leda_exit` is two steps,
since frames arrive between the destruction of the pool and the end of the client, and so is
`cb_ws_recv`, since the pool can be destroyed between the receipt of a frame and its
`threadpool_add`.
-/

namespace LedaSdk.Leda
open LedaSdk.Base LedaSdk.AliWs

/-- A step of the application or of the network thread. -/
inductive SdkOp (P : Type) where
  | init (info : LedaConnInfo P) (env : LedaInitEnv)
  | exitPool
  | exitRest
  /-- `cb_ws_recv` begins. -/
  | recv
  /-- The end of `cb_ws_recv`: `threadpool_add`, unless the message is not valid. -/
  | add (valid : Bool)

/-- What is done to a pool; a pool is named by its number. -/
inductive PoolEvent where
  | created (handle : Option Nat)
  | destroyed (pool : Nat)
  | added (pool : Nat)
  deriving DecidableEq

/-- What a step returns and does to the pool. -/
structure SdkOut where
  ret : Int32
  event : Option PoolEvent
  deriving DecidableEq

/-- The globals, whether `leda_exit` is between its two steps, and how many frames `cb_ws_recv`
has received and not yet added. -/
structure SdkSystem (P : Type) where
  leda : LedaState P
  exiting : Bool
  frames : Nat

/-- The system before any call. -/
def SdkSystem.initial {P : Type} (null : P) : SdkSystem P := ⟨.initial null, false, 0⟩

/-- One step; frames are passed on while the callbacks of the client are registered. -/
def sdkStep {P : Type} (inetAton : CStr → Bool) (s : SdkSystem P) :
    SdkOp P → Option (SdkOut × SdkSystem P)
  | .init info env =>
    if s.exiting then none
    else
      let (ret, g) := ledaInit inetAton info env s.leda
      some (⟨ret, if s.leda.gHasInit then none else some (.created g.gThreadpool)⟩,
        { s with leda := g })
  | .exitPool =>
    if s.exiting then none
    else some (⟨leSuccess, s.leda.gThreadpool.map .destroyed⟩,
      { s with leda := threadpoolDestroy s.leda, exiting := true })
  | .exitRest =>
    if s.exiting then
      some (⟨leSuccess, none⟩, { s with leda := ledaExitRest s.leda, exiting := false })
    else none
  | .recv =>
    match s.leda.client.gCbs.bind WscParamCb.pCbRecv with
    | some .cbWsRecv => some (⟨leSuccess, none⟩, { s with frames := s.frames + 1 })
    | _ => none
  | .add valid =>
    if 0 < s.frames then
      some (⟨leSuccess, if valid then s.leda.gThreadpool.map .added else none⟩,
        { s with frames := s.frames - 1 })
    else none

/-- A history of steps. -/
abbrev SdkTrace (P : Type) := List (SdkOp P × SdkOut)

/-- What was done to the pools, in order. -/
def poolEvents {P : Type} (tr : SdkTrace P) : List PoolEvent := tr.filterMap (·.2.event)

/-- An event is in order after others: a pool is created, or the handle overwritten, only
when every earlier pool was destroyed, and destroyed or added to only while it lives. -/
def PoolEvent.Permitted (before : List PoolEvent) : PoolEvent → Prop
  | .created _ => ∀ pool, .created (some pool) ∈ before → .destroyed pool ∈ before
  | .destroyed pool | .added pool =>
    .created (some pool) ∈ before ∧ .destroyed pool ∉ before

/-- Every event of a history is in order. -/
def PoolsDisciplined {P : Type} (tr : SdkTrace P) : Prop :=
  EachAfter (fun before e ↦ ∀ event ∈ e.2.event, event.Permitted (poolEvents before)) tr

/-! ### What the caller knows -/

/-- The pool as the caller knows it: none, created by a `leda_init`, or destroyed by a
`leda_exit`. -/
inductive PoolPhase where
  | none
  | opened
  | closed
  deriving DecidableEq

/-- What is known from the steps so far: whether the last `leda_init` that did something
succeeded, the pool, whether `leda_exit` is running, and how many frames are on their way to
the pool. -/
structure CallerView where
  initialised : Bool
  pool : PoolPhase
  exiting : Bool
  frames : Nat
  deriving DecidableEq

/-- The view after one more step. -/
def CallerView.after {P : Type} (c : CallerView) : SdkOp P × SdkOut → CallerView
  | (.init _ env, out) =>
    if c.initialised then c
    else { c with initialised := decide (out.ret = leSuccess),
                  pool := if env.poolOk then .opened else .none }
  | (.exitPool, _) =>
    { c with exiting := true, pool := if c.pool = .opened then .closed else c.pool }
  | (.exitRest, _) => { c with exiting := false, initialised := false }
  | (.recv, _) => { c with frames := c.frames + 1 }
  | (.add _, _) => { c with frames := c.frames - 1 }

/-- The view after a history. -/
def callerView {P : Type} (tr : SdkTrace P) : CallerView :=
  tr.foldl CallerView.after ⟨false, .none, false, 0⟩

/-- Calls in turn: a `leda_exit` between a `leda_init` that failed after the creation of a
pool and the next one, no second `leda_exit` before another `leda_init`, no `leda_exit` while a
frame is on its way to the pool, and no frame while `leda_exit` runs. -/
def CallInTurn {P : Type} (before : SdkTrace P) : SdkOp P → Prop
  | .init _ _ => (callerView before).initialised = true ∨ (callerView before).pool ≠ .opened
  | .exitPool => (callerView before).pool ≠ .closed ∧ (callerView before).frames = 0
  | .exitRest | .add _ => True
  | .recv => (callerView before).exiting = false

@[simp] theorem callerView_concat {P : Type} (tr : SdkTrace P) (e : SdkOp P × SdkOut) :
    callerView (tr ++ [e]) = (callerView tr).after e := by
  rw [callerView, List.foldl_append]
  rfl

theorem poolEvents_concat {P : Type} (tr : SdkTrace P) (e : SdkOp P × SdkOut) :
    poolEvents (tr ++ [e]) = poolEvents tr ++ e.2.event.toList := by
  rw [poolEvents, List.filterMap_append, poolEvents]
  cases h : e.2.event with
  | none => simp [h]
  | some event => simp [h]

/-! ### The pools after a history -/

/-- The pools that live are those that were created and not destroyed. -/
structure PoolsTracked (events : List PoolEvent) (v : PoolView) : Prop where
  nodup : v.live.Nodup
  created_iff : ∀ pool, .created (some pool) ∈ events ↔ pool < v.count
  live_iff : ∀ pool, pool ∈ v.live ↔ pool < v.count ∧ .destroyed pool ∉ events
  destroyed_lt : ∀ pool, .destroyed pool ∈ events → pool < v.count

namespace PoolsTracked
variable {events : List PoolEvent} {v : PoolView} {handle : Option Nat} {pool : Nat}

/-- Events that neither create nor destroy a pool. -/
theorem quiet (h : PoolsTracked events v) {more : List PoolEvent}
    (hmore : ∀ pool, .created (some pool) ∉ more ∧ .destroyed pool ∉ more) :
    PoolsTracked (events ++ more) ⟨handle, v.count, v.live⟩ where
  nodup := h.nodup
  created_iff pool := by rw [List.mem_append, or_iff_left (hmore pool).1, h.created_iff]
  live_iff pool := by rw [List.mem_append, or_iff_left (hmore pool).2, h.live_iff]
  destroyed_lt pool hp := by
    rw [List.mem_append, or_iff_left (hmore pool).2] at hp
    exact h.destroyed_lt pool hp

theorem create (h : PoolsTracked events v) :
    PoolsTracked (events ++ [.created (some v.count)])
      ⟨some v.count, v.count + 1, v.count :: v.live⟩ where
  nodup := by
    refine List.nodup_cons.mpr ⟨fun hm ↦ ?_, h.nodup⟩
    exact Nat.lt_irrefl _ ((h.live_iff v.count).mp hm).1
  created_iff pool := by
    simp only [List.mem_append, h.created_iff, List.mem_singleton, PoolEvent.created.injEq,
      Option.some.injEq]
    omega
  live_iff pool := by
    have hnew : .destroyed v.count ∉ events := fun hm ↦ Nat.lt_irrefl _ (h.destroyed_lt _ hm)
    simp only [List.mem_cons, h.live_iff, List.mem_append, List.not_mem_nil, reduceCtorEq, or_false]
    constructor
    · rintro (rfl | ⟨hlt, hd⟩)
      · exact ⟨by omega, hnew⟩
      · exact ⟨by omega, hd⟩
    · rintro ⟨hlt, hd⟩
      by_cases he : pool = v.count
      · exact .inl he
      · exact .inr ⟨by omega, hd⟩
  destroyed_lt pool hp := by
    have hold : .destroyed pool ∈ events := by simpa using hp
    exact Nat.lt_succ_of_lt (h.destroyed_lt pool hold)

theorem destroy (h : PoolsTracked events v) (handle : Option Nat) (hlt : pool < v.count) :
    PoolsTracked (events ++ [.destroyed pool]) ⟨handle, v.count, v.live.erase pool⟩ where
  nodup := h.nodup.erase pool
  created_iff other := by
    rw [← h.created_iff]
    simp
  live_iff other := by
    rw [h.nodup.mem_erase_iff, h.live_iff]
    simp only [List.mem_append, List.mem_singleton, PoolEvent.destroyed.injEq, not_or]
    exact ⟨fun ⟨hne, hl, hd⟩ ↦ ⟨hl, hd, hne⟩, fun ⟨hl, hd, hne⟩ ↦ ⟨hne, hl, hd⟩⟩
  destroyed_lt other hp := by
    rw [List.mem_append, List.mem_singleton] at hp
    rcases hp with hp | hp
    · exact h.destroyed_lt other hp
    · cases hp
      exact hlt

/-- Every pool was destroyed exactly if none lives. -/
theorem created_permitted_iff (h : PoolsTracked events v) (new : Option Nat) :
    (PoolEvent.created new).Permitted events ↔ v.live = [] := by
  constructor
  · intro hp
    apply List.eq_nil_iff_forall_not_mem.mpr
    intro pool hm
    obtain ⟨hlt, hd⟩ := (h.live_iff pool).mp hm
    exact hd (hp pool ((h.created_iff pool).mpr hlt))
  · intro hnil pool hc
    by_contra hd
    have hm := (h.live_iff pool).mpr ⟨(h.created_iff pool).mp hc, hd⟩
    rw [hnil] at hm
    cases hm

/-- A pool may be used exactly if it lives. -/
theorem use_permitted_iff (h : PoolsTracked events v) (pool : Nat) :
    ((PoolEvent.destroyed pool).Permitted events ↔ pool ∈ v.live) ∧
      ((PoolEvent.added pool).Permitted events ↔ pool ∈ v.live) := by
  simp only [PoolEvent.Permitted, h.live_iff, h.created_iff, and_self]

end PoolsTracked

/-! ### The invariant -/

/-- What the handle `g_threadpool` is in each phase. -/
def HandleIn (phase : PoolPhase) (v : PoolView) : Prop :=
  match phase with
  | .none => v.handle = none
  | .opened => ∃ pool ∈ v.live, v.handle = some pool
  | .closed => ∃ pool, pool < v.count ∧ pool ∉ v.live ∧ v.handle = some pool

/-- The state tracks its history, and what is known from it is right. -/
structure Tracks {P : Type} (tr : SdkTrace P) (s : SdkSystem P) : Prop where
  pools : PoolsTracked (poolEvents tr) s.leda.pools
  handle : HandleIn (callerView tr).pool s.leda.pools
  initialised_eq : (callerView tr).initialised = s.leda.gHasInit
  exiting_eq : (callerView tr).exiting = s.exiting
  frames_eq : (callerView tr).frames = s.frames
  registered : s.leda.client.gCbs ≠ none → s.leda.gHasInit = true
  phase_eq : s.leda.gHasInit = true →
    (callerView tr).pool = if s.exiting then .closed else .opened

theorem tracks_initial {P : Type} (null : P) : Tracks [] (SdkSystem.initial null) where
  pools := by
    refine ⟨List.nodup_nil, ?_, ?_, ?_⟩
    · intro pool
      simp [poolEvents, LedaState.pools, SdkSystem.initial, LedaState.initial]
    · intro pool
      simp [poolEvents, LedaState.pools, SdkSystem.initial, LedaState.initial]
    · intro pool h
      simp [poolEvents] at h
  handle := rfl
  initialised_eq := rfl
  exiting_eq := rfl
  frames_eq := rfl
  registered h := absurd rfl h
  phase_eq h := nomatch h

section Steps
variable {P : Type} {inetAton : CStr → Bool} {tr : SdkTrace P} {s s' : SdkSystem P} {out : SdkOut}
  {info : LedaConnInfo P} {env : LedaInitEnv}

/-- The steps of the system. -/
theorem sdkStep_init (h : sdkStep inetAton s (.init info env) = some (out, s')) :
    s.exiting = false ∧ out = ⟨(ledaInit inetAton info env s.leda).1,
        if s.leda.gHasInit then none
        else some (.created (ledaInit inetAton info env s.leda).2.gThreadpool)⟩ ∧
      s' = { s with leda := (ledaInit inetAton info env s.leda).2 } := by
  rw [sdkStep] at h
  split at h
  · cases h
  · next hx =>
    cases h
    exact ⟨by simpa using hx, rfl, rfl⟩

theorem sdkStep_exitPool (h : sdkStep inetAton s .exitPool = some (out, s')) :
    s.exiting = false ∧ out = ⟨leSuccess, s.leda.gThreadpool.map .destroyed⟩ ∧
      s' = { s with leda := threadpoolDestroy s.leda, exiting := true } := by
  rw [sdkStep] at h
  split at h
  · cases h
  · next hx =>
    cases h
    exact ⟨by simpa using hx, rfl, rfl⟩

theorem sdkStep_exitRest (h : sdkStep inetAton s .exitRest = some (out, s')) :
    s.exiting = true ∧ out = ⟨leSuccess, none⟩ ∧
      s' = { s with leda := ledaExitRest s.leda, exiting := false } := by
  rw [sdkStep] at h
  split at h
  · next hx =>
    cases h
    exact ⟨hx, rfl, rfl⟩
  · cases h

theorem sdkStep_recv (h : sdkStep inetAton s .recv = some (out, s')) :
    s.leda.client.gCbs ≠ none ∧ out = ⟨leSuccess, none⟩ ∧
      s' = { s with frames := s.frames + 1 } := by
  rw [sdkStep] at h
  split at h
  · next hcb =>
    cases h
    refine ⟨?_, rfl, rfl⟩
    intro hn
    rw [hn] at hcb
    cases hcb
  · cases h

theorem sdkStep_add {valid : Bool} (h : sdkStep inetAton s (.add valid) = some (out, s')) :
    0 < s.frames ∧ out = ⟨leSuccess, if valid then s.leda.gThreadpool.map .added else none⟩ ∧
      s' = { s with frames := s.frames - 1 } := by
  rw [sdkStep] at h
  split at h
  · next hpos =>
    cases h
    exact ⟨hpos, rfl, rfl⟩
  · cases h

/-- A step that changes neither the pools nor what is known of the calls keeps the history
tracked. -/
private theorem Tracks.unchanged (h : Tracks tr s) {e : SdkOp P × SdkOut} (frames : Nat)
    (hview : (callerView tr).after e = { callerView tr with frames := frames })
    (hevent : ∀ pool, .created (some pool) ∉ e.2.event.toList ∧
      .destroyed pool ∉ e.2.event.toList) : Tracks (tr ++ [e]) { s with frames := frames } := by
  have hview' : callerView (tr ++ [e]) = { callerView tr with frames := frames } := by
    rw [callerView_concat, hview]
  refine ⟨?_, ?_, ?_, ?_, ?_, h.registered, ?_⟩
  · rw [poolEvents_concat]
    exact h.pools.quiet hevent
  · rw [hview']
    exact h.handle
  · rw [hview']
    exact h.initialised_eq
  · rw [hview']
    exact h.exiting_eq
  · rw [hview']
  · rw [hview']
    exact h.phase_eq

/-- A `leda_init` keeps the history tracked. -/
private theorem Tracks.init (h : Tracks tr s)
    (hstep : sdkStep inetAton s (.init info env) = some (out, s')) :
    Tracks (tr ++ [(.init info env, out)]) s' := by
  obtain ⟨hexit, rfl, rfl⟩ := sdkStep_init hstep
  have hview := h.initialised_eq
  have hexiting := h.exiting_eq.trans hexit
  have hframes := h.frames_eq
  rcases ledaInit_cases inetAton info env s.leda with
    ⟨hinit, heq⟩ | ⟨hno, hpool, heq⟩ | ⟨hno, hpool, hstart⟩
  · -- Nothing happens where the SDK is initialised.
    rw [heq, hinit]
    apply h.unchanged s.frames
    · rw [CallerView.after, hview, hinit, ← hframes]
      rfl
    · simp
  · -- The handle is overwritten by a null pointer.
    rw [heq, hno]
    have hview' : callerView (tr ++ [(.init info env, ⟨leErrorAllocatingMem,
        some (.created none)⟩)]) = ⟨false, .none, false, s.frames⟩ := by
      rw [callerView_concat, CallerView.after, hview, hno, hpool, hexiting, hframes]
      rfl
    refine ⟨?_, ?_, ?_, ?_, ?_, fun hc ↦ hno.symm.trans (h.registered hc), ?_⟩
    · rw [poolEvents_concat]
      exact h.pools.quiet (by simp)
    · exact hview' ▸ rfl
    · exact hview' ▸ rfl
    · exact hview' ▸ hexit.symm
    · exact hview' ▸ rfl
    · intro hinit
      cases hinit
  · -- A new pool is created.
    rw [hno]
    have hpools := hstart.pools_eq
    have hhandle : (ledaInit inetAton info env s.leda).2.gThreadpool = some s.leda.poolCount :=
      congrArg PoolView.handle hpools
    have hview' : callerView (tr ++ [(.init info env, ⟨(ledaInit inetAton info env s.leda).1,
        some (.created (some s.leda.poolCount))⟩)]) =
        ⟨(ledaInit inetAton info env s.leda).2.gHasInit, .opened, false, s.frames⟩ := by
      rw [callerView_concat, CallerView.after, hview, hno, hpool, hexiting, hframes]
      simp only [Bool.false_eq_true, if_false, if_true, CallerView.mk.injEq, and_self, and_true]
      rw [Bool.eq_iff_iff, decide_eq_true_iff, hstart.hasInit_iff]
    simp only [Bool.false_eq_true, if_false, hhandle]
    refine ⟨?_, ?_, ?_, ?_, ?_, ?_, ?_⟩
    · rw [poolEvents_concat, hpools]
      exact h.pools.create
    · rw [hview', hpools]
      exact ⟨s.leda.poolCount, List.mem_cons_self, rfl⟩
    · rw [hview']
    · rw [hview']
      exact hexit.symm
    · rw [hview']
    · intro hcbs
      rw [hstart.hasInit_iff]
      by_contra hret
      apply hcbs
      apply hstart.unregistered hret
      by_contra hold
      have := h.registered hold
      rw [hno] at this
      cases this
    · intro _
      rw [hview', hexit]
      rfl

/-- The destruction of the pool keeps the history tracked. -/
private theorem Tracks.exitPool (h : Tracks tr s)
    (hstep : sdkStep inetAton s .exitPool = some (out, s')) :
    Tracks (tr ++ [(.exitPool, out)]) s' := by
  obtain ⟨hexit, rfl, rfl⟩ := sdkStep_exitPool hstep
  have hhandle := h.handle
  cases hg : s.leda.gThreadpool with
  | none =>
    have hsame : threadpoolDestroy s.leda = s.leda := by rw [threadpoolDestroy, hg]
    have hphase : (callerView tr).pool = .none := by
      cases hp : (callerView tr).pool with
      | none => rfl
      | opened =>
        rw [hp] at hhandle
        obtain ⟨pool, -, hpool⟩ := hhandle
        cases hg.symm.trans hpool
      | closed =>
        rw [hp] at hhandle
        obtain ⟨pool, -, -, hpool⟩ := hhandle
        cases hg.symm.trans hpool
    have hview' : callerView (tr ++ [(.exitPool, ⟨leSuccess, none⟩)]) =
        ⟨s.leda.gHasInit, .none, true, s.frames⟩ := by
      rw [callerView_concat, CallerView.after, hphase, h.initialised_eq, h.frames_eq]
      rfl
    rw [hsame]
    refine ⟨?_, ?_, ?_, ?_, ?_, h.registered, ?_⟩
    · rw [poolEvents_concat]
      exact h.pools.quiet (by simp)
    · exact hview' ▸ hg
    · exact hview' ▸ rfl
    · exact hview' ▸ rfl
    · exact hview' ▸ rfl
    · intro hinit
      have hopen := h.phase_eq hinit
      rw [hphase, hexit] at hopen
      cases hopen
  | some pool =>
    have hpools : (threadpoolDestroy s.leda).pools =
        ⟨some pool, s.leda.poolCount, s.leda.livePools.erase pool⟩ := by
      rw [threadpoolDestroy, hg]
      simp [LedaState.pools]
    have hrest : (threadpoolDestroy s.leda).gHasInit = s.leda.gHasInit ∧
        (threadpoolDestroy s.leda).client = s.leda.client := by
      rw [threadpoolDestroy, hg]
      exact ⟨rfl, rfl⟩
    have hphase : (callerView tr).pool ≠ .none ∧ pool < s.leda.poolCount := by
      cases hp : (callerView tr).pool with
      | none =>
        rw [hp] at hhandle
        cases hg.symm.trans hhandle
      | opened =>
        rw [hp] at hhandle
        obtain ⟨other, hm, hother⟩ := hhandle
        cases hg.symm.trans hother
        exact ⟨by decide, ((h.pools.live_iff pool).mp hm).1⟩
      | closed =>
        rw [hp] at hhandle
        obtain ⟨other, hlt, -, hother⟩ := hhandle
        cases hg.symm.trans hother
        exact ⟨by decide, hlt⟩
    have hview' : callerView (tr ++ [(.exitPool, ⟨leSuccess, some (.destroyed pool)⟩)]) =
        ⟨s.leda.gHasInit, .closed, true, s.frames⟩ := by
      rw [callerView_concat, CallerView.after, h.initialised_eq, h.frames_eq]
      cases hp : (callerView tr).pool with
      | none => exact absurd hp hphase.1
      | opened => rfl
      | closed => rfl
    have hdestroy := h.pools.destroy (some pool) hphase.2
    refine ⟨?_, ?_, ?_, ?_, ?_, ?_, ?_⟩
    · rw [poolEvents_concat, hpools]
      exact hdestroy
    · rw [hpools]
      refine hview' ▸ ⟨pool, hphase.2, fun hm ↦ ?_, rfl⟩
      exact (h.pools.nodup.mem_erase_iff.mp hm).1 rfl
    · exact hview' ▸ hrest.1.symm
    · exact hview' ▸ rfl
    · exact hview' ▸ rfl
    · intro hcbs
      rw [hrest.1]
      exact h.registered (hrest.2 ▸ hcbs)
    · intro _
      exact hview' ▸ rfl

/-- The rest of `leda_exit` keeps the history tracked. -/
private theorem Tracks.exitRest (h : Tracks tr s)
    (hstep : sdkStep inetAton s .exitRest = some (out, s')) :
    Tracks (tr ++ [(.exitRest, out)]) s' := by
  obtain ⟨-, rfl, rfl⟩ := sdkStep_exitRest hstep
  have hview' : callerView (tr ++ [(.exitRest, ⟨leSuccess, none⟩)]) =
      ⟨false, (callerView tr).pool, false, s.frames⟩ := by
    rw [callerView_concat, CallerView.after, h.frames_eq]
  refine ⟨?_, ?_, ?_, ?_, ?_, ?_, ?_⟩
  · rw [poolEvents_concat]
    exact h.pools.quiet (by simp)
  · rw [hview']
    exact h.handle
  · rw [hview']
    rfl
  · rw [hview']
  · rw [hview']
  · intro hcbs
    exact absurd rfl hcbs
  · intro hinit
    cases hinit

/-- Every step keeps the history tracked. -/
theorem Tracks.step (h : Tracks tr s) {op : SdkOp P}
    (hstep : sdkStep inetAton s op = some (out, s')) : Tracks (tr ++ [(op, out)]) s' := by
  cases op with
  | init info env => exact h.init hstep
  | exitPool => exact h.exitPool hstep
  | exitRest => exact h.exitRest hstep
  | recv =>
    obtain ⟨-, rfl, rfl⟩ := sdkStep_recv hstep
    exact h.unchanged (s.frames + 1) (by rw [CallerView.after, h.frames_eq]) (by simp)
  | add valid =>
    obtain ⟨-, rfl, rfl⟩ := sdkStep_add hstep
    refine h.unchanged (s.frames - 1) (by rw [CallerView.after, h.frames_eq]) fun pool ↦ ?_
    cases valid with
    | false => simp
    | true => simp

end Steps

/-! ### When the pools are handled in order -/

section Discipline
variable {P : Type} {inetAton : CStr → Bool} {tr : SdkTrace P} {s s' : SdkSystem P} {out : SdkOut}
  {op : SdkOp P}

/-- No pool lives that `g_threadpool` does not point to. -/
def OnlyHandle (s : SdkSystem P) : Prop :=
  ∀ pool ∈ s.leda.livePools, s.leda.gThreadpool = some pool

/-- Where only the pool of the handle lives, none lives exactly if the handle's was not
opened, or was closed. -/
private theorem livePools_eq_nil_iff (h : Tracks tr s) (honly : OnlyHandle s) :
    s.leda.livePools = [] ↔ (callerView tr).pool ≠ .opened := by
  have hhandle := h.handle
  constructor
  · rintro hnil hopened
    rw [hopened] at hhandle
    obtain ⟨pool, hm, -⟩ := hhandle
    rw [show s.leda.pools.live = [] from hnil] at hm
    cases hm
  · intro hne
    apply List.eq_nil_iff_forall_not_mem.mpr
    intro pool hm
    have hpool := honly pool hm
    cases hp : (callerView tr).pool with
    | none =>
      rw [hp] at hhandle
      cases hpool.symm.trans hhandle
    | opened => exact hne hp
    | closed =>
      rw [hp] at hhandle
      obtain ⟨other, -, hdead, hother⟩ := hhandle
      cases hpool.symm.trans hother
      exact hdead hm

/-- The pool of the handle lives exactly in the phase that says so. -/
private theorem mem_livePools_iff (h : Tracks tr s) {pool : Nat}
    (hpool : s.leda.gThreadpool = some pool) :
    pool ∈ s.leda.livePools ↔ (callerView tr).pool ≠ .closed := by
  have hhandle := h.handle
  cases hp : (callerView tr).pool with
  | none =>
    rw [hp] at hhandle
    cases hpool.symm.trans hhandle
  | opened =>
    rw [hp] at hhandle
    obtain ⟨other, hm, hother⟩ := hhandle
    cases hpool.symm.trans hother
    exact iff_of_true hm (by decide)
  | closed =>
    rw [hp] at hhandle
    obtain ⟨other, -, hdead, hother⟩ := hhandle
    cases hpool.symm.trans hother
    exact iff_of_false hdead (by simp)

/-- What calls in turn keep: the history is tracked, only the pool of the handle lives, and a
frame is on its way only while the SDK is started. -/
structure InTurn (tr : SdkTrace P) (s : SdkSystem P) : Prop where
  tracks : Tracks tr s
  only : OnlyHandle s
  started : 0 < s.frames → s.leda.gHasInit = true ∧ s.exiting = false

/-- The event of a `leda_init` is in order exactly if the call is in turn. -/
private theorem init_permitted_iff {info : LedaConnInfo P} {env : LedaInitEnv}
    (h : Tracks tr s) (honly : OnlyHandle s)
    (hstep : sdkStep inetAton s (.init info env) = some (out, s')) :
    (∀ event ∈ out.event, event.Permitted (poolEvents tr)) ↔ CallInTurn tr (.init info env) := by
  obtain ⟨-, rfl, -⟩ := sdkStep_init hstep
  cases hinit : s.leda.gHasInit with
  | true =>
    refine iff_of_true (by simp) (.inl ?_)
    rw [h.initialised_eq, hinit]
  | false =>
    have hnot : ¬ (callerView tr).initialised = true := by rw [h.initialised_eq, hinit]; decide
    rw [CallInTurn, or_iff_right hnot, ← livePools_eq_nil_iff h honly]
    simp only [Bool.false_eq_true, if_false, Option.mem_some_iff, forall_eq']
    exact h.pools.created_permitted_iff _

/-- The event of a `threadpool_destroy` is in order exactly if the pool was not closed. -/
private theorem exitPool_permitted_iff (h : Tracks tr s)
    (hstep : sdkStep inetAton s .exitPool = some (out, s')) :
    (∀ event ∈ out.event, event.Permitted (poolEvents tr)) ↔ (callerView tr).pool ≠ .closed := by
  obtain ⟨-, rfl, -⟩ := sdkStep_exitPool hstep
  cases hg : s.leda.gThreadpool with
  | none =>
    refine iff_of_true (by simp) ?_
    intro hclosed
    have hhandle := h.handle
    rw [hclosed] at hhandle
    obtain ⟨pool, -, -, hpool⟩ := hhandle
    cases hg.symm.trans hpool
  | some pool =>
    rw [← mem_livePools_iff h hg]
    simp only [Option.map_some, Option.mem_some_iff, forall_eq']
    exact (h.pools.use_permitted_iff pool).1

/-- The events of steps in turn are in order. -/
private theorem InTurn.permitted (h : InTurn tr s) (hturn : CallInTurn tr op)
    (hstep : sdkStep inetAton s op = some (out, s')) :
    ∀ event ∈ out.event, event.Permitted (poolEvents tr) := by
  cases op with
  | init info env => exact (init_permitted_iff h.tracks h.only hstep).mpr hturn
  | exitPool => exact (exitPool_permitted_iff h.tracks hstep).mpr hturn.1
  | exitRest =>
    obtain ⟨-, rfl, -⟩ := sdkStep_exitRest hstep
    simp
  | recv =>
    obtain ⟨-, rfl, -⟩ := sdkStep_recv hstep
    simp
  | add valid =>
    obtain ⟨hpos, rfl, -⟩ := sdkStep_add hstep
    obtain ⟨hinit, hexit⟩ := h.started hpos
    have hopened := h.tracks.phase_eq hinit
    have hhandle := h.tracks.handle
    rw [hexit, if_neg Bool.false_ne_true] at hopened
    rw [hopened] at hhandle
    obtain ⟨pool, hm, hpool⟩ := hhandle
    cases valid with
    | false => simp
    | true =>
      rw [show s.leda.gThreadpool = some pool from hpool]
      simp only [if_true, Option.map_some, Option.mem_some_iff, forall_eq']
      exact (h.tracks.pools.use_permitted_iff pool).2.mpr hm

/-- A frame on its way to a pool that is closed can be added to it. -/
private theorem added_after_close (inetAton : CStr → Bool) (h : Tracks tr s)
    (hclosed : (callerView tr).pool = .closed) (hpos : 0 < s.frames) :
    ∃ tr' t, Run (StepRel.ofFn (sdkStep inetAton)) s tr' t ∧ ¬ PoolsDisciplined (tr ++ tr') := by
  have hhandle := h.handle
  rw [hclosed] at hhandle
  obtain ⟨pool, -, hdead, hpool⟩ := hhandle
  have hadd : sdkStep inetAton s (.add true) =
      some (⟨leSuccess, some (.added pool)⟩, { s with frames := s.frames - 1 }) := by
    rw [sdkStep, if_pos hpos, if_pos rfl, show s.leda.gThreadpool = some pool from hpool]
    rfl
  refine ⟨_, _, Run.single hadd, fun hdisc ↦ ?_⟩
  have hadded := (EachAfter.concat_iff.mp hdisc).2 _ rfl
  exact hdead ((h.pools.use_permitted_iff pool).2.mp hadded)

/-- After a step out of turn the pools can get out of order. -/
private theorem InTurn.undisciplined (h : InTurn tr s) (hturn : ¬ CallInTurn tr op)
    (hstep : sdkStep inetAton s op = some (out, s')) :
    ∃ tr' t, Run (StepRel.ofFn (sdkStep inetAton)) s' tr' t ∧
      ¬ PoolsDisciplined (tr ++ [(op, out)] ++ tr') := by
  have hnow (hbad : ¬ ∀ event ∈ out.event, event.Permitted (poolEvents tr)) :
      ∃ tr' t, Run (StepRel.ofFn (sdkStep inetAton)) s' tr' t ∧
        ¬ PoolsDisciplined (tr ++ [(op, out)] ++ tr') := by
    refine ⟨[], s', .nil, fun hdisc ↦ hbad ?_⟩
    rw [List.append_nil] at hdisc
    exact (EachAfter.concat_iff.mp hdisc).2
  have htracks := h.tracks.step hstep
  cases op with
  | init info env => exact hnow fun hp ↦ hturn ((init_permitted_iff h.tracks h.only hstep).mp hp)
  | exitPool =>
    by_cases hclosed : (callerView tr).pool = .closed
    · exact hnow fun hp ↦ (exitPool_permitted_iff h.tracks hstep).mp hp hclosed
    · -- A frame is on its way to the pool that is destroyed.
      have hpos : 0 < s.frames := by
        rw [← h.tracks.frames_eq]
        exact Nat.pos_of_ne_zero fun hzero ↦ hturn ⟨hclosed, hzero⟩
      obtain ⟨hinit, hexit⟩ := h.started hpos
      have hopened := h.tracks.phase_eq hinit
      rw [hexit, if_neg Bool.false_ne_true] at hopened
      obtain ⟨-, -, rfl⟩ := sdkStep_exitPool hstep
      refine added_after_close inetAton htracks ?_ hpos
      rw [callerView_concat, CallerView.after, hopened]
      rfl
  | exitRest => exact absurd trivial hturn
  | recv =>
    -- The frame comes after the destruction of the pool.
    obtain ⟨hcbs, -, rfl⟩ := sdkStep_recv hstep
    have hexit : s.exiting = true := by
      rw [CallInTurn, h.tracks.exiting_eq, Bool.not_eq_false] at hturn
      exact hturn
    have hclosed := h.tracks.phase_eq (h.tracks.registered hcbs)
    rw [hexit, if_pos rfl] at hclosed
    refine added_after_close inetAton htracks ?_ (Nat.succ_pos _)
    rw [callerView_concat, CallerView.after]
    exact hclosed
  | add valid => exact absurd trivial hturn

/-- A step in turn leaves no live pool behind. -/
private theorem OnlyHandle.step (h : Tracks tr s) (honly : OnlyHandle s)
    (hturn : CallInTurn tr op) (hstep : sdkStep inetAton s op = some (out, s')) :
    OnlyHandle s' := by
  cases op with
  | init info env =>
    obtain ⟨-, -, rfl⟩ := sdkStep_init hstep
    rcases ledaInit_cases inetAton info env s.leda with
      ⟨-, heq⟩ | ⟨hno, -, heq⟩ | ⟨hno, -, hstart⟩
    · rw [heq]
      exact honly
    · have hnot : ¬ (callerView tr).initialised = true := by rw [h.initialised_eq, hno]; decide
      have hnil := (livePools_eq_nil_iff h honly).mpr (hturn.resolve_left hnot)
      rw [heq]
      intro pool hm
      rw [show s.leda.livePools = [] from hnil] at hm
      cases hm
    · have hnot : ¬ (callerView tr).initialised = true := by rw [h.initialised_eq, hno]; decide
      have hnil := (livePools_eq_nil_iff h honly).mpr (hturn.resolve_left hnot)
      have hlive : (ledaInit inetAton info env s.leda).2.livePools =
          s.leda.poolCount :: s.leda.livePools := congrArg PoolView.live hstart.pools_eq
      have hhandle : (ledaInit inetAton info env s.leda).2.gThreadpool = some s.leda.poolCount :=
        congrArg PoolView.handle hstart.pools_eq
      intro pool hm
      rw [hlive, hnil] at hm
      rw [hhandle, List.mem_singleton.mp hm]
  | exitPool =>
    obtain ⟨-, -, rfl⟩ := sdkStep_exitPool hstep
    intro pool hm
    unfold threadpoolDestroy at hm ⊢
    split
    · next hg =>
      rw [hg] at hm
      exact honly pool hm
    · next other hg =>
      rw [hg] at hm
      exact honly pool (List.mem_of_mem_erase hm)
  | exitRest =>
    obtain ⟨-, -, rfl⟩ := sdkStep_exitRest hstep
    exact honly
  | recv =>
    obtain ⟨-, -, rfl⟩ := sdkStep_recv hstep
    exact honly
  | add valid =>
    obtain ⟨-, -, rfl⟩ := sdkStep_add hstep
    exact honly

/-- Steps in turn keep what they rely on. -/
private theorem InTurn.step (h : InTurn tr s) (hturn : CallInTurn tr op)
    (hstep : sdkStep inetAton s op = some (out, s')) : InTurn (tr ++ [(op, out)]) s' := by
  refine ⟨h.tracks.step hstep, h.only.step h.tracks hturn hstep, ?_⟩
  cases op with
  | init info env =>
    obtain ⟨hexit, -, rfl⟩ := sdkStep_init hstep
    intro hpos
    have hinit := (h.started hpos).1
    refine ⟨?_, hexit⟩
    rcases ledaInit_cases inetAton info env s.leda with ⟨-, heq⟩ | ⟨hno, -⟩ | ⟨hno, -⟩
    · rw [heq]
      exact hinit
    · cases hno.symm.trans hinit
    · cases hno.symm.trans hinit
  | exitPool =>
    obtain ⟨-, -, rfl⟩ := sdkStep_exitPool hstep
    have hnone : s.frames = 0 := h.tracks.frames_eq.symm.trans hturn.2
    intro hpos
    exact absurd hnone (Nat.ne_of_gt hpos)
  | exitRest =>
    obtain ⟨hexit, -, rfl⟩ := sdkStep_exitRest hstep
    intro hpos
    cases hexit.symm.trans (h.started hpos).2
  | recv =>
    obtain ⟨hcbs, -, rfl⟩ := sdkStep_recv hstep
    exact fun _ ↦ ⟨h.tracks.registered hcbs, h.tracks.exiting_eq.symm.trans hturn⟩
  | add valid =>
    obtain ⟨hpos, -, rfl⟩ := sdkStep_add hstep
    exact fun _ ↦ h.started hpos

/-- Over every sequence of calls and frames that come in turn, each pool is destroyed once
before its handle is overwritten and used only while it lives; and a step out of turn can be
followed by steps after which that is false. -/
theorem pools_disciplined (inetAton : CStr → Bool) (null : P)
    (hrun : Run (StepRel.ofFn (sdkStep inetAton)) (SdkSystem.initial null) tr s)
    (hturns : Along CallInTurn tr) :
    PoolsDisciplined tr ∧
      ∀ op out s', sdkStep inetAton s op = some (out, s') → ¬ CallInTurn tr op →
        ∃ tr' t, Run (StepRel.ofFn (sdkStep inetAton)) s' tr' t ∧
          ¬ PoolsDisciplined (tr ++ [(op, out)] ++ tr') := by
  have hinv : InTurn tr s ∧ PoolsDisciplined tr := by
    induction hrun with
    | nil =>
      refine ⟨⟨tracks_initial null, fun pool hm ↦ ?_, fun hpos ↦ ?_⟩, EachAfter.nil⟩
      · cases hm
      · exact absurd rfl (Nat.ne_of_gt hpos)
    | @snoc tr s s' op out prior step ih =>
      obtain ⟨hbefore, hturn⟩ := Along.concat_iff.mp hturns
      obtain ⟨hinturn, hdone⟩ := ih hbefore
      refine ⟨hinturn.step hturn step, EachAfter.concat_iff.mpr ⟨hdone, ?_⟩⟩
      exact hinturn.permitted hturn step
  exact ⟨hinv.2, fun op out s' hstep hturn ↦ hinv.1.undisciplined hturn hstep⟩

end Discipline

/-- A start in which everything succeeds if `inet_aton` takes the address. -/
private def plainStart : SdkOp Unit := .init (plainConnInfo (.lit "localhost")) LedaInitEnv.allOk

set_option maxRecDepth 4000 in
/-- A start, a frame that is added to the pool, a stop, and the next start. -/
theorem pools_disciplined_restart :
    ∃ tr s, Run (StepRel.ofFn (sdkStep fun _ ↦ true)) (SdkSystem.initial ()) tr s ∧
      poolEvents tr = [.created (some 0), .added 0, .destroyed 0, .created (some 1)] ∧
      PoolsDisciplined tr := by
  obtain ⟨s, hexec⟩ : ∃ s, exec (sdkStep fun _ ↦ true) (SdkSystem.initial ())
      [plainStart, .recv, .add true, .exitPool, .exitRest, plainStart] =
        some ([_, _, _, _, _, _], s) := ⟨_, rfl⟩
  have hrun := Run.of_exec _ hexec
  refine ⟨_, s, hrun, rfl, ?_⟩
  refine (pools_disciplined _ () hrun ?_).1
  refine (((((Along.nil.concat _ ?_).concat _ ?_).concat _ ?_).concat _ ?_).concat _ ?_).concat _ ?_
  · exact .inr (by decide)
  · exact (rfl : false = false)
  · trivial
  · exact ⟨show PoolPhase.opened ≠ PoolPhase.closed by decide, rfl⟩
  · trivial
  · exact .inr (show PoolPhase.closed ≠ PoolPhase.opened by decide)

/-- After a failed start, a second stop destroys the pool again. -/
theorem second_exit_destroys_again :
    ∃ tr s, Run (StepRel.ofFn (sdkStep fun _ ↦ false)) (SdkSystem.initial ()) tr s ∧
      poolEvents tr = [.created (some 0), .destroyed 0, .destroyed 0] ∧
      ¬ PoolsDisciplined tr := by
  obtain ⟨s, hexec⟩ : ∃ s, exec (sdkStep fun _ ↦ false) (SdkSystem.initial ())
      [plainStart, .exitPool, .exitRest, .exitPool] = some ([_, _, _, _], s) := ⟨_, rfl⟩
  refine ⟨_, s, Run.of_exec _ hexec, rfl, ?_⟩
  intro hdisc
  have hlast := hdisc [_, _, _] _ [] rfl _ rfl
  exact hlast.2 (by decide)

end LedaSdk.Leda
