import LedaSdk.Leda.PoolLifecycle

/-!
# Stopping and restarting while other threads run

`wsc_init` and `ws_client_destroy` (`sdk/utility/ali_ws/ws_client.c:19–95`) inside
`leda_init` and `leda_exit` (`sdk/leda.c:1095–1379`), step by step, with any number of network
threads (`ws_client_network.c:137–165`, `ws_client_callback.c:46–88`) and of pushes
(`wsc_buffer_mgmt.c:64–94`) between the steps. A network thread is detached: nobody waits for
its end, and `force_exit` is all that stops it.
-/

namespace LedaSdk.Leda
open LedaSdk.Base LedaSdk.AliWs

/-- What `leda_exit` takes away while other threads may still use it. -/
inductive Resource where
  /-- The slots of `g_ws_buf`. -/
  | slots
  /-- The record that `g_cbs` points to. -/
  | callbacks
  /-- The pool of `g_threadpool`. -/
  | pool
  deriving DecidableEq

/-- Where the thread that calls `leda_init` and `leda_exit` is. -/
inductive AppPoint where
  | idle
  /-- `leda.c:1121–1257` and `ws_client.c:31`: the checks, the copies and `g_cbs = malloc`. -/
  | initCbs
  /-- `force_exit = 0`. -/
  | initFlag
  /-- `client_buf_mgmt_init` up to `g_ws_buf = malloc`. -/
  | initBuf
  /-- The rest of `client_buf_mgmt_init`, which allocates the slots or takes all back. -/
  | initSlots
  /-- `pthread_create`. -/
  | initThread
  /-- `client_buf_mgmt_destroy` after a failed `pthread_create`. -/
  | undo
  /-- `force_exit = 1`. -/
  | exitFlag
  /-- `free(g_cbs)`, after a sleep. -/
  | exitCbs
  /-- `client_buf_mgmt_destroy`. -/
  | exitBuf
  /-- `g_has_init = 0` and the rest of `leda_exit`. -/
  | exitRest
  deriving DecidableEq

/-- The callback reasons that `callback_dumb_increment` handles. -/
inductive WsReason where
  | established
  | writeable
  | receive
  | connectionError
  | closed
  deriving DecidableEq

/-- Where a network thread is in `callback_dumb_increment`. -/
inductive CallbackPoint where
  | outside
  /-- Between the test of `g_cbs` and the call through it. -/
  | calling (reason : WsReason)
  /-- In `cb_ws_recv`, before `threadpool_add`. -/
  | adding
  /-- Before `buf_mgmt_client_clear_msg`. -/
  | clearing
  deriving DecidableEq

/-- A network thread: about to test `force_exit`, in the body of its loop or in
`lws_context_destroy`, or gone. -/
inductive NetThread where
  | test
  | running (leaving : Bool) (point : CallbackPoint)
  | gone
  deriving DecidableEq

/-- The globals, whether the slots of `g_ws_buf` are there, the point of the application, the
network threads by number, and how many pushes are between their test of `g_ws_buf` and their
access to a slot. -/
structure LifeState where
  app : AppPoint
  hasInit : Bool
  forceExit : Bool
  cbs : Bool
  buf : Bool
  slots : Bool
  pool : PoolPhase
  made : Nat
  threads : Nat → NetThread
  pushes : Nat

/-- The state before any call. -/
def LifeState.start : LifeState :=
  ⟨.idle, false, false, false, false, false, .none, 0, fun _ ↦ .gone, 0⟩

/-- Move one network thread. -/
def LifeState.setThread (s : LifeState) (i : Nat) (t : NetThread) : LifeState :=
  { s with threads := fun j ↦ if j = i then t else s.threads j }

/-- A step of a network thread. -/
inductive ThreadOp where
  /-- The condition of the loop. -/
  | test
  /-- `callback_dumb_increment` begins. -/
  | callback (reason : WsReason)
  | call
  /-- `threadpool_add`, unless the message is not valid. -/
  | add (valid : Bool)
  | clear
  /-- An iteration ends; `lws_service` fails if `failed`. -/
  | iterate (failed : Bool)
  | finish
  deriving DecidableEq

/-- A step of the application, of a push or of a network thread. -/
inductive LifeOp where
  | init (poolOk : Bool)
  | exit
  /-- The next step of the call that runs; `ok` is whether it succeeds. -/
  | next (ok : Bool)
  /-- A push tests `g_ws_buf`. -/
  | testBuf
  /-- A push accesses its slot. -/
  | access
  | thread (i : Nat) (op : ThreadOp)
  deriving DecidableEq

/-- The use that a step makes of a resource, and whether the resource is there. -/
abbrev Use := Option (Resource × Bool)

/-- The point after the call through `g_cbs`, or after the test that finds it null. -/
def WsReason.after (called : Bool) : WsReason → CallbackPoint
  | .receive => if called then .adding else .outside
  | .closed => .clearing
  | _ => .outside

/-- The callbacks that `lws_context_destroy` makes. -/
def WsReason.ends : WsReason → Bool
  | .connectionError | .closed => true
  | _ => false

/-- One step of a network thread. -/
def threadStep (s : LifeState) : NetThread → ThreadOp → Option (Use × NetThread)
  | .test, .test => some (none, .running s.forceExit .outside)
  | .running leaving .outside, .callback reason =>
    if leaving ∧ ¬ reason.ends then none
    else if reason = .writeable then some (some (.slots, s.slots), .running leaving .outside)
    else if s.cbs then some (none, .running leaving (.calling reason))
    else some (none, .running leaving (reason.after false))
  | .running leaving (.calling reason), .call =>
    some (some (.callbacks, s.cbs), .running leaving (reason.after true))
  | .running leaving .adding, .add valid =>
    some (if valid then some (.pool, s.pool ≠ .closed) else none, .running leaving .outside)
  | .running leaving .clearing, .clear => some (some (.slots, s.slots), .running leaving .outside)
  | .running false .outside, .iterate failed =>
    some (none, if failed then .running true .outside else .test)
  | .running true .outside, .finish => some (none, .gone)
  | _, _ => none

/-- The next step of the `leda_init` or `leda_exit` that runs; a start finds `g_cbs` and
`g_ws_buf` null, so a failure leaves them so. -/
def appNext (ok : Bool) (s : LifeState) : Option LifeState :=
  match s.app with
  | .idle => none
  | .initCbs => if ok then some { s with cbs := true, app := .initFlag }
    else some { s with cbs := false, app := .idle }
  | .initFlag => some { s with forceExit := false, app := .initBuf }
  | .initBuf => if ok then some { s with buf := true, app := .initSlots }
    else some { s with cbs := false, app := .idle }
  -- `g_ws_buf` is set while the slots are allocated, and while they are taken back.
  | .initSlots => if ok then some { s with slots := true, app := .initThread }
    else some { s with cbs := false, buf := false, app := .idle }
  | .initThread => if ok then
      some { s.setThread s.made .test with made := s.made + 1, hasInit := true, app := .idle }
    else some { s with cbs := false, app := .undo }
  | .undo => some { s with buf := false, slots := false, app := .idle }
  | .exitFlag => some { s with forceExit := true, app := .exitCbs }
  | .exitCbs => some { s with cbs := false, app := .exitBuf }
  | .exitBuf => some { s with buf := false, slots := false, app := .exitRest }
  | .exitRest => some { s with hasInit := false, app := .idle }

/-- One step. -/
def lifeStep (s : LifeState) : LifeOp → Option (Use × LifeState)
  | .init poolOk =>
    if s.app ≠ .idle then none
    else if s.hasInit then some (none, s)
    else if poolOk then some (none, { s with pool := .opened, app := .initCbs })
    else some (none, { s with pool := .none })
  | .exit =>
    if s.app ≠ .idle then none
    else
      some (none, { s with pool := if s.pool = .none then .none else .closed, app := .exitFlag })
  | .next ok => (appNext ok s).map fun s' ↦ (none, s')
  | .testBuf => some (none, if s.buf then { s with pushes := s.pushes + 1 } else s)
  | .access =>
    if 0 < s.pushes then some (some (.slots, s.slots), { s with pushes := s.pushes - 1 }) else none
  | .thread i op => (threadStep s (s.threads i) op).map fun (use, t) ↦ (use, s.setThread i t)

/-- A history of steps with the uses that they made. -/
abbrev LifeTrace := List (LifeOp × Use)

/-- Nothing was used that was not there. -/
def UsesLive (tr : LifeTrace) : Prop := ∀ e ∈ tr, ∀ r, e.2 ≠ some (r, false)

/-- A network thread is inside its service loop. -/
def NetThread.Serving (t : NetThread) : Prop := ∃ point, t = .running false point

/-- At most one network thread is inside its service loop. -/
def LifeState.OneServing (s : LifeState) : Prop :=
  ∀ i j, (s.threads i).Serving → (s.threads j).Serving → i = j

/-! ### The calls -/

section Calls
variable {P : Type} {inetAton : CStr → Bool} {info : LedaConnInfo P} {env : LedaInitEnv}
  {g : LedaState P} {s : LifeState}

/-- The state shows the globals between two calls; a start finds `g_cbs` and `g_ws_buf` null. -/
structure LifeState.Shows (s : LifeState) (g : LedaState P) : Prop where
  app : s.app = .idle
  hasInit : s.hasInit = g.gHasInit
  forceExit : s.forceExit = g.client.forceExit
  cbs : s.cbs = g.client.gCbs.isSome
  buf : s.buf = g.client.buf.items.isSome
  slots : s.slots = s.buf
  pool : s.pool = .none ↔ g.gThreadpool = none
  made : s.made = g.client.networkThreads
  null : g.gHasInit = false → g.client.gCbs = none ∧ g.client.buf.items = none

theorem start_shows (null : P) : LifeState.start.Shows (LedaState.initial null) :=
  ⟨rfl, rfl, rfl, rfl, rfl, rfl, iff_of_true rfl rfl, rfl, fun _ ↦ ⟨rfl, rfl⟩⟩

private theorem threadpoolDestroy_keeps (g : LedaState P) :
    (threadpoolDestroy g).client = g.client ∧ (threadpoolDestroy g).gThreadpool = g.gThreadpool := by
  unfold threadpoolDestroy
  split
  · exact ⟨rfl, rfl⟩
  · exact ⟨rfl, rfl⟩

/-- A call of `leda_exit` is a run of steps. -/
theorem exit_shows (h : s.Shows g) :
    ∃ tr s', Run (StepRel.ofFn lifeStep) s tr s' ∧ s'.Shows (ledaExit g) := by
  obtain ⟨app, hasInit, forceExit, cbs, buf, slots, pool, made, threads, pushes⟩ := s
  obtain ⟨rfl, -, -, -, -, -, hpool, hmade, -⟩ := h
  obtain ⟨hclient, hthreadpool⟩ := threadpoolDestroy_keeps g
  have hrun : Run (StepRel.ofFn lifeStep) ⟨.idle, hasInit, forceExit, cbs, buf, slots, pool, made,
      threads, pushes⟩ _ ⟨.idle, false, true, false, false, false,
        if pool = .none then .none else .closed, made, threads, pushes⟩ :=
    Run.of_exec _ (show exec lifeStep _ [.exit, .next true, .next true, .next true, .next true] =
      some ([_, _, _, _, _], _) from rfl)
  have hstopped : (ledaExit g).client = (wsClientDestroy g.client).2 :=
    congrArg (fun client ↦ (wsClientDestroy client).2) hclient
  have hitems : (ledaExit g).client.buf.items = none := by
    rw [hstopped]
    exact items_clientBufMgmtDestroy g.client.buf
  refine ⟨_, _, hrun, rfl, rfl, ?_, ?_, ?_, rfl, ?_, ?_, fun _ ↦ ⟨?_, hitems⟩⟩
  · rw [hstopped]
    rfl
  · rw [hstopped]
    rfl
  · rw [hitems]
    rfl
  · change _ ↔ (threadpoolDestroy g).gThreadpool = none
    rw [hthreadpool, ← hpool]
    cases pool <;> simp
  · rw [hstopped]
    exact hmade
  · rw [hstopped]
    rfl

/-- The rest of `leda_init`, once the pool is created. -/
private theorem initRest_shows (inetAton : CStr → Bool) (info : LedaConnInfo P) (env : LedaInitEnv)
    (threads : Nat → NetThread) (pushes : Nat) (hno : g.gHasInit = false)
    (hpool : g.gThreadpool ≠ none) (hcbs : g.client.gCbs = none) (hbuf : g.client.buf.items = none) :
    ∃ tr s', Run (StepRel.ofFn lifeStep) ⟨.initCbs, false, g.client.forceExit, false, false, false,
      .opened, g.client.networkThreads, threads, pushes⟩ tr s' ∧
        s'.Shows (ledaInitRest inetAton info env g).2 := by
  -- A failure leaves neither callbacks nor queue.
  have hfailed (g' : LedaState P) (hc : g'.client.gCbs = none) (hb : g'.client.buf.items = none)
      (hf : g'.client.forceExit = g.client.forceExit ∨ g'.client.forceExit = false)
      (hm : g'.client.networkThreads = g.client.networkThreads) (hi : g'.gHasInit = false)
      (hp : g'.gThreadpool ≠ none) :
      ∃ tr s', Run (StepRel.ofFn lifeStep) ⟨.initCbs, false, g.client.forceExit, false, false,
        false, .opened, g.client.networkThreads, threads, pushes⟩ tr s' ∧ s'.Shows g' := by
    have hshows (flag : Bool) (hflag : flag = g'.client.forceExit) :
        LifeState.Shows ⟨.idle, false, flag, false, false, false, .opened, g.client.networkThreads,
          threads, pushes⟩ g' :=
      ⟨rfl, hi.symm, hflag, by rw [hc]; rfl, by rw [hb]; rfl, rfl,
        iff_of_false (fun h ↦ by cases h) hp, hm.symm, fun _ ↦ ⟨hc, hb⟩⟩
    rcases hf with hf | hf
    · exact ⟨_, _, Run.of_exec _ (show exec lifeStep _ [.next false] = some ([_], _) from rfl),
        hshows _ hf.symm⟩
    · exact ⟨_, _, Run.of_exec _ (show exec lifeStep _ [.next true, .next true, .next false] =
        some ([_, _, _], _) from rfl), hshows _ hf.symm⟩
  rw [ledaInitRest]
  cases checkedIp inetAton info with
  | none => exact hfailed g hcbs hbuf (.inl rfl) rfl hno hpool
  | some ip =>
    obtain ⟨ok, strings, conn, hcopy, -⟩ := copyConnInfo_cases env info (serverUrl info ip).str g
    simp only [hcopy]
    cases ok with
    | false => exact hfailed _ hcbs hbuf (.inl rfl) rfl hno hpool
    | true =>
      dsimp only
      generalize hg1 : registerCallbacks info { g with strings := strings, gWscConn := conn } = g1
      have hclient : g1.client = g.client := by rw [← hg1]; rfl
      have hno1 : g1.gHasInit = false := by rw [← hg1]; exact hno
      have hpool1 : g1.gThreadpool ≠ none := by rw [← hg1]; exact hpool
      rcases wscInit_cases env.client g1.gParamConn ledaCallbacks (hclient ▸ hcbs)
        (hclient ▸ hbuf) with ⟨hret, flag, buf, hb, hflag, heq⟩ | ⟨hret, buf, hb, heq⟩
      · rw [if_pos hret, heq]
        rw [hclient] at hflag
        exact hfailed _ rfl hb hflag (by rw [hclient]) hno1 hpool1
      · rw [if_neg (not_not.mpr hret), heq]
        have hrun : Run (StepRel.ofFn lifeStep) ⟨.initCbs, false, g.client.forceExit, false, false,
            false, .opened, g.client.networkThreads, threads, pushes⟩ _ ⟨.idle, true, false, true,
              true, true, .opened, g.client.networkThreads + 1,
              fun j ↦ if j = g.client.networkThreads then .test else threads j, pushes⟩ :=
          Run.of_exec _ (show exec lifeStep _ [.next true, .next true, .next true, .next true,
            .next true] = some ([_, _, _, _, _], _) from rfl)
        refine ⟨_, _, hrun, rfl, rfl, rfl, rfl, ?_, rfl, iff_of_false (fun h ↦ by cases h) hpool1, ?_,
          fun h ↦ by cases h⟩
        · exact (Option.isSome_iff_ne_none.mpr hb).symm
        · rw [hclient]

/-- A call of `leda_init` is a run of steps. -/
theorem init_shows (inetAton : CStr → Bool) (info : LedaConnInfo P) (env : LedaInitEnv)
    (h : s.Shows g) :
    ∃ tr s', Run (StepRel.ofFn lifeStep) s tr s' ∧ s'.Shows (ledaInit inetAton info env g).2 := by
  obtain ⟨app, hasInit, forceExit, cbs, buf, slots, pool, made, threads, pushes⟩ := s
  have hshown := h
  obtain ⟨rfl, hinit, hflag, hcbs, hbuf, hslots, hpool, hmade, hnull⟩ := h
  dsimp only at hinit hflag hcbs hbuf hslots hpool hmade
  rw [ledaInit]
  cases hno : g.gHasInit with
  | true => exact ⟨[], _, .nil, hshown⟩
  | false =>
    obtain ⟨hcbs0, hbuf0⟩ := hnull hno
    rw [hno] at hinit
    rw [hcbs0] at hcbs
    rw [hbuf0] at hbuf
    subst hinit hflag hcbs hbuf hslots hmade
    cases hpoolOk : env.poolOk with
    | false =>
      refine ⟨_, _, Run.of_exec _ (show exec lifeStep _ [.init false] = some ([_], _) from rfl), ?_⟩
      refine ⟨rfl, ?_, ?_, ?_, ?_, rfl, ?_, ?_, ?_⟩
      all_goals simp [threadpoolCreate, hno, hcbs0, hbuf0]
    | true =>
      have hcreate : Run (StepRel.ofFn lifeStep) ⟨.idle, false, g.client.forceExit, false, false,
          false, pool, g.client.networkThreads, threads, pushes⟩ [(.init true, none)]
          ⟨.initCbs, false, g.client.forceExit, false, false, false, .opened,
            g.client.networkThreads, threads, pushes⟩ := Run.single (R := StepRel.ofFn lifeStep) rfl
      obtain ⟨tr, s', hrun, hshows⟩ := initRest_shows inetAton info env threads pushes
        (show (threadpoolCreate true g).gHasInit = false from hno) (Option.some_ne_none _) hcbs0 hbuf0
      exact ⟨_, s', hcreate.append hrun, hshows⟩

end Calls

end LedaSdk.Leda
