import LedaSdk.AliWs.Client
import LedaSdk.AliWs.SlotInvariant
import LedaSdk.Base.KeyedList
import LedaSdk.Leda.RecvProc

/-!
# Starting and stopping the SDK

`sdk/leda.c:80–112,1095–1379` and `sdk/export/include/leda.h:30–44,168–185`: `leda_init`
and `leda_exit` on the globals that they read and write. Thread pools are numbered in the
order of their creation, strings live in a heap of their own, and each failure of a system
call is a parameter. `inet_aton` is a predicate on its argument.
-/

namespace LedaSdk.Leda
open LedaSdk.Base LedaSdk.AliWs

/-- Strings on the heap by address; `next` is the address of the next allocation. -/
structure StrHeap where
  next : Nat
  live : List (Nat × CStr)
  deriving DecidableEq

/-- A `malloc` followed by a `strcpy` into the block. -/
def StrHeap.copy (ok : Bool) (s : CStr) (h : StrHeap) : Ptr × StrHeap :=
  if ok then (some h.next, ⟨h.next + 1, (h.next, s) :: h.live⟩) else (none, h)

/-- A `free` of a pointer that is not null. -/
def StrHeap.free (p : Ptr) (h : StrHeap) : StrHeap :=
  match p with
  | none => h
  | some addr => { h with live := KeyedList.erase Prod.fst addr h.live }

/-- `ws_conn_cb_t`, `leda.h:38–48`. -/
structure WsConnCb (P : Type) where
  connStateChangeCb : Option P
  usrData : P

/-- `leda_conn_info_t`, `leda.h:168–183`. -/
structure LedaConnInfo (P : Type) where
  serverIp : Option CStr
  serverPort : UInt16
  useTls : Int32
  caPath : Option CStr
  certPath : Option CStr
  keyPath : Option CStr
  timeout : Int32
  wsConnCb : WsConnCb P
  connDevicesCb : LedaDeviceCallback P

/-- The globals of `leda.c` that starting and stopping use, with the pools that have been
created and not destroyed. -/
structure LedaState (P : Type) where
  gThreadpool : Option Nat
  poolCount : Nat
  livePools : List Nat
  gHasInit : Bool
  gConnState : Int32
  gMsgId : UInt32
  gWscConn : WscParamConn
  gParamConn : WscParamConn
  gConnCb : WsConnCb P
  gDevsCb : LedaDeviceCallback P
  strings : StrHeap
  client : WsClient

/-- Results of the system calls made by one `leda_init`. -/
structure LedaInitEnv where
  poolOk : Bool
  protocolOk : Bool
  urlOk : Bool
  caPathOk : Bool
  client : WscInitEnv

/-- `CONN_PROTOCOL`, `leda.c:54`. -/
def connProtocol : CStr := .lit "alibaba-iot-linkedge-protocol"

section Init
variable {P : Type}

/-- `threadpool_create`, with the assignment to `g_threadpool`, `leda.c:1113`. -/
def threadpoolCreate (ok : Bool) (g : LedaState P) : LedaState P :=
  if ok then
    { g with gThreadpool := some g.poolCount, poolCount := g.poolCount + 1,
             livePools := g.poolCount :: g.livePools }
  else { g with gThreadpool := none }

/-- `threadpool_destroy` of a pool that waits for its tasks, `leda.c:1324–1327`. -/
def threadpoolDestroy (g : LedaState P) : LedaState P :=
  match g.gThreadpool with
  | none => g
  | some pool => { g with livePools := g.livePools.erase pool }

/-- The checks of the arguments, `leda.c:1121–1138`; `none` is their error. -/
def checkedIp (inetAton : CStr → Bool) (info : LedaConnInfo P) : Option CStr :=
  match info.serverIp with
  | none => none
  | some ip =>
    if inetAton ip = false then none
    else if 65535 < info.serverPort.toNat then none
    else if info.useTls ≠ 0 ∧ info.useTls ≠ 1 then none
    else some ip

/-- The URL of the server, `leda.c:1140–1147`. -/
def serverUrl (info : LedaConnInfo P) (ip : CStr) : CharBuf 64 :=
  .snprintf 64 (.ofBuffer (text (if info.useTls = 0 then "ws://" else "wss://") ++ ip.bytes ++
    text ":" ++ intText info.serverPort.toNat))

/-- The copies of the arguments into `g_wsc_conn`, `leda.c:1165–1233`, without dual
certification: whether all succeeded, and the globals then. -/
def copyConnInfo (env : LedaInitEnv) (info : LedaConnInfo P) (url : CStr) (g : LedaState P) :
    Bool × LedaState P :=
  let (protocol, strings) := g.strings.copy env.protocolOk connProtocol
  let g := { g with strings := strings, gWscConn := { g.gWscConn with protocol := protocol } }
  if protocol = none then (false, g)
  else
    let (urlPtr, strings) := g.strings.copy env.urlOk url
    let g := { g with strings := strings, gWscConn := { g.gWscConn with url := urlPtr } }
    if urlPtr = none then (false, g)
    else if info.useTls = 1 then
      match info.caPath with
      | none =>
        (true, { g with gWscConn :=
          { g.gWscConn with certPath := none, keyPath := none, timeout := info.timeout } })
      | some ca =>
        let (caPtr, strings) := g.strings.copy env.caPathOk ca
        let g := { g with strings := strings, gWscConn := { g.gWscConn with caPath := caPtr } }
        if caPtr = none then (false, g)
        else
          (true, { g with gWscConn :=
            { g.gWscConn with certPath := none, keyPath := none, timeout := info.timeout } })
    else
      (true, { g with gWscConn := { g.gWscConn with
        caPath := none, certPath := none, keyPath := none, timeout := info.timeout } })

/-- The frees of the strings of `g_wsc_conn`, `leda.c:1287–1317` and `leda.c:1335–1373`. -/
def freeConnStrings (g : LedaState P) : LedaState P :=
  { g with
    strings := ((((g.strings.free g.gWscConn.protocol).free g.gWscConn.keyPath).free
      g.gWscConn.certPath).free g.gWscConn.caPath).free g.gWscConn.url
    gWscConn := { g.gWscConn with
      protocol := none, keyPath := none, certPath := none, caPath := none, url := none } }

/-- The parameters and callbacks that are set before `wsc_init`, `leda.c:1235–1273`. -/
def registerCallbacks (info : LedaConnInfo P) (g : LedaState P) : LedaState P :=
  { g with
    gParamConn := { g.gWscConn with certPath := none, keyPath := none }
    gConnCb := info.wsConnCb
    gDevsCb := info.connDevicesCb }

/-- The callbacks that `leda_init` passes to `wsc_init`, `leda.c:1248–1250`. -/
def ledaCallbacks : WscParamCb := ⟨some .cbWsEstab, some .cbWsClose, some .cbWsRecv⟩

/-- `leda_init` after the creation of the pool, `leda.c:1120–1320`. -/
def ledaInitRest (inetAton : CStr → Bool) (info : LedaConnInfo P) (env : LedaInitEnv)
    (g : LedaState P) : Int32 × LedaState P :=
  match checkedIp inetAton info with
  | none => (leErrorInvaildParam, g)
  | some ip =>
    match copyConnInfo env info (serverUrl info ip).str g with
    | (false, g) => (leErrorAllocatingMem, freeConnStrings g)
    | (true, g) =>
      let g := registerCallbacks info g
      let (ret, client) := wscInit env.client g.gParamConn ledaCallbacks g.client
      let g := { g with client := client }
      if ret ≠ leSuccess then (ret, g) else (leSuccess, { g with gHasInit := true })

/-- `leda_init`, `leda.c:1095–1320`. -/
def ledaInit (inetAton : CStr → Bool) (info : LedaConnInfo P) (env : LedaInitEnv)
    (g : LedaState P) : Int32 × LedaState P :=
  if g.gHasInit then (leSuccess, g)
  else
    let g := threadpoolCreate env.poolOk g
    if g.gThreadpool = none then (leErrorAllocatingMem, g) else ledaInitRest inetAton info env g

/-- A pointer of `g_param_conn` after the string of `g_wsc_conn` was freed, if there was
one. -/
def clearedWith (string param : Ptr) : Ptr := if string = none then param else none

/-- `leda_exit` after the destruction of the pool, `leda.c:1329–1378`. -/
def ledaExitRest (g : LedaState P) : LedaState P :=
  let c := g.gWscConn
  let p := g.gParamConn
  freeConnStrings { g with
    client := (wsClientDestroy g.client).2
    gHasInit := false
    gConnState := -1
    gMsgId := 0
    gParamConn := { p with
      protocol := clearedWith c.protocol p.protocol, keyPath := clearedWith c.keyPath p.keyPath,
      certPath := clearedWith c.certPath p.certPath, caPath := clearedWith c.caPath p.caPath,
      url := clearedWith c.url p.url } }

/-- `leda_exit`, `leda.c:1322–1379`. -/
def ledaExit (g : LedaState P) : LedaState P := ledaExitRest (threadpoolDestroy g)

end Init

/-! ### What starting does -/

/-- The members that say which pools there are. -/
structure PoolView where
  handle : Option Nat
  count : Nat
  live : List Nat

/-- See `PoolView`. -/
def LedaState.pools {P : Type} (g : LedaState P) : PoolView :=
  ⟨g.gThreadpool, g.poolCount, g.livePools⟩

section Cases
variable {P : Type} {inetAton : CStr → Bool} {info : LedaConnInfo P} {env : LedaInitEnv}
  {g : LedaState P}

/-- Copying the arguments changes the strings and `g_wsc_conn` alone, and sets the URL if it
succeeds. -/
theorem copyConnInfo_cases (env : LedaInitEnv) (info : LedaConnInfo P) (url : CStr)
    (g : LedaState P) : ∃ ok strings conn,
      copyConnInfo env info url g = (ok, { g with strings := strings, gWscConn := conn }) ∧
        (ok = true → conn.url ≠ none) := by
  have hcopy (ok : Bool) (s : CStr) (h : StrHeap) :
      ∃ ptr heap, h.copy ok s = (ptr, heap) := ⟨_, _, rfl⟩
  obtain ⟨protocol, heap1, h1⟩ := hcopy env.protocolOk connProtocol g.strings
  obtain ⟨urlPtr, heap2, h2⟩ := hcopy env.urlOk url heap1
  simp only [copyConnInfo, h1, h2]
  by_cases hp : protocol = none
  · exact ⟨false, _, _, if_pos hp, by simp⟩
  · rw [if_neg hp]
    by_cases hu : urlPtr = none
    · exact ⟨false, _, _, if_pos hu, by simp⟩
    · rw [if_neg hu]
      by_cases ht : info.useTls = 1
      · rw [if_pos ht]
        cases info.caPath with
        | none => exact ⟨true, _, _, rfl, fun _ ↦ hu⟩
        | some ca =>
          obtain ⟨caPtr, heap3, h3⟩ := hcopy env.caPathOk ca heap2
          simp only [h3]
          by_cases hc : caPtr = none
          · exact ⟨false, _, _, if_pos hc, by simp⟩
          · exact ⟨true, _, _, if_neg hc, fun _ ↦ hu⟩
      · rw [if_neg ht]
        exact ⟨true, _, _, rfl, fun _ ↦ hu⟩

/-- What an initialisation past the creation of the pool leaves: the pools as they were, and
the callbacks registered exactly if it succeeded. -/
structure StartedFrom (g : LedaState P) (r : Int32 × LedaState P) : Prop where
  pools_eq : r.2.pools = g.pools
  hasInit_iff : r.2.gHasInit = true ↔ r.1 = leSuccess
  registered : r.1 = leSuccess → r.2.client.gCbs = some ledaCallbacks
  unregistered : r.1 ≠ leSuccess → g.client.gCbs = none → r.2.client.gCbs = none

theorem StartedFrom.failed {ret : Int32} {g' : LedaState P} (hret : ret ≠ leSuccess)
    (hpools : g'.pools = g.pools) (hinit : g'.gHasInit = false)
    (hcbs : g.client.gCbs = none → g'.client.gCbs = none) : StartedFrom g (ret, g') where
  pools_eq := hpools
  hasInit_iff := iff_of_false (by rw [hinit]; decide) hret
  registered h := absurd h hret
  unregistered _ := hcbs

theorem startedFrom_ledaInitRest (hno : g.gHasInit = false) :
    StartedFrom g (ledaInitRest inetAton info env g) := by
  rw [ledaInitRest]
  cases checkedIp inetAton info with
  | none => exact .failed (by decide) rfl hno id
  | some ip =>
    obtain ⟨ok, strings, conn, hcopy, hurl⟩ :=
      copyConnInfo_cases env info (serverUrl info ip).str g
    simp only [hcopy]
    cases ok with
    | false => exact .failed (by decide) rfl hno id
    | true =>
      have hcbs : (wscInit env.client { conn with certPath := none, keyPath := none }
          ledaCallbacks g.client).2.gCbs = _ := gCbs_wscInit (hurl rfl)
      by_cases hret : (wscInit env.client { conn with certPath := none, keyPath := none }
          ledaCallbacks g.client).1 = leSuccess
      · rw [if_pos hret] at hcbs
        simp only [registerCallbacks, hret, ne_eq, not_true_eq_false, if_false]
        exact ⟨rfl, by simp, fun _ ↦ hcbs, fun h ↦ absurd rfl h⟩
      · rw [if_neg hret] at hcbs
        simp only [registerCallbacks, hret, ne_eq, not_false_eq_true, if_true]
        exact .failed hret rfl hno fun _ ↦ hcbs

/-- The outcomes of `leda_init`: nothing where the SDK is initialised, a null handle where no
pool can be created, and else a new pool. -/
theorem ledaInit_cases (inetAton : CStr → Bool) (info : LedaConnInfo P) (env : LedaInitEnv)
    (g : LedaState P) :
    (g.gHasInit = true ∧ ledaInit inetAton info env g = (leSuccess, g)) ∨
    (g.gHasInit = false ∧ env.poolOk = false ∧
      ledaInit inetAton info env g = (leErrorAllocatingMem, { g with gThreadpool := none })) ∨
    (g.gHasInit = false ∧ env.poolOk = true ∧
      StartedFrom (threadpoolCreate true g) (ledaInit inetAton info env g)) := by
  rw [ledaInit]
  cases hinit : g.gHasInit with
  | true => exact .inl ⟨rfl, rfl⟩
  | false =>
    cases hpool : env.poolOk with
    | false =>
      refine .inr (.inl ⟨rfl, rfl, ?_⟩)
      simp [threadpoolCreate, hinit]
    | true =>
      refine .inr (.inr ⟨rfl, rfl, ?_⟩)
      exact startedFrom_ledaInitRest (g := threadpoolCreate true g) hinit

end Cases

/-! ### A failed start -/

section Failure
variable {P : Type}

/-- The globals before any call; `null` is the null pointer. -/
def LedaState.initial (null : P) : LedaState P where
  gThreadpool := none
  poolCount := 0
  livePools := []
  gHasInit := false
  gConnState := -1
  gMsgId := 0
  gWscConn := ⟨none, 0, none, none, none, none⟩
  gParamConn := ⟨none, 0, none, none, none, none⟩
  gConnCb := ⟨none, null⟩
  gDevsCb := ⟨none, null, none, null, none, 0, null, none, null⟩
  strings := ⟨0, []⟩
  client := .zero

/-- The explicit state is the same: the running pools, the allocated strings and every global.
How many pools and strings there were before is left out. -/
structure SameState (g g' : LedaState P) : Prop where
  gThreadpool : g'.gThreadpool = g.gThreadpool
  livePools : g'.livePools = g.livePools
  gHasInit : g'.gHasInit = g.gHasInit
  gConnState : g'.gConnState = g.gConnState
  gMsgId : g'.gMsgId = g.gMsgId
  gWscConn : g'.gWscConn = g.gWscConn
  gParamConn : g'.gParamConn = g.gParamConn
  gConnCb : g'.gConnCb = g.gConnCb
  gDevsCb : g'.gDevsCb = g.gDevsCb
  strings : g'.strings.live = g.strings.live
  client : g'.client = g.client

/-- Started where the SDK is not initialised, `leda_init` fails and leaves the state as it was
exactly if it could not create a pool and there was no handle before. -/
theorem ledaInit_failure_unchanged_iff (inetAton : CStr → Bool) (info : LedaConnInfo P)
    (env : LedaInitEnv) (g : LedaState P) (hno : g.gHasInit = false) :
    ((ledaInit inetAton info env g).1 ≠ leSuccess ∧
        SameState g (ledaInit inetAton info env g).2) ↔
      env.poolOk = false ∧ g.gThreadpool = none := by
  rcases ledaInit_cases inetAton info env g with ⟨hinit, -⟩ | ⟨-, hpool, heq⟩ | ⟨-, hpool, hstart⟩
  · rw [hno] at hinit
    cases hinit
  · rw [heq]
    constructor
    · rintro ⟨-, hsame⟩
      exact ⟨hpool, hsame.gThreadpool.symm⟩
    · rintro ⟨-, hnone⟩
      have hret : leErrorAllocatingMem ≠ leSuccess := by decide
      exact ⟨hret, hnone.symm, rfl, rfl, rfl, rfl, rfl, rfl, rfl, rfl, rfl, rfl⟩
  · -- The new pool is still running.
    have hlive : (ledaInit inetAton info env g).2.livePools = g.poolCount :: g.livePools :=
      congrArg PoolView.live hstart.pools_eq
    constructor
    · rintro ⟨-, hsame⟩
      have hlen := congrArg List.length (hlive.symm.trans hsame.livePools)
      simp at hlen
    · rintro ⟨hfail, -⟩
      rw [hpool] at hfail
      cases hfail

/-- A system in which every call succeeds. -/
def LedaInitEnv.allOk : LedaInitEnv := ⟨true, true, true, true, ⟨true, InitEnv.allOk, true⟩⟩

/-- Connection information without callbacks. -/
def plainConnInfo (serverIp : CStr) : LedaConnInfo Unit :=
  ⟨some serverIp, 8080, 0, none, none, none, 60, ⟨none, ()⟩,
    ⟨none, (), none, (), none, 0, (), none, ()⟩⟩

/-- Without memory for a pool nothing changes. -/
theorem ledaInit_failure_unchanged_iff_initial :
    SameState (LedaState.initial ()) (ledaInit (fun _ ↦ true) (plainConnInfo (.lit "127.0.0.1"))
      { LedaInitEnv.allOk with poolOk := false } (LedaState.initial ())).2 := by
  apply And.right
  apply (ledaInit_failure_unchanged_iff (fun _ ↦ true) (plainConnInfo (.lit "127.0.0.1"))
    { LedaInitEnv.allOk with poolOk := false } (LedaState.initial ()) rfl).mpr
  exact ⟨rfl, rfl⟩

/-- An address that `inet_aton` does not accept leaves a running pool behind. -/
theorem invalid_address_leaves_pool :
    (ledaInit (fun _ ↦ false) (plainConnInfo (.lit "localhost")) LedaInitEnv.allOk
        (LedaState.initial ())).1 = leErrorInvaildParam ∧
      (ledaInit (fun _ ↦ false) (plainConnInfo (.lit "localhost")) LedaInitEnv.allOk
        (LedaState.initial ())).2.livePools = [0] ∧
      ¬ SameState (LedaState.initial ()) (ledaInit (fun _ ↦ false)
        (plainConnInfo (.lit "localhost")) LedaInitEnv.allOk (LedaState.initial ())).2 := by
  refine ⟨rfl, rfl, ?_⟩
  intro hsame
  exact absurd hsame.livePools (by decide)

end Failure

end LedaSdk.Leda
