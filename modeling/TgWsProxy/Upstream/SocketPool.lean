import Mathlib.Data.List.Sort
import TgWsProxy.Config
import TgWsProxy.Core.Transition
import TgWsProxy.Core.UpdateFirst

/-!
# The warm socket pools

The pools of `upstream.rs`: which buckets there are, how clients take sockets from them and
how `maintain` fills them, one dial at a time. A map is a list of its entries; a `ws` call
is answered by a function of what it asks for.
-/

namespace TgWsProxy

open TgWsProxy.Core

/-! ## Addresses -/

/-- `DC_IDS`. -/
def dcIds : List Int := [1, 2, 3, 4, 5, 203]

/-- `fallback_ip`. -/
def fallbackIp (dc : Int) (test : Bool) : Option String :=
  if test then
    match dc with
    | 1 => some "149.154.175.10"
    | 2 => some "149.154.167.40"
    | 3 => some "149.154.175.117"
    | _ => none
  else
    match dc with
    | 1 => some "149.154.175.50"
    | 2 => some "149.154.167.51"
    | 3 => some "149.154.175.100"
    | 4 => some "149.154.167.91"
    | 5 => some "149.154.171.5"
    | 203 => some "91.105.192.100"
    | _ => none

/-- `ws_domains`. -/
def wsDomains (dc : Int) (media : Bool) : List String :=
  let dc := if dc = 203 then 2 else dc
  let regular := s!"kws{dc}.web.telegram.org"
  if media then [s!"kws{dc}-1.web.telegram.org", regular] else [regular]

/-- `ws_path`. -/
def wsPath (test : Bool) : String := if test then "/apiws_test" else "/apiws"

/-- `worker_path`. -/
def workerPath (dc : Int) (ip : String) : String := s!"/apiws?dc={dc}&dst={ip}"

/-! ## Dialling -/

/-- What a call of `ws` asks for. -/
structure WsRequest where
  host : String
  domain : String
  sni : String
  path : String
  direct : Bool
  secure : Bool
  deriving DecidableEq

/-- The answer of `ws` to each request. -/
abbrev WsAnswers := WsRequest → Except IoError Unit

/-- `should_front`. -/
def shouldFront (e : IoError) : Bool := e.kind = .timedOut ∨ e.kind = .connectionReset

/-- The loop of `pool_direct`. -/
def poolDirectFrom (cfg : Config) (ws : WsAnswers) (ip path : String) (last : IoError) :
    List String → Except IoError WsRequest
  | [] => .error last
  | domain :: rest =>
    let request : WsRequest := ⟨ip, domain, domain, path, true, true⟩
    match ws request with
    | .ok _ => .ok request
    | .error e =>
      if cfg.sniFronting ∧ shouldFront e then
        let fronted : WsRequest := ⟨ip, domain, "sprinthost.ru", path, true, true⟩
        match ws fronted with
        | .ok _ => .ok fronted
        | .error e => poolDirectFrom cfg ws ip path e rest
      else poolDirectFrom cfg ws ip path e rest

/-- `pool_direct`; `none` where indexing `dc_redirects` panics. -/
def poolDirect (cfg : Config) (ws : WsAnswers) (dc : Int) (media test : Bool) :
    Option (Except IoError WsRequest) :=
  cfg.dcRedirects[dc]?.map fun ip =>
    poolDirectFrom cfg ws ip (wsPath test) ⟨.notConnected, "no direct WebSocket route"⟩
      (wsDomains dc media)

/-- `worker`, with the shuffled domains. -/
def worker (cfg : Config) (ws : WsAnswers) (dc : Int) (ip : String) (last : IoError) :
    List String → Except IoError WsRequest
  | [] => .error last
  | domain :: rest =>
    let request : WsRequest :=
      ⟨domain, domain, domain, workerPath dc ip, false, !cfg.disableSecure⟩
    match ws request with
    | .ok _ => .ok request
    | .error e => worker cfg ws dc ip e rest

/-! ## Buckets -/

/-- `PoolKey`. -/
inductive PoolKey
  | direct (dc : Int) (media test : Bool)
  | worker (dc : Int)
  deriving DecidableEq

/-- The derived order of the keys. -/
def PoolKey.le : PoolKey → PoolKey → Bool
  | .direct dc media test, .direct dc' media' test' =>
    dc < dc' ∨ dc = dc' ∧ (media < media' ∨ media = media' ∧ test ≤ test')
  | .direct .., .worker _ => true
  | .worker _, .direct .. => false
  | .worker dc, .worker dc' => dc ≤ dc'

/-- `DIRECT_POOL_MAX_AGE` and `WORKER_POOL_MAX_AGE`. -/
def poolMaxAge : PoolKey → Nat
  | .direct .. => seconds 120
  | .worker _ => seconds 100

/-- `refill_backoff`. -/
def refillBackoff (failures : Nat) : Nat := seconds (min (1 <<< min (failures - 1) 12) 3600)

/-- The dial of `maintain` for a bucket; `none` where it panics. -/
def dial (cfg : Config) (ws : WsAnswers) (shuffled : List String) :
    PoolKey → Option (Except IoError WsRequest)
  | .direct dc media test => poolDirect cfg ws dc media test
  | .worker dc =>
    (fallbackIp dc false).map fun ip =>
      worker cfg ws dc ip ⟨.notConnected, "no workers available"⟩ shuffled

/-- A socket that was dialled for a bucket, numbered in the order of the dials. -/
structure PoolSocket where
  id : Nat
  key : PoolKey
  request : WsRequest

structure Idle where
  socket : PoolSocket
  created : Nat

structure Bucket where
  idle : List Idle := []
  failures : Nat := 0
  retry : Option Nat := none
  refillRequested : Bool := false

abbrev Pools := List (PoolKey × Bucket)

namespace Pools

def get (pools : Pools) (key : PoolKey) : Option Bucket := (pools.find? (·.1 = key)).map (·.2)

/-- `keys`, in the order of a `BTreeMap`. -/
def keys (pools : Pools) : List PoolKey :=
  (pools.map (·.1)).insertionSort fun key other => key.le other

def modify (key : PoolKey) (f : Bucket → Bucket) (pools : Pools) : Pools :=
  updateFirst (·.1 = key) (fun e => (e.1, f e.2)) pools

/-- `entry(key).or_default()`. -/
def orDefault (pools : Pools) (key : PoolKey) : Pools :=
  if (get pools key).isSome then pools else pools ++ [(key, ({} : Bucket))]

end Pools

/-- The buckets that `Upstream::new` creates. -/
def initialPools (cfg : Config) : Pools :=
  if cfg.poolSize = 0 then []
  else
    let direct := cfg.dcRedirects.keys.flatMap fun dc =>
      [false, true].map fun media => (PoolKey.direct dc media cfg.forceTestDc, ({} : Bucket))
    let workers :=
      if cfg.forceTestDc ∨ cfg.cfproxyWorkerDomains = [] then []
      else (dcIds.filter (· ∉ cfg.dcRedirects)).map fun dc => (PoolKey.worker dc, ({} : Bucket))
    direct ++ workers

/-- The `cap` of a bucket. -/
def capacity (cfg : Config) : PoolKey → Nat
  | .direct .. => cfg.poolSize.toNat
  | .worker _ => 1

/-! ## Clients and the maintenance loop -/

/-- Where a client is on its way through `connect_inner`, as far as pools are concerned. -/
inductive ClientStage
  /-- It is about to call `direct_route`. -/
  | entered
  /-- In `take_pool`, about to take a socket. -/
  | taking (key : PoolKey)
  /-- It has taken one and is about to check its age. -/
  | popped (key : PoolKey) (item : Idle)
  /-- It awaits `idle_healthy`. -/
  | examining (key : PoolKey) (item : Idle) (checkedAt : Nat)
  /-- It is about to ask for a refill. -/
  | missed (key : PoolKey)
  | hit (key : PoolKey) (item : Idle) (checkedAt : Nat)
  /-- `direct_route` has given nothing. -/
  | fallback
  /-- It has a pooled socket, goes on without one or is gone. -/
  | done

structure PoolClient where
  dc : Int
  media : Bool
  test : Bool
  stage : ClientStage := .entered

/-- A pooled socket that a client has got. -/
structure HandOut where
  dc : Int
  media : Bool
  test : Bool
  key : PoolKey
  socket : PoolSocket
  created : Nat
  checkedAt : Nat

/-- Where `maintain` is. -/
inductive Maintain
  | starting
  /-- The buckets of this pass that are left, `attempted` and `next_retry`. -/
  | passing (rest : List PoolKey) (attempted : Bool) (nextRetry : Option Nat)
  /-- It awaits the dial for a bucket. -/
  | dialling (key : PoolKey) (rest : List PoolKey) (nextRetry : Option Nat)
  | waiting (deadline : Nat)
  | stopped
  | panicked

/-- The pools with their clients. -/
structure SocketPool where
  config : Config
  clock : Nat := 0
  pools : Pools
  clients : List PoolClient := []
  maintain : Maintain := .starting
  /-- The permit of `pool_wakeup`. -/
  wakeup : Bool := false
  nextId : Nat := 0
  handed : List HandOut := []

/-- The steps; clients are named by their positions. -/
inductive PoolAction
  | tick (elapsed : Nat)
  | connect (dc : Int) (media test : Bool)
  | directRoute (client : Nat)
  | pop (client : Nat)
  | checkAge (client : Nat)
  | examine (client : Nat) (healthy : Bool)
  | requestRefill (client : Nat)
  | workerRoute (client : Nat)
  /-- A timeout of `direct_route` alone or of the whole connect, where the client waits. -/
  | cancel (client : Nat) (whole : Bool)
  | startPass
  | examineBucket
  | finishDial (shuffled : List String) (ws : WsAnswers)
  | endPass
  | wake (notified : Bool)

namespace SocketPool

/-- A client goes on. -/
def advance (s : SocketPool) (client : Nat) (c : PoolClient) (stage : ClientStage) : SocketPool :=
  { s with clients := s.clients.set client { c with stage } }

/-- The direct route of a client up to `take_pool`. -/
def directRoute (s : SocketPool) (client : Nat) (c : PoolClient) : SocketPool :=
  if c.dc ∉ s.config.dcRedirects ∨ s.config.poolSize = 0 then s.advance client c .fallback
  else
    let key := PoolKey.direct c.dc c.media c.test
    { s with pools := Pools.orDefault s.pools key }.advance client c (.taking key)

/-- The locked section of `take_pool`. -/
def pop (s : SocketPool) (client : Nat) (c : PoolClient) (key : PoolKey) : SocketPool :=
  match (Pools.get s.pools key).bind (·.idle.getLast?) with
  | none => s.advance client c (.missed key)
  | some item =>
    { s with
      pools := Pools.modify key (fun b => { b with idle := b.idle.dropLast }) s.pools }.advance
        client c (.popped key item)

/-- `request_refill`. -/
def requestRefill (s : SocketPool) (key : PoolKey) : SocketPool :=
  { s with
    pools := Pools.modify key (fun b => { b with refillRequested := true }) s.pools
    wakeup := s.wakeup || (Pools.get s.pools key).any (!·.refillRequested) }

/-- What `connect_inner` does after `direct_route`. -/
def workerRoute (s : SocketPool) (client : Nat) (c : PoolClient) : SocketPool :=
  if (fallbackIp c.dc c.test).isSome ∧ s.config.cfproxyWorkerDomains ≠ [] ∧ c.test = false ∧
      s.config.poolSize ≠ 0 then
    s.advance client c (.taking (.worker c.dc))
  else s.advance client c .done

/-- `maintain` looks at a bucket. -/
def examineBucket (s : SocketPool) (key : PoolKey) (rest : List PoolKey) (attempted : Bool)
    (nextRetry : Option Nat) : SocketPool :=
  match Pools.get s.pools key with
  | none => { s with maintain := .panicked }
  | some bucket =>
    let fresh (item : Idle) : Bool := s.clock - item.created < poolMaxAge key
    let capacityMissing := (bucket.idle.filter fresh).length < capacity s.config key
    let needed := capacityMissing ∧ bucket.retry.all (· ≤ s.clock)
    let refillRequested := bucket.refillRequested && capacityMissing && !needed
    let nextRetry :=
      if capacityMissing then
        match bucket.retry.filter (· > s.clock) with
        | some retry => some (nextRetry.elim retry (min · retry))
        | none => nextRetry
      else nextRetry
    let s := { s with
      pools := Pools.modify key (fun b => { b with
        idle := b.idle.filter fresh
        refillRequested }) s.pools }
    if needed then { s with maintain := .dialling key rest nextRetry }
    else { s with maintain := .passing rest attempted nextRetry }

/-- The end of a dial. -/
def finishDial (s : SocketPool) (key : PoolKey) (rest : List PoolKey) (nextRetry : Option Nat)
    (shuffled : List String) (ws : WsAnswers) : SocketPool :=
  match dial s.config ws shuffled key, Pools.get s.pools key with
  | some (.ok request), some _ =>
    { s with
      pools := Pools.modify key (fun b => { b with
        idle := b.idle ++ [⟨⟨s.nextId, key, request⟩, s.clock⟩]
        failures := 0
        retry := none }) s.pools
      nextId := s.nextId + 1
      maintain := .passing rest true nextRetry }
  | some (.error _), some bucket =>
    let failures := min (bucket.failures + 1) (2 ^ 32 - 1)
    { s with
      pools := Pools.modify key (fun b => { b with
        failures
        retry := some (s.clock + refillBackoff failures) }) s.pools
      maintain := .passing rest true nextRetry }
  | _, _ => { s with maintain := .panicked }

/-- How long `maintain` sleeps after a pass without a dial. -/
def passDelay (s : SocketPool) (nextRetry : Option Nat) : Nat :=
  min ((nextRetry.map (· - s.clock)).getD (seconds 5)) (seconds 5)

/-- The effect of one step. -/
def step (s : SocketPool) : PoolAction → Option SocketPool
  | .tick elapsed => some { s with clock := s.clock + elapsed }
  | .connect dc media test => some { s with clients := s.clients ++ [⟨dc, media, test, .entered⟩] }
  | .directRoute client =>
    match s.clients[client]? with
    | some ⟨dc, media, test, .entered⟩ => some (s.directRoute client ⟨dc, media, test, .entered⟩)
    | _ => none
  | .pop client =>
    match s.clients[client]? with
    | some ⟨dc, media, test, .taking key⟩ => some (s.pop client ⟨dc, media, test, .taking key⟩ key)
    | _ => none
  | .checkAge client =>
    match s.clients[client]? with
    | some ⟨dc, media, test, .popped key item⟩ =>
      some (s.advance client ⟨dc, media, test, .popped key item⟩
        (if s.clock - item.created < poolMaxAge key then .examining key item s.clock
        else .taking key))
    | _ => none
  | .examine client healthy =>
    match s.clients[client]? with
    | some ⟨dc, media, test, .examining key item checkedAt⟩ =>
      some (s.advance client ⟨dc, media, test, .examining key item checkedAt⟩
        (if healthy then .hit key item checkedAt else .taking key))
    | _ => none
  | .requestRefill client =>
    match s.clients[client]? with
    | some ⟨dc, media, test, .missed key⟩ =>
      some ((s.requestRefill key).advance client ⟨dc, media, test, .missed key⟩
        (match key with
        | .direct .. => .fallback
        | .worker _ => .done))
    | some ⟨dc, media, test, .hit key item checkedAt⟩ =>
      some ({ s.requestRefill key with
        handed := ⟨dc, media, test, key, item.socket, item.created, checkedAt⟩ :: s.handed }.advance
          client ⟨dc, media, test, .hit key item checkedAt⟩ .done)
    | _ => none
  | .workerRoute client =>
    match s.clients[client]? with
    | some ⟨dc, media, test, .fallback⟩ => some (s.workerRoute client ⟨dc, media, test, .fallback⟩)
    | _ => none
  | .cancel client whole =>
    match s.clients[client]? with
    | some ⟨dc, media, test, .examining key item checkedAt⟩ =>
      some (s.advance client ⟨dc, media, test, .examining key item checkedAt⟩
        (match key, whole with
        | .direct .., false => .fallback
        | _, _ => .done))
    | _ => none
  | .startPass =>
    match s.maintain with
    | .starting =>
      if s.config.poolSize = 0 then some { s with maintain := .stopped }
      else some { s with maintain := .passing s.pools.keys false none }
    | _ => none
  | .examineBucket =>
    match s.maintain with
    | .passing (key :: rest) attempted nextRetry =>
      some (s.examineBucket key rest attempted nextRetry)
    | _ => none
  | .finishDial shuffled ws =>
    match s.maintain with
    | .dialling key rest nextRetry =>
      if shuffled.Perm s.config.cfproxyWorkerDomains then
        some (s.finishDial key rest nextRetry shuffled ws)
      else none
    | _ => none
  | .endPass =>
    match s.maintain with
    | .passing [] attempted nextRetry =>
      if attempted then some { s with maintain := .starting }
      else some { s with maintain := .waiting (s.clock + s.passDelay nextRetry) }
    | _ => none
  | .wake notified =>
    match s.maintain with
    | .waiting deadline =>
      if notified then
        if s.wakeup then some { s with maintain := .starting, wakeup := false } else none
      else if deadline ≤ s.clock then some { s with maintain := .starting }
      else none
    | _ => none

end SocketPool

/-- The pools of an `Upstream` from its start on. -/
def poolsSystem : System SocketPool PoolAction where
  start s := s = { config := s.config, clock := s.clock, pools := initialPools s.config }
  step := SocketPool.step

end TgWsProxy
