import TgWsProxy.Stats
import TgWsProxy.Upstream.FallbackDomains
import TgWsProxy.Upstream.SocketPool
import TgWsProxy.Upstream.TcpFallback

/-!
# The way of a client to Telegram

`connect` and `connect_inner` of `upstream.rs`, section by section, for any number of clients that
share one `Upstream`: the direct route, the workers, the H2 and CF domains and the TCP fallback,
each behind its own timer. What a dial, a pool or `domains_for` answers is an input. The log of
dials and of cool-downs has the latest event first.
-/

namespace TgWsProxy

open TgWsProxy.Core

/-! ## Telegram DCs -/

/-- `normalize_dc`, of an `i16`. -/
def normalizeDc (index : Int) (forceTest : Bool) : Except IoError (Int × Bool × Bool) :=
  if index = -32768 then .error (invalid "invalid Telegram DC")
  else
    let unsigned := index.natAbs
    let test := 10000 ≤ unsigned || forceTest
    let dc := if 10000 ≤ unsigned then unsigned - 10000 else unsigned
    if !(dc ∈ [1, 2, 3, 4, 5, 203]) || (test && !(dc ∈ [1, 2, 3])) then
      .error (invalid "unsupported Telegram DC")
    else .ok (dc, index < 0, test)

/-! ## Dials -/

/-- An error of `ws`, with the status of an `HttpError`. -/
structure WsError extends IoError where
  status : Option Nat := none
  deriving DecidableEq

/-- `is_redirect`. -/
def isRedirect (e : WsError) : Bool := e.status.any (· ∈ [301, 302, 303, 307, 308])

/-- The routes, in the order in which they are tried. -/
inductive Rung
  | direct
  | worker
  | h2
  | cf
  | tcp
  deriving DecidableEq

namespace Rung

/-- The position of a route. -/
def height : Rung → Nat
  | .direct => 0
  | .worker => 1
  | .h2 => 2
  | .cf => 3
  | .tcp => 4

end Rung

/-- What is dialled. -/
inductive Dial
  | ws (request : WsRequest)
  | h2 (host : String)
  | tcp (ip : String)
  deriving DecidableEq

/-- The key of a direct route. -/
abbrev RouteKey := Int × Bool × Bool

/-- What the shared state remembers of. -/
inductive RouteEvent
  /-- The client dials, with this limit. -/
  | dialled (client : Nat) (rung : Rung) (dial : Dial) (limit : Nat)
  /-- The loop of `direct_route` begins. -/
  | round (key : RouteKey) (ip : String) (limit time : Nat)
  /-- A direct dial has timed out. -/
  | timedOut (ip : String) (time : Nat)
  /-- `direct_success`. -/
  | reached (key : RouteKey) (ip : String)
  /-- Every name was a redirect. -/
  | redirected (key : RouteKey)
  /-- The loop is over. -/
  | exhausted (key : RouteKey) (time : Nat)
  deriving DecidableEq

/-- What the clients of an `Upstream` share. -/
structure RouteState where
  blacklisted : RouteKey → Bool := fun _ => false
  failedDc : RouteKey → Option Nat := fun _ => none
  failedIp : String → Option Nat := fun _ => none
  h2RetryAfter : Int → Option Nat := fun _ => none
  tcp : TcpState := {}
  stats : Stats := {}
  log : List RouteEvent := []

namespace RouteState

def dial (st : RouteState) (client : Nat) (rung : Rung) (dial : Dial) (limit : Nat) : RouteState :=
  { st with log := .dialled client rung dial limit :: st.log }

/-- `direct_success`. -/
def directSuccess (st : RouteState) (key : RouteKey) (ip : String) : RouteState :=
  { st with
    failedDc := Function.update st.failedDc key none
    failedIp := Function.update st.failedIp ip none
    log := .reached key ip :: st.log }

/-- A direct dial has timed out. -/
def failIp (st : RouteState) (ip : String) (now : Nat) : RouteState :=
  { st with
    failedIp := Function.update st.failedIp ip (some (now + seconds 3600))
    log := .timedOut ip now :: st.log }

/-- The end of `direct_route` behind its loop. -/
def exhaust (st : RouteState) (key : RouteKey) (allRedirects : Bool) (now : Nat) : RouteState :=
  if allRedirects then
    { st with
      blacklisted := Function.update st.blacklisted key true
      log := .redirected key :: st.log }
  else
    { st with
      failedDc := Function.update st.failedDc key (some (now + seconds 60))
      log := .exhausted key now :: st.log }

/-- `h2_cool_down`. -/
def h2CoolDown (st : RouteState) (dc : Int) (now : Nat) : RouteState :=
  { st with h2RetryAfter := Function.update st.h2RetryAfter dc (some (now + seconds 30)) }

/-- The counters are changed. -/
def count (st : RouteState) (f : Stats → Stats) : RouteState := { st with stats := f st.stats }

end RouteState

/-! ## Clients -/

/-- A dial of `direct_route`. -/
structure DirectDial where
  ip : String
  domain : String
  /-- The names to come. -/
  rest : List String
  /-- The kind of the error behind which the front is dialled. -/
  fronted : Option ErrorKind
  limit : Nat
  allRedirects : Bool
  deriving DecidableEq

/-- Where a client is in `connect_inner`; `expiry` is the time of the timer of its route. -/
inductive RouteClientStage
  /-- It is about to call `direct_route`. -/
  | entered
  /-- In `take_pool` of the direct route. -/
  | directPool (ip : String) (expiry : Nat)
  | directDial (expiry : Nat) (dial : DirectDial)
  /-- The direct route has given nothing. -/
  | fallbacks
  /-- In `take_pool` of the workers. -/
  | workerPool (target : String) (since : Nat)
  /-- About to call `worker`. -/
  | workers (target : String)
  | workerDial (target : String) (expiry : Nat) (rest : List String)
  /-- Behind the workers. -/
  | cloudflare (target : String)
  | h2Dial (target : String) (expiry : Nat) (rest : List String)
  /-- About to call `cf_route`. -/
  | domains (target : String)
  | cfDial (target : String) (expiry : Nat) (rest : List String)
  /-- About to call `tcp_fallback`. -/
  | tcp (target : String)
  | tcpDial (target : String) (expiry : Nat)
  | returned (rung : Rung)
  | failed (error : IoError)
  /-- Its future is dropped. -/
  | gone
  deriving DecidableEq

namespace RouteClientStage

/-- It is over. -/
def ended : RouteClientStage → Bool
  | .returned _ | .failed _ | .gone => true
  | _ => false

/-- The timer of the route that is tried. -/
def deadline : RouteClientStage → Option Nat
  | .directPool _ expiry | .directDial expiry _ | .workerDial _ expiry _ | .h2Dial _ expiry _
  | .cfDial _ expiry _ | .tcpDial _ expiry => some expiry
  | _ => none

/-- When the probes of the worker sockets began. -/
def probing : RouteClientStage → Option Nat
  | .workerPool _ since => some since
  | _ => none

/-- It goes on without waiting. -/
def runs : RouteClientStage → Bool
  | .entered | .fallbacks | .workers _ | .cloudflare _ | .domains _ | .tcp _ => true
  | _ => false

end RouteClientStage

/-- A call of `connect`. -/
structure RouteClient where
  dc : Int
  media : Bool
  test : Bool
  /-- When it was called. -/
  began : Nat
  stage : RouteClientStage := .entered
  deriving DecidableEq

/-- The key of its direct route. -/
def RouteClient.key (c : RouteClient) : RouteKey := (c.dc, c.media, c.test)

/-- `connect_limit`. -/
def Config.connectLimit (cfg : Config) : Nat := seconds cfg.connectTimeoutSecs.toNat

/-- `has_cf`. -/
def Config.hasCf (cfg : Config) (test : Bool) : Bool :=
  (!test && cfg.cfproxy) || !cfg.cfproxyWorkerDomains.isEmpty

/-! ## Sections -/

/-- What a section leaves: the shared state, and where its client is then. -/
abbrev RouteStep := RouteState × RouteClientStage

section

-- a client by its number, at a time
variable (cfg : Config) (now client : Nat) (c : RouteClient) (st : RouteState)

/-- The loop of `direct_route` goes on with these names. -/
def directNext (expiry : Nat) (ip : String) (limit : Nat) (allRedirects : Bool) :
    List String → RouteStep
  | [] => (st.exhaust c.key allRedirects now, .fallbacks)
  | domain :: rest =>
    (st.dial client .direct (.ws ⟨ip, domain, domain, wsPath c.test, true, true⟩) limit,
      .directDial expiry ⟨ip, domain, rest, none, limit, allRedirects⟩)

/-- `direct_route` up to its first await. -/
def directRoute : RouteStep :=
  match cfg.dcRedirects[c.dc]? with
  | none => (st, .fallbacks)
  | some ip =>
    if 0 < cfg.poolSize then (st, .directPool ip (now + seconds 15))
    else if st.blacklisted c.key then (st, .fallbacks)
    else if cfg.hasCf c.test && (st.failedIp ip).any (now < ·) then (st, .fallbacks)
    else
      let limit := min cfg.connectLimit
        (seconds (if (st.failedDc c.key).any (now < ·) then 2 else 5))
      directNext now client c { st with log := .round c.key ip limit now :: st.log }
        (now + seconds 15) ip limit true (wsDomains c.dc c.media)

/-- `direct_route` behind a dial. -/
def directAnswer (expiry : Nat) (dial : DirectDial) : Except WsError Unit → RouteStep
  | .ok _ =>
    let st := st.directSuccess c.key dial.ip
    let st := if dial.fronted.isSome then st.count .fronting else st
    (st.count .ws, .returned .direct)
  | .error e =>
    match dial.fronted with
    | some kind =>
      -- what the front answers does not matter
      if kind = .timedOut then
        ((st.failIp dial.ip now).exhaust c.key dial.allRedirects now, .fallbacks)
      else directNext now client c st expiry dial.ip dial.limit dial.allRedirects dial.rest
    | none =>
      let st := st.count .wsError
      if isRedirect e then
        directNext now client c st expiry dial.ip dial.limit dial.allRedirects dial.rest
      else if cfg.sniFronting && shouldFront e.toIoError then
        (st.dial client .direct
            (.ws ⟨dial.ip, dial.domain, "sprinthost.ru", wsPath c.test, true, true⟩) dial.limit,
          .directDial expiry { dial with fronted := some e.kind, allRedirects := false })
      else if e.kind = .timedOut then
        ((st.failIp dial.ip now).exhaust c.key false now, .fallbacks)
      else directNext now client c st expiry dial.ip dial.limit false dial.rest

/-- Behind the direct route. -/
def fallbackRoutes : RouteStep :=
  match fallbackIp c.dc c.test with
  | none => (st, .failed ⟨.invalidInput, "unsupported Telegram DC"⟩)
  | some target =>
    if cfg.cfproxyWorkerDomains.isEmpty then (st, .cloudflare target)
    else if !c.test && 0 < cfg.poolSize then (st, .workerPool target now)
    else (st, .workers target)

/-- The loop of `worker` goes on with these domains. -/
def workerNext (target : String) (expiry : Nat) : List String → RouteStep
  | [] => (st, .cloudflare target)
  | domain :: rest =>
    (st.dial client .worker
        (.ws ⟨domain, domain, domain, workerPath c.dc target, false, !cfg.disableSecure⟩)
        cfg.connectLimit,
      .workerDial target expiry rest)

/-- The loop of `h2_route` goes on with these domains. -/
def h2Next (target : String) (expiry : Nat) : List String → RouteStep
  | [] => (st.h2CoolDown c.dc now, .domains target)
  | base :: rest =>
    (st.dial client .h2 (.h2 s!"kws{c.dc}.{base}") (seconds 8), .h2Dial target expiry rest)

/-- Behind the workers, with what `domains_for` gives. -/
def cloudflareRoute (target : String) (bases : List String) : RouteStep :=
  if !cfg.cfproxy || c.test then (st, .tcp target)
  else if !(c.media && cfg.h2Enabled) then (st, .domains target)
  else if (st.h2RetryAfter c.dc).any (now < ·) then (st, .domains target)
  else
    h2Next now client c { st with h2RetryAfter := Function.update st.h2RetryAfter c.dc none } target
      (now + seconds 8) bases

/-- The loop of `cf_route` goes on with these domains. -/
def cfNext (target : String) (expiry : Nat) : List String → RouteStep
  | [] => (st, .tcp target)
  | base :: rest =>
    let domain := s!"kws{c.dc}.{base}"
    (st.dial client .cf (.ws ⟨domain, domain, domain, "/apiws", false, !cfg.disableSecure⟩)
        cfg.connectLimit,
      .cfDial target expiry rest)

/-- `tcp_fallback` up to its await. -/
def tcpRoute (target : String) : RouteStep :=
  match st.tcp.begin (target, 443) now with
  | none => (st, .failed ⟨.wouldBlock, "TCP fallback is connecting or backing off"⟩)
  | some tcp =>
    ({ st with tcp }.dial client .tcp (.tcp target) cfg.connectLimit,
      .tcpDial target (now + cfg.connectLimit))

/-- `tcp_fallback` behind its await. -/
def tcpAnswer (target : String) : Except WsError Unit → RouteStep
  | .ok _ =>
    ({ st with tcp := (st.tcp.success (target, 443)).drop (target, 443) }.count .tcp,
      .returned .tcp)
  | .error e =>
    ({ st with tcp := (st.tcp.failure (target, 443) now).2.drop (target, 443) },
      .failed e.toIoError)

/-- The future of a client is dropped, which releases its `TcpAttempt`. -/
def dropClient (stage : RouteClientStage) : RouteStep :=
  match c.stage with
  | .tcpDial target _ => ({ st with tcp := st.tcp.drop (target, 443) }, stage)
  | _ => (st, stage)

/-- The error of a timer. -/
def timedOut : WsError := { kind := .timedOut, message := "transport timeout" }

end

/-- What a client is told. -/
inductive RouteAnswer
  /-- It runs up to its next await; `names` are the shuffled workers or what `domains_for` gives. -/
  | run (names : List String)
  /-- `take_pool` ends. -/
  | pooled (hit : Bool)
  /-- A dial ends. -/
  | dial (result : Except WsError Unit)
  /-- The timer of its route fires. -/
  | expire
  /-- The timer of `connect` fires. -/
  | expireAll
  /-- Its caller is gone. -/
  | cancel

section

variable (cfg : Config) (now client : Nat) (c : RouteClient) (st : RouteState)

/-- A client runs up to its next await. -/
def runClient (names : List String) : Option RouteStep :=
  match c.stage with
  | .entered => some (directRoute cfg now client c st)
  | .fallbacks => some (fallbackRoutes cfg now c st)
  | .workers target =>
    if names.Perm cfg.cfproxyWorkerDomains then
      some (workerNext cfg client c st target (now + seconds 15) names)
    else none
  | .cloudflare target => some (cloudflareRoute cfg now client c st target names)
  | .domains target => some (cfNext cfg client c st target (now + seconds 15) names)
  | .tcp target => some (tcpRoute cfg now client st target)
  | _ => none

/-- The end of a `take_pool`. -/
def pooledClient (hit : Bool) : Option RouteStep :=
  match c.stage with
  | .directPool ip _ => some
    (if hit then (((st.count .poolHit).directSuccess c.key ip).count .ws, .returned .direct)
    else (st.count .poolMiss, .fallbacks))
  | .workerPool target _ => some
    (if hit then ((st.count .poolHit).count .cf, .returned .worker)
    else (st.count .poolMiss, .workers target))
  | _ => none

/-- The end of a dial. -/
def dialClient (result : Except WsError Unit) : Option RouteStep :=
  match c.stage with
  | .directDial expiry dial => some (directAnswer cfg now client c st expiry dial result)
  | .workerDial target expiry rest => some
    (match result with
    | .ok _ => (st.count .cf, .returned .worker)
    | .error _ => workerNext cfg client c (st.count .wsError) target expiry rest)
  | .h2Dial target expiry rest => some
    (match result with
    | .ok _ => ((st.count .cf).count .h2, .returned .h2)
    | .error _ => h2Next now client c st target expiry rest)
  | .cfDial target expiry rest => some
    (match result with
    | .ok _ => (st.count .cf, .returned .cf)
    | .error _ => cfNext cfg client c (st.count .wsError) target expiry rest)
  | .tcpDial target _ => some (tcpAnswer now st target result)
  | _ => none

/-- The timer of a route fires. -/
def expireClient : Option RouteStep :=
  match c.stage with
  | .directPool _ expiry | .directDial expiry _ =>
    if expiry ≤ now then some (st, .fallbacks) else none
  | .workerDial target expiry _ => if expiry ≤ now then some (st, .cloudflare target) else none
  | .h2Dial target expiry _ =>
    if expiry ≤ now then some ((st.count .h2Error).h2CoolDown c.dc now, .domains target) else none
  | .cfDial target expiry _ => if expiry ≤ now then some (st, .tcp target) else none
  | .tcpDial target expiry =>
    if expiry ≤ now then some (tcpAnswer now st target (.error timedOut)) else none
  | _ => none

/-- One section of a client. -/
def stepClient : RouteAnswer → Option RouteStep
  | .run names => runClient cfg now client c st names
  | .pooled hit => pooledClient c st hit
  | .dial result => dialClient cfg now client c st result
  | .expire => expireClient now c st
  | .expireAll =>
    if !c.stage.ended ∧ c.began + seconds 60 + cfg.connectLimit ≤ now then
      some (dropClient c st (.failed timedOut.toIoError))
    else none
  | .cancel => if c.stage.ended then none else some (dropClient c st .gone)

end

/-! ## The clients of an upstream -/

/-- An `Upstream` with its clients. -/
structure Routing where
  config : Config
  clock : Nat := 0
  state : RouteState := {}
  clients : List RouteClient := []

/-- The steps; clients are named by their positions. -/
inductive RoutingAction
  | tick (d : Nat)
  /-- A handshake with this DC is served. -/
  | connect (index : Int)
  | client (i : Nat) (answer : RouteAnswer)

/-- Whether a client lets this time pass: it waits, and none of its timers is over before. -/
def RouteClient.waits (cfg : Config) (time : Nat) (c : RouteClient) : Bool :=
  c.stage.ended || !c.stage.runs && c.stage.deadline.all (time ≤ ·) &&
    time ≤ c.began + seconds 60 + cfg.connectLimit

/-- The effect of one step. -/
def Routing.step (s : Routing) : RoutingAction → Option Routing
  | .tick d =>
    if s.clients.all (·.waits s.config (s.clock + d)) then some { s with clock := s.clock + d }
    else none
  | .connect index =>
    match normalizeDc index s.config.forceTestDc with
    | .error _ => some s
    | .ok (dc, media, test) =>
      some { s with clients := s.clients ++ [{ dc, media, test, began := s.clock }] }
  | .client i answer => s.clients[i]?.bind fun c =>
    (stepClient s.config s.clock i c s.state answer).map fun (state, stage) =>
      { s with state, clients := s.clients.set i { c with stage } }

/-- An `Upstream` from its start on. -/
def routingSystem : System Routing RoutingAction where
  start s := s = { config := s.config }
  step := Routing.step

/-- The probes of the worker sockets, of two milliseconds each, take less than seven seconds. -/
def ProbesBriefly (s : Routing) : RoutingAction → Prop
  | .tick d => ∀ c ∈ s.clients, ∀ since ∈ c.stage.probing, s.clock + d < since + seconds 7
  | _ => True

instance : ∀ s action, Decidable (ProbesBriefly s action)
  | s, .tick d => inferInstanceAs
      (Decidable (∀ c ∈ s.clients, ∀ since ∈ c.stage.probing, s.clock + d < since + seconds 7))
  | _, .connect _ | _, .client .. => .isTrue trivial

end TgWsProxy
