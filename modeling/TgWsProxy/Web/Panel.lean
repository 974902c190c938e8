import TgWsProxy.Web.Request

/-!
# The panel

`handle` of `web.rs` and the connections that run it: the lock of the changes, the snapshot of
the configuration, the checks of the host, the password and the token, and what is done for a
request that passes them. The hash, the decoding of Base64 and `serde_json` are parameters; the
answers of the rest of the program are inputs.
-/

namespace TgWsProxy

open TgWsProxy.Core

/-- `is_loopback`. -/
def IpAddr.isLoopback : IpAddr → Bool
  | .v4 a _ _ _ => a = 127
  | .v6 groups => groups.val = [0, 0, 0, 0, 0, 0, 0, 1]

/-- `str::replace` of a character. -/
def replaceChar (c : Char) (replacement text : String) : String :=
  String.ofList (text.toList.flatMap fun c' => if c' = c then replacement.toList else [c'])

/-- `link`. -/
def Config.link (cfg : Config) (requestHost : String) : String :=
  let host := if cfg.linkHost = "" then requestHost else cfg.linkHost
  let host := if host = "" then "127.0.0.1" else host
  let host := replaceChar ':' "%3A" (replaceChar '%' "%25" host)
  let secret :=
    if cfg.fakeTlsDomain = "" then "dd" ++ cfg.secret
    else "ee" ++ cfg.secret ++ hex (utf8 cfg.fakeTlsDomain)
  "tg://proxy?server=" ++ host ++ "&port=" ++ toString cfg.port.toNat ++ "&secret=" ++ secret

namespace Web

/-! ## Responses -/

/-- What a response carries: a text or file of the program, or a value. -/
inductive Body
  | text (text : String)
  | file (name : String)
  | json (value : Json)

/-- What `respond` is given. -/
structure Response where
  code : Nat
  contentType : String
  body : Body
  auth : Bool := false

def plain (code : Nat) (text : String) : Response := ⟨code, "text/plain", .text text, false⟩

/-- The answer to a request that is refused or fails. -/
def failed (message : String) : Response :=
  ⟨400, "application/json", .json (.ofMap (.ofList [("error", Json.string message)])), false⟩

def found (value : Json) : Response := ⟨200, "application/json", .json value, false⟩

def invalidRequest : Response := plain 400 "Invalid or oversized HTTP request"

def invalidHost : Response := plain 400 "Invalid Host"

def wrongHost : Response := plain 403 "Use the router IP or configured link_host"

def unauthorized : Response := { plain 401 "Authentication required" with auth := true }

def reload : Response := plain 403 "Reload the panel before making changes"

/-- The responses to a request that does not pass the checks. -/
def refusals : List Response := [invalidRequest, invalidHost, wrongHost, unauthorized, reload]

/-! ## The checks -/

/-- The crates that the panel calls. -/
structure Crates where
  sha256 : Bytes → Block 32
  /-- `STANDARD.decode`, none where it fails. -/
  decodeBase64 : String → Option Bytes
  serde : SerdeJson

/-- `strip_prefix`. -/
def stripPrefix (front text : String) : Option String :=
  if front.toList <+: text.toList then some (String.ofList (text.toList.drop front.length))
  else none

/-- What the configuration expects in an Authorization field. -/
def credentials (cfg : Config) : Bytes := utf8 (cfg.webUser ++ ":" ++ cfg.webPassword)

section

variable (crates : Crates)

/-- `same_secret`. -/
def sameSecret (a b : Bytes) : Bool := crates.sha256 a = crates.sha256 b

/-- What the Authorization field of a request says. -/
def Request.supplied (request : Request) : Bytes :=
  ((request.headers["authorization"]?.bind (stripPrefix "Basic ")).bind
    crates.decodeBase64).getD []

/-- The token of a request. -/
def Request.token (request : Request) : String := request.headers["x-csrf-token"]?.getD ""

/-- The checks of `handle` against a snapshot of the configuration: the host, or a refusal. -/
def authorize (localIp : IpAddr) (csrf : String) (request : Request) (cfg : Config) :
    Except Response String :=
  match request.headers["host"]?.bind hostname with
  | none => .error invalidHost
  | some host =>
    if IpAddr.parse host ≠ some localIp ∧ host ≠ cfg.linkHost ∧
        ¬(host = "localhost" ∧ localIp.isLoopback) then .error wrongHost
    else if cfg.webPassword ≠ "" ∧
      ¬sameSecret crates (request.supplied crates) (credentials cfg) then
      .error unauthorized
    else if request.method = "POST" ∧ ¬sameSecret crates (utf8 request.token) (utf8 csrf) then
      .error reload
    else .ok host

/-- The strings whose hashes these checks compare. -/
def compared (csrf : String) (request : Request) (cfg : Config) : List (Bytes × Bytes) :=
  (if cfg.webPassword ≠ "" then [(request.supplied crates, credentials cfg)] else []) ++
    if request.method = "POST" then [(utf8 request.token, utf8 csrf)] else []

/-! ## What is done -/

/-- What a request brings about. -/
inductive Effect
  | respond (response : Response)
  /-- A `Change` is sent. -/
  | change (config : Config)
  | startUpdate
  | check (force : Bool)

/-- What the rest of the program answers. -/
structure Answers where
  stats : Json
  status : Json
  checked : Json
  started : Except String Json
  random : Block 16
  /-- Whether `try_send` finds room. -/
  queued : Bool

/-- The value of `/api/state`. -/
def stateValue (csrf : String) (cfg : Config) (host : String) (answers : Answers) : Json :=
  .ofMap (.ofList [
    ("version", Json.string "2.3.1"),
    ("upstream", .string "1.11.2"),
    ("upstream_commit", .string "307a384ab7f522e34bb1a045884d0bd90f40bee5"),
    ("config", .ofMap (cfg.toMap.erase "web_password")),
    ("stats", answers.stats),
    ("link", .string (cfg.link host)),
    ("csrf", .string csrf),
    ("password_set", .bool (cfg.webPassword ≠ "")),
    ("update", answers.status)])

/-- Whether the body is said to be JSON. -/
def Request.isJson (request : Request) : Bool :=
  request.headers["content-type"]?.any fun value =>
    trim ((value.toList.splitOn ';').headD []) = "application/json".toList

/-- The configuration that a request asks for. -/
def nextConfig (request : Request) (cfg : Config) (answers : Answers) : Except IoError Config :=
  if request.path = "/api/config" then Config.mergeConfig crates.serde cfg request.body
  else if request.path = "/api/secret" then .ok { cfg with secret := hex answers.random.val }
  else .ok cfg

/-- The requests that change the configuration. -/
def changeConfig (request : Request) (cfg : Config) (answers : Answers) : List Effect :=
  if request.path = "/api/config" ∧ ¬request.isJson then [.respond (plain 415 "JSON required")]
  else
    match nextConfig crates request cfg answers with
    | .error e => [.respond (failed e.message)]
    | .ok config =>
      if answers.queued then [.change config]
      else [.respond (failed "Another configuration change is in progress")]

/-- What `handle` does for a request that has passed the checks. -/
def dispatch (csrf : String) (request : Request) (cfg : Config) (host : String)
    (answers : Answers) : List Effect :=
  match request.method, request.path with
  | "GET", "/" => [.respond ⟨200, "text/html; charset=utf-8", .file "index.html", false⟩]
  | "GET", "/style.css" => [.respond ⟨200, "text/css; charset=utf-8", .file "style.css", false⟩]
  | "GET", "/app.js" =>
    [.respond ⟨200, "application/javascript; charset=utf-8", .file "app.js", false⟩]
  | "GET", "/api/state" => [.respond (found (stateValue csrf cfg host answers))]
  | "GET", "/api/update/check" => [.check false, .respond (found answers.checked)]
  | "POST", "/api/update/check" => [.check true, .respond (found answers.checked)]
  | "GET", "/api/update/status" => [.respond (found answers.status)]
  | "POST", "/api/update" =>
    match answers.started with
    | .ok info => [.startUpdate, .respond { found info with code := 202 }]
    | .error e => [.startUpdate, .respond (failed e)]
  | "POST", "/api/config" | "POST", "/api/restart" | "POST", "/api/secret" =>
    changeConfig crates request cfg answers
  | _, _ => [.respond (plain 404 "Not found")]

/-- `handle` from the snapshot of the configuration on. -/
def handle (localIp : IpAddr) (csrf : String) (request : Request) (cfg : Config)
    (answers : Answers) : List Effect :=
  match authorize crates localIp csrf request cfg with
  | .error response => [.respond response]
  | .ok host => dispatch crates csrf request cfg host answers

/-- The response to a `Change`, none where the service is gone. -/
def answered (answer : Option (Except String Unit)) : Response :=
  match answer.getD (.error "Service is stopping") with
  | .ok () => ⟨200, "application/json", .text "\x7b\"ok\":true\x7d", false⟩
  | .error e => failed e

/-! ## Connections -/

/-- A request with the snapshot that it is checked against: when the lock was taken, if it
was, and which of the published configurations the snapshot is. -/
structure Seen where
  request : Request
  config : Config
  lockedAt : Option Nat
  readAt : Nat

/-- Where the task of a connection stands. -/
inductive Stage
  | reading
  | parsed (request : Request)
  /-- The lock of the changes is held. -/
  | locked (request : Request) (lockedAt : Nat)
  | authorizing (seen : Seen)
  /-- A `Change` is sent, and its answer is awaited. -/
  | changing (seen : Seen)
  | responding (lockedAt : Option Nat)
  | finished

/-- Whether the task holds the lock of the changes. -/
def Stage.holds : Stage → Bool
  | .locked _ _ => true
  | .authorizing seen | .changing seen => seen.lockedAt.isSome
  | .responding lockedAt => lockedAt.isSome
  | .reading | .parsed _ | .finished => false

def Stage.isFinished : Stage → Bool
  | .finished => true
  | _ => false

/-- A connection, with the stream that the client sends. -/
structure Connection where
  localIp : IpAddr
  reader : BufReader
  stage : Stage := .reading

/-- An effect, the connection that it is for, and what was seen if a request was read. -/
structure Event where
  localIp : IpAddr
  reader : BufReader
  seen : Option Seen
  effect : Effect

/-- `State` of `web.rs`, with its connections. -/
structure Panel where
  config : Config
  /-- Every configuration so far; the last one is `config`. -/
  published : List Config
  csrf : String
  /-- The connection that holds the lock of the changes. -/
  mutation : Option Nat := none
  connections : List Connection := []
  log : List Event := []

/-- The steps of the panel. -/
inductive Action
  | accept (localIp : IpAddr) (reader : BufReader)
  /-- `read_request` returns. -/
  | read (connection : Nat)
  | lock (connection : Nat)
  /-- The configuration is read. -/
  | snapshot (connection : Nat)
  | handle (connection : Nat) (answers : Answers)
  /-- The answer to a `Change` comes, or its sender is gone. -/
  | answer (connection : Nat) (answer : Option (Except String Unit))
  /-- The task ends: its response is written, its time is over, or it is dropped. -/
  | finish (connection : Nat)
  /-- The service runs with a new configuration. -/
  | publish (config : Config)

/-- The connections served at a time. -/
def maxClients : Nat := 8

namespace Panel

/-- Put a connection at a stage. -/
def advance (s : Panel) (i : Nat) (c : Connection) (stage : Stage) : Panel :=
  { s with connections := s.connections.set i { c with stage } }

/-- Log the effects for a connection. -/
def record (s : Panel) (c : Connection) (seen : Option Seen) (effects : List Effect) : Panel :=
  { s with log := s.log ++ effects.map fun effect => ⟨c.localIp, c.reader, seen, effect⟩ }

/-- Whether a `Change` is among the effects. -/
def changes (effects : List Effect) : Bool :=
  effects.any fun
    | .change _ => true
    | _ => false

/-- A step of the task of one connection. -/
def taskStep (s : Panel) (i : Nat) (c : Connection) : Action → Option Panel
  | .read _ =>
    match c.stage with
    | .reading =>
      match readRequest c.reader with
      | .error _ =>
        some ((s.record c none [.respond invalidRequest]).advance i c (.responding none))
      | .ok (request, _) => some (s.advance i c (.parsed request))
    | _ => none
  | .lock _ =>
    match c.stage with
    | .parsed request =>
      if request.method = "POST" ∧ s.mutation = none then
        some ({ s with mutation := some i }.advance i c (.locked request (s.published.length - 1)))
      else none
    | _ => none
  | .snapshot _ =>
    match c.stage with
    | .parsed request =>
      if request.method = "POST" then none
      else some (s.advance i c (.authorizing ⟨request, s.config, none, s.published.length - 1⟩))
    | .locked request lockedAt =>
      some (s.advance i c
        (.authorizing ⟨request, s.config, some lockedAt, s.published.length - 1⟩))
    | _ => none
  | .handle _ answers =>
    match c.stage with
    | .authorizing seen =>
      let effects := Web.handle crates c.localIp s.csrf seen.request seen.config answers
      some ((s.record c seen effects).advance i c
        (if changes effects then .changing seen else .responding seen.lockedAt))
    | _ => none
  | .answer _ answer =>
    match c.stage with
    | .changing seen =>
      some ((s.record c seen [.respond (answered answer)]).advance i c
        (.responding seen.lockedAt))
    | _ => none
  | .finish _ =>
    if c.stage.isFinished then none
    else
      some ({ s with mutation := if c.stage.holds then none else s.mutation }.advance i c
        .finished)
  | .accept _ _ | .publish _ => none

/-- A step of the panel. -/
def step (s : Panel) (action : Action) : Option Panel :=
  match action with
  | .accept localIp reader =>
    if (s.connections.filter fun c => ¬c.stage.isFinished).length < maxClients then
      some { s with connections := s.connections ++ [{ localIp, reader }] }
    else none
  | .publish config => some { s with config, published := s.published ++ [config] }
  | .read i | .lock i | .snapshot i | .handle i _ | .answer i _ | .finish i =>
    s.connections[i]?.bind fun c => s.taskStep crates i c action

end Panel

/-- The panel from its start on. -/
def webSystem : System Panel Action where
  start s := ∃ (config : Config) (random : Block 16),
    s = { config, published := [config], csrf := hex random.val }
  step := Panel.step crates

end

end Web

end TgWsProxy
