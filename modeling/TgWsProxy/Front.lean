import TgWsProxy.Crypto
import TgWsProxy.FakeTls
import TgWsProxy.FakeTlsStream
import TgWsProxy.ProxyHeader
import TgWsProxy.Upstream.Routing

/-!
# The front of a proxy

`initial` and `serve` of `proxy.rs` up to the call of `connect`, for any number of connections that
share the replay cache and the counters: the PROXY header, a ClientHello or a plain handshake, the
redirect, and the masking of peers that do not authenticate. What a peer and the fake domain send is
fixed with the connection, when it arrives is not. A connection keeps what it was found to be.
-/

namespace TgWsProxy

open TgWsProxy.Core

/-! ## ServerHello -/

/-- `CCS_FRAME`. -/
def ccsFrame : Bytes := [0x14, 3, 3, 0, 1, 1]

/-- The answer of `build_server_hello` before its random is filled in. -/
def blankServerHello (client : ClientHello) (key : Block 32) (payload : Bytes) : Bytes :=
  [0x16, 3, 3, 0, 0x7a, 2, 0, 0, 0x76, 3, 3] ++ List.replicate 32 0 ++ [32] ++ client.sessionId ++
    [0x13, 1, 0, 0, 0x2e, 0, 0x33, 0, 0x24, 0, 0x1d, 0, 0x20] ++ key.val ++ [0, 0x2b, 0, 2, 3, 4] ++
    ccsFrame ++ [0x17, 3, 3] ++ toBe 2 payload.length ++ payload

/-- `build_server_hello`, of a random key and payload. -/
def buildServerHello (mac : Mac) (secret : Block 16) (client : ClientHello) (key : Block 32)
    (payload : Bytes) : Bytes :=
  let response := blankServerHello client key payload
  response.take 11 ++ (mac secret.val (client.clientRandom ++ response)).val ++ response.drop 43

/-! ## Reading -/

namespace FakeTlsStream

/-- `read_exact`, polled up to so many times. -/
def readExact : Nat → Nat → FakeTlsStream → Option (Except IoError Bytes × FakeTlsStream)
  | _, 0, s => some (.ok [], s)
  | 0, _ + 1, _ => none
  | polls + 1, room + 1, s =>
    match s.pollRead (room + 1) with
    | (.pending, s) => readExact polls (room + 1) s
    | (.ready (.error e), s) => some (.error e, s)
    | (.ready (.ok []), s) => some (.error ⟨.unexpectedEof, "early eof"⟩, s)
    | (.ready (.ok (b :: bs)), s) =>
      (readExact polls (room + 1 - (b :: bs).length) s).map fun (result, s) =>
        (result.map (b :: bs ++ ·), s)

end FakeTlsStream

/-- What `initial` reads in its first ten seconds: a byte, and the record that it begins. -/
def opening (cfg : Config) (input : Stream) : Except IoError ((UInt8 × Option Bytes) × Stream) := do
  let (first, input) ← ProxyHeader.firstByte cfg.proxyProtocol input
  if first = 0x16 ∧ cfg.fakeTlsDomain ≠ "" then
    let (header, input) ← AsyncRead.readExact input 4
    let length := ofBe (slice header 2 4)
    if length < 38 ∨ 16384 < length then throw (invalid "invalid ClientHello record length")
    let (body, input) ← AsyncRead.readExact input length
    return ((first, some (first :: header ++ body)), input)
  else return ((first, none), input)

/-- The redirect. -/
def redirectResponse (domain : String) : Bytes :=
  encodeUtf8 ("HTTP/1.1 301 Moved Permanently\r\nLocation: https://".toList ++ domain.toList ++
    "/\r\nContent-Length: 0\r\nConnection: close\r\n\r\n".toList)

/-! ## Connections -/

/-- One direction of a masked connection, in `copy_plain`. -/
inductive CopyStage
  | reading
  /-- What is left of the buffer is written up to this time. -/
  | writing (left : Bytes) (expiry : Nat)
  deriving DecidableEq

namespace CopyStage

/-- What has been read and not been written. -/
def left : CopyStage → Bytes
  | .reading => []
  | .writing left _ => left

def expiry : CopyStage → Option Nat
  | .reading => none
  | .writing _ expiry => some expiry

end CopyStage

/-- A connection between a peer and the fake domain. -/
structure Masking where
  up : CopyStage := .reading
  down : CopyStage := .reading
  /-- The last `touch` of its `Activity`. -/
  last : Nat
  /-- When the sleep of `expired` ends. -/
  wake : Nat
  deriving DecidableEq

/-- Where a connection is; `expiry` is the time of the timer that it is in. -/
inductive FrontStage
  | opening (expiry : Nat)
  /-- The ServerHello is written. -/
  | greeting (left : Bytes) (expiry : Nat)
  | tlsHandshake (expiry : Nat)
  | maskConnect (hello : Bytes) (expiry : Nat)
  /-- The ClientHello is passed on. -/
  | maskHello (left : Bytes) (expiry : Nat)
  | masking (copies : Masking)
  | redirecting (left : Bytes) (expiry : Nat)
  | plainHandshake (first : UInt8) (expiry : Nat)
  /-- `connect` is called for it. -/
  | connecting (handshake : ClientHandshake) (dc : Int) (media test : Bool)
  | closed
  | failed (error : IoError)
  /-- Its future is dropped. -/
  | gone

namespace FrontStage

/-- It is over, or with the upstream. -/
def left : FrontStage → Bool
  | .connecting .. | .closed | .failed _ | .gone => true
  | _ => false

end FrontStage

/-- What `initial` has found a connection to be. -/
inductive Verdict
  | unknown
  /-- A ClientHello that is verified and new. -/
  | hello (record : Bytes) (time : Nat)
  /-- A ClientHello that is not. -/
  | masked (record : Bytes)
  | redirected
  | plain
  deriving DecidableEq

/-- A connection. -/
structure FrontConn where
  /-- All that its peer sends, and what of it is not read. -/
  sent : Bytes
  input : Source
  /-- All that the fake domain sends on its connection, and what of it is not read. -/
  hostSent : Bytes
  host : Source
  /-- What has been written to the peer and to the fake domain. -/
  toPeer : Bytes := []
  toHost : Bytes := []
  began : Nat
  verdict : Verdict := .unknown
  stage : FrontStage

namespace Masking

def side (m : Masking) (up : Bool) : CopyStage := if up then m.up else m.down

def put (m : Masking) (up : Bool) (stage : CopyStage) : Masking :=
  if up then { m with up := stage } else { m with down := stage }

@[simp] theorem last_put (m : Masking) (up : Bool) (stage : CopyStage) :
    (m.put up stage).last = m.last := by cases up <;> rfl

@[simp] theorem wake_put (m : Masking) (up : Bool) (stage : CopyStage) :
    (m.put up stage).wake = m.wake := by cases up <;> rfl

@[simp] theorem side_wake (m : Masking) (wake : Nat) (up : Bool) :
    ({ m with wake } : Masking).side up = m.side up := by cases up <;> rfl

@[simp] theorem side_last (m : Masking) (last : Nat) (up : Bool) :
    ({ m with last } : Masking).side up = m.side up := by cases up <;> rfl

/-- The stage that is put is the one of its direction. -/
theorem side_put (m : Masking) (up up' : Bool) (stage : CopyStage) :
    (m.put up stage).side up' = if up' = up then stage else m.side up' := by
  cases up <;> cases up' <;> rfl

end Masking

namespace FrontConn

/-- What a direction reads from. -/
def source (c : FrontConn) (up : Bool) : Source := if up then c.input else c.host

def setSource (c : FrontConn) (up : Bool) (s : Source) : FrontConn :=
  if up then { c with input := s } else { c with host := s }

/-- What is written in a direction. -/
def emit (c : FrontConn) (up : Bool) (data : Bytes) : FrontConn :=
  if up then { c with toHost := c.toHost ++ data } else { c with toPeer := c.toPeer ++ data }

@[simp] theorem began_setSource (c : FrontConn) (up : Bool) (s : Source) :
    (c.setSource up s).began = c.began := by cases up <;> rfl

@[simp] theorem verdict_setSource (c : FrontConn) (up : Bool) (s : Source) :
    (c.setSource up s).verdict = c.verdict := by cases up <;> rfl

@[simp] theorem began_emit (c : FrontConn) (up : Bool) (data : Bytes) :
    (c.emit up data).began = c.began := by cases up <;> rfl

@[simp] theorem verdict_emit (c : FrontConn) (up : Bool) (data : Bytes) :
    (c.emit up data).verdict = c.verdict := by cases up <;> rfl

end FrontConn

/-- What the connections of a proxy share. -/
structure FrontShared where
  cache : ReplayCache := []
  stats : Stats := {}

/-- What a connection is told. -/
inductive FrontAnswer
  /-- Its first bytes are read; a ServerHello would be of this key and payload. -/
  | opened (key : Block 32) (payload : Bytes)
  /-- So much of what it writes is taken. -/
  | wrote (n : Nat)
  /-- Its handshake is read; the answers of the inner stream are those of `FakeTlsStream`. -/
  | handshake (grants : List (Option Nat))
  /-- The fake domain has accepted. -/
  | connected
  /-- A direction of `copy_plain` reads. -/
  | copyRead (up : Bool)
  | copyWrote (up : Bool) (n : Nat)
  /-- The sleep of `expired` ends. -/
  | woke
  /-- A timer fires. -/
  | expired
  /-- Its socket or the one to the fake domain fails. -/
  | fails (error : IoError)
  | dropped

/-- `idle_timeout_secs`. -/
def Config.idleLimit (cfg : Config) : Nat := seconds cfg.idleTimeoutSecs.toNat

section

variable (P : Primitives) (mac : Mac) (secret : Block 16) (epoch : Nat) (cfg : Config) (now : Nat)
  (c : FrontConn) (shared : FrontShared)

/-- What a step leaves: the shared state, and the connection. -/
abbrev FrontResult := FrontShared × FrontConn

/-- `initial` behind its first await. -/
def openConn (key : Block 32) (payload : Bytes) : FrontResult :=
  match opening cfg ⟨c.input, none⟩ with
  | .error e => (shared, { c with stage := .failed e })
  | .ok ((_, some hello), input) =>
    let c := { c with input := input.source }
    match verifyAndCache mac secret shared.cache now (wallSeconds epoch now) hello with
    | (.ok parsed, cache) => ({ shared with cache }, { c with
        verdict := .hello hello now
        stage := .greeting (buildServerHello mac secret parsed key payload) (now + seconds 10) })
    | (.error _, cache) => ({ cache, stats := shared.stats.masked }, { c with
        verdict := .masked hello
        stage := .maskConnect hello (now + cfg.connectLimit) })
  | .ok ((first, none), input) =>
    let c := { c with input := input.source }
    if cfg.fakeTlsDomain ≠ "" then
      (shared, { c with
        verdict := .redirected
        stage := .redirecting (redirectResponse cfg.fakeTlsDomain) (now + seconds 10) })
    else (shared, { c with verdict := .plain, stage := .plainHandshake first (now + seconds 10) })

/-- `serve` behind `initial`, up to `connect`. -/
def serveHandshake (handshake : Block 64) : FrontResult :=
  match parseClientHandshake P handshake secret with
  | .error e => ({ shared with stats := shared.stats.bad }, { c with stage := .failed e })
  | .ok parsed =>
    match normalizeDc parsed.dcIndex.toInt cfg.forceTestDc with
    | .error e => (shared, { c with stage := .failed e })
    | .ok (dc, media, test) => (shared, { c with stage := .connecting parsed dc media test })

/-- The end of a `read_exact` of the handshake. -/
def handshakeRead : Except IoError Bytes → FrontResult
  | .error e => (shared, { c with stage := .failed e })
  | .ok data =>
    if h : data.length = 64 then serveHandshake P secret cfg c shared ⟨data, h⟩
    else (shared, c)

/-- Part of what a connection writes is taken. -/
def writeConn (n : Nat) : Option FrontResult :=
  match c.stage with
  | .greeting left expiry =>
    if 0 < n ∧ n ≤ left.length then
      some (shared, { c.emit false (left.take n) with
        stage :=
          if left.drop n = [] then .tlsHandshake expiry else .greeting (left.drop n) expiry })
    else none
  | .maskHello left expiry =>
    if 0 < n ∧ n ≤ left.length then
      some (shared, { c.emit true (left.take n) with
        stage := if left.drop n = [] then .masking { last := now, wake := now }
          else .maskHello (left.drop n) expiry })
    else none
  | .redirecting left expiry =>
    if 0 < n ∧ n ≤ left.length then
      some (shared, { c.emit false (left.take n) with
        stage := if left.drop n = [] then .closed else .redirecting (left.drop n) expiry })
    else none
  | _ => none

/-- The bytes of the handshake are there, or the end of the stream. -/
def handshakeConn (grants : List (Option Nat)) : Option FrontResult :=
  match c.stage with
  | .tlsHandshake _ =>
    let stream : FakeTlsStream := { inner := { incoming := c.input.bytes, grants } }
    (stream.readExact (c.input.bytes.length + grants.length + 1) 64).map fun (result, stream) =>
      handshakeRead P secret cfg
        { c with input := { c.input with bytes := stream.inner.incoming } } shared result
  | .plainHandshake first _ =>
    match AsyncRead.readExact (⟨c.input, none⟩ : Stream) 63 with
    | .error e => some (shared, { c with stage := .failed e })
    | .ok (data, input) =>
      some
        (handshakeRead P secret cfg { c with input := input.source } shared (.ok (first :: data)))
  | _ => none

/-- A direction of `copy_plain` has read. -/
def copyReadConn (up : Bool) : Option FrontResult :=
  match c.stage with
  | .masking copies =>
    match copies.side up with
    | .writing .. => none
    | .reading =>
      let data := ((c.source up).read cfg.bufferSize.toNat).1
      some (shared, { c.setSource up ((c.source up).read cfg.bufferSize.toNat).2 with
        stage := if data = [] then .closed
          else .masking
            ({ copies with last := now }.put up (.writing data (now + cfg.idleLimit))) })
  | _ => none

/-- A direction of `copy_plain` has written. -/
def copyWroteConn (up : Bool) (n : Nat) : Option FrontResult :=
  match c.stage with
  | .masking copies =>
    match copies.side up with
    | .reading => none
    | .writing left expiry =>
      if 0 < n ∧ n ≤ left.length then
        some (shared, { c.emit up (left.take n) with
          stage := .masking (copies.put up
            (if left.drop n = [] then .reading else .writing (left.drop n) expiry)) })
      else none
  | _ => none

/-- `expired` behind its sleep. -/
def wakeConn : Option FrontResult :=
  match c.stage with
  | .masking copies =>
    if now < copies.wake then none
    else if cfg.idleLimit ≤ now - copies.last then
      some (shared, { c with stage := .failed ⟨.timedOut, "connection idle timeout"⟩ })
    else
      some (shared, { c with
        stage := .masking { copies with wake := now + (cfg.idleLimit - (now - copies.last)) } })
  | _ => none

/-- The times at which a connection fails with a timeout. -/
def FrontConn.deadlines : List Nat :=
  match c.stage with
  | .opening expiry | .greeting _ expiry | .tlsHandshake expiry | .maskConnect _ expiry
  | .maskHello _ expiry | .redirecting _ expiry | .plainHandshake _ expiry => [expiry]
  | .masking copies => [copies.up, copies.down].filterMap CopyStage.expiry
  | _ => []

/-- The effect of an answer on its connection. -/
def stepConn : FrontAnswer → Option FrontResult
  | .opened key payload =>
    match c.stage with
    | .opening _ => some (openConn mac secret epoch cfg now c shared key payload)
    | _ => none
  | .wrote n => writeConn now c shared n
  | .handshake grants => handshakeConn P secret cfg c shared grants
  | .connected =>
    match c.stage with
    | .maskConnect hello _ =>
      some (shared, { c with stage := .maskHello hello (now + cfg.idleLimit) })
    | _ => none
  | .copyRead up => copyReadConn cfg now c shared up
  | .copyWrote up n => copyWroteConn c shared up n
  | .woke => wakeConn cfg now c shared
  | .expired =>
    if c.deadlines.any (· ≤ now) then some (shared, { c with stage := .failed timedOut.toIoError })
    else none
  | .fails e => if c.stage.left then none else some (shared, { c with stage := .failed e })
  | .dropped => if c.stage.left then none else some (shared, { c with stage := .gone })

end

/-! ## The connections of a proxy -/

/-- A proxy with its connections. -/
structure Front where
  config : Config
  clock : Nat := 0
  shared : FrontShared := {}
  conns : List FrontConn := []

/-- The steps; connections are named by their positions. -/
inductive FrontAction
  | tick (d : Nat)
  /-- A socket is accepted. -/
  | accept (input host : Source)
  | conn (i : Nat) (answer : FrontAnswer)

/-- Whether a connection lets this time pass: none of its timers is over before. -/
def FrontConn.waits (c : FrontConn) (time : Nat) : Bool :=
  c.deadlines.all (time ≤ ·) &&
    match c.stage with
    | .masking copies => time ≤ copies.wake
    | _ => true

/-- A connection from its acceptance on. -/
def FrontConn.accepted (now : Nat) (input host : Source) : FrontConn where
  sent := input.bytes
  input := input
  hostSent := host.bytes
  host := host
  began := now
  stage := .opening (now + seconds 10)

section

variable (P : Primitives) (mac : Mac) (secret : Block 16) (epoch : Nat)

/-- The effect of one step. -/
def Front.step (s : Front) : FrontAction → Option Front
  | .tick d =>
    if s.conns.all (·.waits (s.clock + d)) then some { s with clock := s.clock + d } else none
  | .accept input host => some { s with conns := s.conns ++ [.accepted s.clock input host] }
  | .conn i answer => s.conns[i]?.bind fun c =>
    (stepConn P mac secret epoch s.config s.clock c s.shared answer).map fun (shared, c) =>
      { s with shared, conns := s.conns.set i c }

/-- A proxy from its start on. -/
def frontSystem : System Front FrontAction where
  start s := s = { config := s.config }
  step := Front.step P mac secret epoch

end

end TgWsProxy
