import TgWsProxy.H2.Post
import TgWsProxy.H2.Termination

/-!
# The bridge of a client

`bridge_h2` of `cf_h2.rs` over one channel: the `select` of `download`, `upload`, `recover`
and the idle timeout, with the request tasks beside it. Each branch goes from await to await
on its own; what the client reads and sends, the random bytes and the answers of the network
are inputs.
-/

namespace TgWsProxy.H2

open TgWsProxy.Core

/-- `H2Reply`. -/
inductive H2Reply
  | packet (reply : BufferedReply)
  | transportError (code : Int32)

/-- The parts of the body that is written. -/
def H2Reply.parts : H2Reply → List Bytes
  | .packet reply => reply.parts
  | .transportError code => [toLe 4 code.toUInt32.toNat]

/-- What dropping the reply does to its channel. -/
def H2Reply.drops : H2Reply → List ChannelAction
  | .packet reply => [.replyDropped reply.length]
  | .transportError _ => []

/-- Where `download` stands. -/
inductive Download
  | receiving
  | received (reply : H2Reply)
  /-- What is left of an encrypted piece, and the pieces after it. -/
  | writing (reply : H2Reply) (native : NativeReply) (encrypted : Bytes) (pieces : List Bytes)
  | returned

/-- The terminal that `download` has taken and not yet written. -/
def Download.code : Download → Option Int32
  | .received (.transportError code) | .writing (.transportError code) _ _ _ => some code
  | _ => none

/-- What is being written has the code it was received with. -/
theorem Download.code_writing (reply : H2Reply) (native : NativeReply) (encrypted : Bytes)
    (pieces : List Bytes) :
    (Download.writing reply native encrypted pieces).code = (Download.received reply).code := by
  cases reply with
  | packet _ => rfl
  | transportError _ => rfl

/-- Where the branch of `upload` stands. -/
inductive Upload
  | active
  /-- `upload` has returned, and `closed` has not been looked at. -/
  | returned (e : IoError)
  | parked

/-- Where `recover` stands, which is a loop without an end. -/
inductive Recovery
  | sleeping
  | awake
  | parked

/-- How a bridge ends: with what `download` returns, with what `upload` returns, or idle. -/
inductive Ending
  | terminal (code : Int32)
  | receive (e : IoError)
  | refused (e : IoError)
  | write (e : IoError)
  | upload (e : IoError)
  | idle

/-- What a bridge is given. -/
structure BridgeContext where
  protocol : Protocol
  bufferSize : Nat
  idleTimeout : Nat
  clientEncrypt : AesCtr

/-- A bridge and its channel. -/
structure Bridge where
  channel : RunningChannel
  encrypt : AesCtr
  /-- The bytes that the client has taken. -/
  wire : Bytes := []
  download : Download := .receiving
  upload : Upload := .active
  recovery : Recovery := .sleeping
  lastActivity : Nat
  /-- The replies that have been written and flushed. -/
  written : List NativeReply := []
  ended : Option Ending := none

/-- The steps of a bridge and of what runs beside it. -/
inductive BridgeAction
  /-- A step of a request task, of another channel or of the pool. -/
  | outside (a : ChannelAction)
  /-- The answer to a request. -/
  | answered (request : Nat) (response : Response) (memory : Nat → Option IoError)
    (charge : ReplyCharge)
  /-- A step of the `receive` of `download`. -/
  | receive (a : ChannelAction)
  /-- `write_encrypted_reply` is called, and draws these bytes. -/
  | begin (random : UInt8) (padding : Block 15)
  | encryptPiece
  | write (count : Nat)
  /-- A write or flush fails. -/
  | writeFailed (e : IoError)
  | flushed
  /-- A step of `upload` on the channel. -/
  | upload (a : ChannelAction)
  /-- `upload` has read from the client. -/
  | uploadReads
  | uploadReturns (e : IoError)
  | uploadLooks
  | recoveryLooks
  | recover (room : Option Nat) (budgets : Budgets) (granted : Bool)
  | expired
  /-- After the end `download` is dropped, and the channel closed. -/
  | close

/-- The steps of others than the bridge. -/
def ChannelAction.isOutside : ChannelAction → Bool
  | .tick _ | .markStarted _ _ | .markSent _ | .markReceiving _ | .progress | .trySend _
  | .finishRequest _ | .fail _ | .terminate _ | .wake | .retireAndAbort _ => true
  | _ => false

/-- The steps of `upload` on the channel. -/
def ChannelAction.isUpload : ChannelAction → Bool
  | .uploadWaits _ | .uploadReady | .send _ _ => true
  | _ => false

/-- The steps of a `receive` call that is the only one. -/
def ChannelAction.isReceive : ChannelAction → Bool
  | .enable 0 | .take 0 | .lock 0 | .poll 0 | .check 0 => true
  | _ => false

/-- What a request task does with the answer. -/
def answerAction (request : Nat) (response : Response) (memory : Nat → Option IoError)
    (charge : ReplyCharge) : ChannelAction :=
  match post response memory with
  | .ok (some parts) => .deliver request ⟨parts, parts.flatten.length, charge, none⟩
  | .ok none => .progress
  | .error (.transport code) => .fail (.transport code)
  | .error (.channel e) | .error (.route e) => .fail (.error e.kind e.message)

section

variable (P : Primitives) (ctx : BridgeContext)

namespace Bridge

/-- Some steps on the channel. -/
def onChannel (s : Bridge) (actions : List ChannelAction) : Option Bridge :=
  (channelSystem.run s.channel actions).map fun channel => { s with channel }

/-- What `download` does when `receive` returns: the latest return stands first in the log. -/
def receiveReturns (s : Bridge) : Option Bridge :=
  match s.channel.returned with
  | .handed (.transport code) :: _ => some { s with download := .received (.transportError code) }
  | .handed (.error kind message) :: _ => some { s with ended := some (.receive ⟨kind, message⟩) }
  | .packet reply :: _ => some { s with download := .received (.packet reply) }
  | _ => none

/-- A step of `download`. -/
def downloadStep (s : Bridge) : BridgeAction → Option Bridge
  | .receive a =>
    match s.download with
    | .receiving =>
      if a.isReceive then
        (s.onChannel [a]).bind fun s => if s.channel.receives = [] then s.receiveReturns else some s
      else none
    | _ => none
  | .begin random padding =>
    match s.download with
    | .received reply =>
      (s.onChannel [.nativeWrite true]).map fun s =>
        let s := { s with lastActivity := s.channel.clock }
        let native : NativeReply := ⟨reply.parts, random, padding⟩
        match native.pieces ctx.protocol ctx.bufferSize with
        | .error e => { s with ended := some (.refused e) }
        | .ok pieces => { s with download := .writing reply native [] pieces }
    | _ => none
  | .encryptPiece =>
    match s.download with
    | .writing reply native [] (piece :: pieces) =>
      let (encrypted, encrypt) := s.encrypt.applyKeystream P piece
      some { s with encrypt, download := .writing reply native encrypted pieces }
    | _ => none
  | .write count =>
    match s.download with
    | .writing reply native encrypted pieces =>
      if 0 < count ∧ count ≤ encrypted.length then
        some { s with
          wire := s.wire ++ encrypted.take count
          download := .writing reply native (encrypted.drop count) pieces
          lastActivity := s.channel.clock }
      else none
    | _ => none
  | .writeFailed e =>
    match s.download with
    | .writing _ _ _ _ => some { s with ended := some (.write e) }
    | _ => none
  | .flushed =>
    match s.download with
    | .writing reply native [] [] =>
      let s := { s with written := s.written ++ [native] }
      match reply with
      | .transportError code =>
        (s.onChannel ([.progress, .nativeWrite false] ++ reply.drops)).map fun s =>
          { s with download := .returned, ended := some (.terminal code) }
      | .packet _ =>
        (s.onChannel ([.progress, .nativeWrite false] ++ reply.drops ++ [.receive])).map fun s =>
          { s with download := .receiving }
    | _ => none
  | _ => none

/-- A step of the branch of `upload`. -/
def uploadStep (s : Bridge) : BridgeAction → Option Bridge
  | .upload a =>
    match s.upload with
    | .active => if a.isUpload then s.onChannel [a] else none
    | _ => none
  | .uploadReads =>
    match s.upload with
    | .active => some { s with lastActivity := s.channel.clock }
    | _ => none
  | .uploadReturns e =>
    match s.upload with
    | .active => some { s with upload := .returned e }
    | _ => none
  | .uploadLooks =>
    match s.upload with
    | .returned e =>
      if s.channel.closed then some { s with upload := .parked }
      else some { s with ended := some (.upload e) }
    | _ => none
  | _ => none

/-- A step of the branch of `recover`. -/
def recoveryStep (s : Bridge) : BridgeAction → Option Bridge
  | .recoveryLooks =>
    match s.recovery with
    | .sleeping =>
      if s.channel.closed then some { s with recovery := .parked }
      else some { s with recovery := .awake }
    | _ => none
  | .recover room budgets granted =>
    match s.recovery with
    | .awake =>
      (s.onChannel [.recover room budgets granted]).map fun s => { s with recovery := .sleeping }
    | _ => none
  | _ => none

/-- The effect of one step: the branches go on until one of them ends the bridge. -/
def step (s : Bridge) (action : BridgeAction) : Option Bridge :=
  match action with
  | .outside a => if a.isOutside then s.onChannel [a] else none
  | .answered request response memory charge =>
    s.onChannel [answerAction request response memory charge]
  | .close =>
    if s.ended.isSome then
      s.onChannel [.nativeWrite false, .fail (.error .connectionAborted "H2 channel closed")]
    else none
  | .upload _ | .uploadReads | .uploadReturns _ | .uploadLooks =>
    if s.ended.isSome then none else s.uploadStep action
  | .recoveryLooks | .recover _ _ _ => if s.ended.isSome then none else s.recoveryStep action
  | .expired =>
    if s.ended.isNone ∧ ctx.idleTimeout ≤ s.channel.clock - s.lastActivity then
      some { s with ended := some .idle }
    else none
  | _ => if s.ended.isSome then none else s.downloadStep P ctx action

end Bridge

/-- A bridge from its first poll on. -/
def bridgeSystem : System Bridge BridgeAction where
  start s := ∃ clock, s = {
    channel := { clock, state := { lastProgress := some clock }, receives := [.entered] }
    encrypt := ctx.clientEncrypt
    lastActivity := clock }
  step := Bridge.step P ctx

end

end TgWsProxy.H2
