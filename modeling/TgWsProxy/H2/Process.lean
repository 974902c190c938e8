import TgWsProxy.Core.Transition
import TgWsProxy.H2.Channel

/-!
# One process

The lanes and channels of one `CfH2Pool`, their uploads, request tasks and replies, and
the budgets they share. A channel is found by its number until it is dropped, which is
what the weak references to it do. A section of code without an await is one step, and
the two sections of `fail` are two; which step comes next, when a task is polled or
dropped, and what the network answers are inputs.
-/

namespace TgWsProxy.H2

open TgWsProxy.Core

/-- The memory of a reply on its lane and in the process. -/
structure ReplyCharge where
  lane : Nat
  bytes : Nat
  global : BudgetPermit

/-- The memory of a delivered reply on its channel. -/
structure ChannelReplyCharge where
  channel : Nat
  bytes : Nat

/-- A complete response body with its charges. -/
structure BufferedReply where
  parts : List Bytes
  length : Nat
  laneCharge : ReplyCharge
  channelCharge : Option ChannelReplyCharge := none

/-- The first 24 bytes of the reply. -/
def BufferedReply.replayId (reply : BufferedReply) : Bytes := reply.parts.flatten.take 24

/-- A channel: its state, its queue of replies, and a `fail` between its two sections. -/
structure ChannelInner where
  lane : Nat
  state : ChannelState
  replies : List BufferedReply := []
  closed : Bool := false
  failing : Option Terminal := none

/-- How many replies the queue of a channel holds. -/
def replyQueue : Nat := 16

/-- A lane as far as its channels' memory is concerned. -/
structure Lane where
  replyBytes : Nat := 0
  /-- The registered channels. -/
  channels : List Nat := []
  closed : Bool := false

/-- The three permits of a request. -/
structure RequestCapacity where
  channel : BudgetPermit
  lane : BudgetPermit
  global : BudgetPermit

/-- Where an upload stands in `reserve`, with the permits it holds. -/
inductive ReserveStage
  /-- Waiting for the channel's budget. -/
  | channel
  /-- Waiting for the lane's budget. -/
  | lane (channel : BudgetPermit)
  /-- Waiting for the process budget. -/
  | global (channel lane : BudgetPermit)
  /-- `reserve` has returned; the body is being read. -/
  | reserved (capacity : RequestCapacity)

/-- An upload that waits for capacity or holds it for a body to come. -/
structure Reservation where
  channel : Nat
  lane : Nat
  bytes : Nat
  stage : ReserveStage := .channel

/-- What a request task drops last. -/
structure RequestGuard where
  channel : Nat
  request : Nat
  channelPermit : BudgetPermit
  lanePermit : BudgetPermit
  globalPermit : BudgetPermit

/-- How far a request task has come. -/
inductive TaskStage
  | spawned
  | started
  | sent
  | receiving
  | done
  deriving DecidableEq

/-- A request task, and the charge of the reply it is receiving. A task that is aborted may
still finish the poll it is in, and is then dropped. -/
structure RequestTask where
  lane : Nat
  body : Bytes
  guard : RequestGuard
  stage : TaskStage := .spawned
  aborted : Bool := false
  charge : Option ReplyCharge := none

/-- The whole process; `held` are the replies taken from their queues. -/
structure Process where
  clock : Nat := 0
  budgets : Budgets
  laneCount : Nat := 0
  lanes : Nat → Lane := fun _ => {}
  channels : List (Option ChannelInner) := []
  reservations : List Reservation := []
  tasks : List RequestTask := []
  held : List BufferedReply := []

/-- How a request task ends. -/
inductive Outcome
  | reply (parts : List Bytes)
  | empty
  | failed (terminal : Terminal)

/-- The steps of a process; numbers are positions in its lists. -/
inductive ProcessAction
  | tick (elapsed : Nat)
  | openLane
  | openChannel (lane : Nat)
  | dropChannel (channel : Nat)
  | closeLane (lane : Nat) (clear : Bool)
  | fail (channel : Nat) (terminal : Terminal)
  /-- The locked section of a `fail`. -/
  | terminate (channel : Nat)
  | reserve (channel bytes : Nat)
  /-- The budget a reservation waits for has room. -/
  | acquired (reservation : Nat)
  /-- The wait for a budget has timed out. -/
  | refused (reservation : Nat)
  | cancelled (reservation : Nat)
  | sendReserved (reservation : Nat) (body : Bytes)
  | sweep (channel : Nat)
  | makeRoom (channel : Nat)
  | rotate (channel : Nat)
  | replay (channel : Nat)
  | markStarted (task generation : Nat)
  | markSent (task : Nat)
  | markReceiving (task : Nat)
  /-- A declared length or a DATA chunk is charged. -/
  | charged (task bytes : Nat)
  | finished (task : Nat) (outcome : Outcome)
  | taskDropped (task : Nat)
  | receive (channel : Nat)
  | replyDropped (reply : Nat)
  | nativeWrite (channel : Nat) (pending : Bool)
  | progress (channel : Nat)

namespace ChannelInner

/-- The first section of `fail`. -/
def fail (ch : ChannelInner) (terminal : Terminal) : ChannelInner :=
  if ch.closed then ch else { ch with closed := true, failing := some terminal }

end ChannelInner

/-- The permits of a reservation. -/
def Reservation.permits (r : Reservation) : List BudgetPermit :=
  match r.stage with
  | .channel => []
  | .lane channel => [channel]
  | .global channel lane => [channel, lane]
  | .reserved capacity => [capacity.channel, capacity.lane, capacity.global]

/-- The permits of a request task. -/
def RequestGuard.permits (guard : RequestGuard) : List BudgetPermit :=
  [guard.channelPermit, guard.lanePermit, guard.globalPermit]

/-- A request that `make_room` may abort. -/
structure Candidate where
  original : Bool
  sent : Nat
  channel : Nat
  request : Nat
  deriving DecidableEq

/-- The tests of `make_room` on one pending request. -/
def ChannelState.removable (st : ChannelState) (now : Nat) (p : Pending) : Bool :=
  !p.receiving && sentFor replayRequest now p &&
    (p.replay || p.entry.any fun sequence => st.history.any (·.sequence = sequence))

/-- The sort of `make_room`: replays first, then by time of sending. -/
def Candidate.before (x y : Candidate) : Bool :=
  match x.original, y.original with
  | false, true => true
  | true, false => false
  | _, _ => x.sent ≤ y.sent

namespace Process

/-- The channel of a number, if it is alive: `Weak::upgrade`. -/
def channel? (s : Process) (c : Nat) : Option ChannelInner := s.channels[c]?.join

/-- Replace a channel. -/
def setChannel (s : Process) (c : Nat) (ch : ChannelInner) : Process :=
  { s with channels := s.channels.set c (some ch) }

/-- Change the state of a channel that is alive. -/
def modifyState (s : Process) (c : Nat) (f : ChannelState → ChannelState) : Process :=
  match s.channel? c with
  | some ch => s.setChannel c { ch with state := f ch.state }
  | none => s

/-- `fail`, up to its locked section. -/
def failChannel (s : Process) (c : Nat) (terminal : Terminal) : Process :=
  match s.channel? c with
  | some ch => s.setChannel c (ch.fail terminal)
  | none => s

/-- Abort the tasks that meet a test. -/
def abortTasks (s : Process) (p : RequestTask → Bool) : Process :=
  { s with tasks := s.tasks.map fun t => if p t then { t with aborted := true } else t }

/-- Change a lane. -/
def modifyLane (s : Process) (l : Nat) (f : Lane → Lane) : Process :=
  { s with lanes := Function.update s.lanes l (f (s.lanes l)) }

/-! ## Replies -/

/-- `Lane::charge_reply`. -/
def chargeReply (s : Process) (l bytes : Nat) : Option ReplyCharge × Process :=
  match tryAcquire s.budgets .replies bytes with
  | none => (none, s)
  | some (global, budgets) =>
    if (s.lanes l).replyBytes + bytes > maxLaneReplyBytes then
      (none, { s with budgets := dropPermit budgets global })
    else
      (some ⟨l, bytes, global⟩,
        { s with budgets }.modifyLane l fun lane =>
          { lane with replyBytes := lane.replyBytes + bytes })

/-- `ReplyCharge::try_extend`: whether it worked, and the charge after it. -/
def tryExtend (s : Process) (charge : ReplyCharge) (bytes : Nat) : Bool × ReplyCharge × Process :=
  match tryExtendBytes s.budgets charge.global bytes with
  | none => (false, charge, s)
  | some (global, budgets) =>
    if (s.lanes charge.lane).replyBytes + bytes > maxLaneReplyBytes then
      let (global, budgets) := shrinkBytes budgets global bytes
      (false, { charge with global }, { s with budgets })
    else
      (true, { charge with bytes := charge.bytes + bytes, global },
        { s with budgets }.modifyLane charge.lane fun lane =>
          { lane with replyBytes := lane.replyBytes + bytes })

/-- Drop the charge of a reply. -/
def dropCharge (s : Process) (charge : ReplyCharge) : Process :=
  { s with budgets := dropPermit s.budgets charge.global }.modifyLane charge.lane fun lane =>
    { lane with replyBytes := lane.replyBytes - charge.bytes }

/-- Drop the charge that a task may hold. -/
def discard (s : Process) : Option ReplyCharge → Process
  | some charge => s.dropCharge charge
  | none => s

/-- Drop a reply. -/
def dropReply (s : Process) (reply : BufferedReply) : Process :=
  let s := s.dropCharge reply.laneCharge
  match reply.channelCharge with
  | some charge =>
    s.modifyState charge.channel fun st => { st with replyBytes := st.replyBytes - charge.bytes }
  | none => s

/-- `deliver`: queue a reply, or drop it and fail the channel. -/
def deliver (s : Process) (c request : Nat) (reply : BufferedReply) : Process :=
  match s.channel? c with
  | none => s.dropReply reply
  | some ch =>
    if ch.closed ∨ ch.state.terminal.isSome then s.dropReply reply
    else
      let st := ch.state.noteReply request reply.replayId s.clock
      if st.replyBytes + reply.length > maxChannelReplyBytes then
        ((s.setChannel c { ch with state := st }).failChannel c
          (.error .outOfMemory "H2 client response queue exceeded bound")).dropReply reply
      else
        let st := { st with replyBytes := st.replyBytes + reply.length }
        let reply := { reply with channelCharge := some ⟨c, reply.length⟩ }
        if ch.replies.length < replyQueue then
          s.setChannel c { ch with state := st, replies := ch.replies ++ [reply] }
        else
          ((s.setChannel c { ch with state := st }).dropReply reply).failChannel c
            (.error .outOfMemory "H2 client response queue is full")

/-! ## Requests -/

/-- `launch`: spawn a request task, or drop its permits. -/
def launch (s : Process) (c : Nat) (body : Bytes) (capacity : RequestCapacity)
    (replaySequence : Option Nat) : Process :=
  let refused := { s with
    budgets := dropPermits s.budgets [capacity.channel, capacity.lane, capacity.global] }
  match s.channel? c with
  | none => refused
  | some ch =>
    match ch.state.launch s.budgets ch.closed body replaySequence s.clock with
    | none => refused
    | some (request, state, budgets) =>
      { s.setChannel c { ch with state } with
        budgets
        tasks := s.tasks ++ [⟨ch.lane, body,
          ⟨c, request, capacity.channel, capacity.lane, capacity.global⟩, .spawned, false, none⟩] }

/-- `try_replay`: take the three permits at once, or none. -/
def tryReplay (s : Process) (c l sequence : Nat) (body : Bytes) : Process :=
  match tryAcquire s.budgets (.channel c) body.length with
  | none => s
  | some (channel, budgets) =>
    match tryAcquire budgets (.lane l) body.length with
    | none => { s with budgets := dropPermits budgets [channel] }
    | some (lane, budgets) =>
      match tryAcquire budgets .requests body.length with
      | none => { s with budgets := dropPermits budgets [channel, lane] }
      | some (global, budgets) =>
        { s with budgets }.launch c body ⟨channel, lane, global⟩ (some sequence)

/-- `retire_and_abort`. -/
def retireAndAbort (s : Process) (c request : Nat) : Process :=
  match s.channel? c with
  | none => s
  | some ch =>
    if request ∈ ch.state.pending then
      (s.setChannel c { ch with state := ch.state.retire request }).abortTasks fun t =>
        t.guard.channel = c ∧ t.guard.request = request
    else s

/-- `RequestGuard::drop`, with the charge the task may still hold. -/
def dropTask (s : Process) (t : RequestTask) : Process :=
  let s := (s.discard t.charge).modifyState t.guard.channel fun st =>
    st.finishRequest t.guard.request
  { s with budgets := dropPermits s.budgets t.guard.permits }

/-! ## Making room -/

/-- The removable requests of one channel, by number. -/
def channelCandidates (s : Process) (c : Nat) : List Candidate :=
  match s.channel? c with
  | none => []
  | some ch =>
    ch.state.pending.toList.filterMap fun (request, p) =>
      if ch.state.removable s.clock p then
        some ⟨!p.replay, p.sentAt.getD 0, c, request⟩
      else none

/-- The candidates of `make_room` for an upload: those of a full channel, else those of
a full lane. -/
def candidates (s : Process) (c : Nat) (bytes : Nat) : List Candidate :=
  match s.channel? c with
  | none => []
  | some ch =>
    if !(s.budgets (.channel c)).hasCapacity bytes then s.channelCandidates c
    else if !(s.budgets (.lane ch.lane)).hasCapacity bytes then
      ((s.lanes ch.lane).channels.filter fun c => (s.channel? c).isSome).flatMap s.channelCandidates
    else []

/-- The first candidate. -/
def firstCandidate (s : Process) (c : Nat) (bytes : Nat) : Option Candidate :=
  ((s.candidates c bytes).insertionSort fun x y => x.before y).head?

/-- `Lane::make_room`: abort the first candidate. -/
def makeRoom (s : Process) (c : Nat) (bytes : Nat) : Process :=
  match s.firstCandidate c bytes with
  | some x => s.retireAndAbort x.channel x.request
  | none => s

/-! ## Steps -/

/-- The effect of a step on a reservation that waits for a budget with room. -/
def acquire (s : Process) (i : Nat) (r : Reservation) : Option Process :=
  let advance (id : BudgetId) (stage : BudgetPermit → ReserveStage) : Option Process :=
    (tryAcquire s.budgets id r.bytes).map fun (permit, budgets) =>
      { s with budgets, reservations := s.reservations.set i { r with stage := stage permit } }
  match r.stage with
  | .channel => advance (.channel r.channel) .lane
  | .lane channel => advance (.lane r.lane) (.global channel)
  | .global channel lane =>
    (advance .requests fun global => .reserved ⟨channel, lane, global⟩).map fun s =>
      s.modifyState r.channel fun st => { st with waitingUpload := none }
  | .reserved _ => none

/-- A reservation is given up, with its permits. -/
def release (s : Process) (i : Nat) (r : Reservation) : Process :=
  { s with
    budgets := dropPermits s.budgets r.permits
    reservations := s.reservations.eraseIdx i }

/-- The end of a request task: its reply is delivered, or what it was charged is dropped. -/
def finish (s : Process) (i : Nat) (t : RequestTask) (outcome : Outcome) : Option Process :=
  let s := { s with tasks := s.tasks.set i { t with stage := .done, charge := none } }
  match outcome with
  | .reply parts =>
    match t.charge with
    | some charge =>
      if t.stage = .receiving ∧ 0 < parts.flatten.length ∧ parts.flatten.length = charge.bytes then
        some (s.deliver t.guard.channel t.guard.request ⟨parts, parts.flatten.length, charge, none⟩)
      else none
    | none => none
  | .empty =>
    if t.stage = .receiving then
      some ((s.discard t.charge).modifyState t.guard.channel (·.progress s.clock))
    else none
  | .failed terminal => some ((s.discard t.charge).failChannel t.guard.channel terminal)

/-- A declared length or chunk is charged; a refusal ends the task and fails its channel. -/
def charge (s : Process) (i : Nat) (t : RequestTask) (bytes : Nat) : Process :=
  match t.charge with
  | none =>
    match s.chargeReply t.lane bytes with
    | (some charge, s) => { s with tasks := s.tasks.set i { t with charge := some charge } }
    | (none, s) =>
      { s with tasks := s.tasks.set i { t with stage := .done } }.failChannel t.guard.channel
        (.error .other "H2 response buffers exceeded bound")
  | some charge =>
    match s.tryExtend charge bytes with
    | (true, charge, s) => { s with tasks := s.tasks.set i { t with charge := some charge } }
    | (false, charge, s) =>
      ({ s with tasks := s.tasks.set i { t with stage := .done, charge := none } }.dropCharge
        charge).failChannel t.guard.channel (.error .other "H2 response buffers exceeded bound")

/-- A new channel registers with its lane, which forgets the dead ones. -/
def openChannel (s : Process) (l : Nat) : Process :=
  let opened : ChannelInner := { lane := l, state := { lastProgress := some s.clock } }
  { s with channels := s.channels ++ [some opened] }.modifyLane l fun lane =>
    { lane with
      channels := lane.channels.filter (fun c => (s.channel? c).isSome) ++ [s.channels.length] }

/-- A channel is dropped with its queue and history. -/
def dropChannel (s : Process) (c : Nat) (ch : ChannelInner) : Process :=
  let s := { s with
    channels := s.channels.set c none
    budgets := dropPermits s.budgets (historyPermits ch.state.history) }
  ch.replies.foldl dropReply s

/-- `Lane::abort`, and `start_close`, which also forgets the channels. -/
def closeLane (s : Process) (l : Nat) (clear : Bool) : Process :=
  let s := (s.lanes l).channels.foldl
    (fun s c => s.failChannel c (.error .notConnected "H2 pool closed")) s
  (s.abortTasks fun t => t.lane = l).modifyLane l fun lane =>
    { lane with closed := true, channels := if clear then [] else lane.channels }

/-- The live channel of a step of `recover`. -/
def recovering (s : Process) (c : Nat) : Option ChannelInner :=
  (s.channel? c).filter fun ch => !ch.closed

/-- The size of the upload that `recover` makes room for: one that has waited long. -/
def roomFor (s : Process) (c : Nat) : Option Nat :=
  (s.recovering c).bind fun ch => ch.state.waitingUpload.bind fun (started, bytes) =>
    if s.clock - started ≥ replayRequest then some bytes else none

/-- The effect of one step. -/
def step (s : Process) : ProcessAction → Option Process
  | .tick elapsed => some { s with clock := s.clock + elapsed }
  | .openLane => some { s with laneCount := s.laneCount + 1 }
  | .openChannel l => if l < s.laneCount then some (s.openChannel l) else none
  | .dropChannel c =>
    (s.channel? c).bind fun ch =>
      -- the owner has closed it, and its upload is over
      if ch.closed ∧ ch.failing = none ∧ s.reservations.all (·.channel ≠ c) then
        some (s.dropChannel c ch)
      else none
  | .closeLane l clear => if l < s.laneCount then some (s.closeLane l clear) else none
  | .fail c terminal => (s.channel? c).map fun _ => s.failChannel c terminal
  | .terminate c =>
    (s.channel? c).bind fun ch => ch.failing.map fun terminal =>
      let (state, budgets) := ch.state.terminate s.budgets terminal
      { s with budgets }.setChannel c { ch with state, failing := none } |>.abortTasks fun t =>
        t.guard.channel = c ∧ t.guard.request ∈ ch.state.pending
  | .reserve c bytes =>
    (s.channel? c).bind fun ch =>
      if ch.closed ∨ bytes < 24 ∨ bytes > maxPaddedPacket then none
      else
        some { s.setChannel c
            { ch with state := { ch.state with waitingUpload := some (s.clock, bytes) } } with
          reservations := s.reservations ++ [⟨c, ch.lane, bytes, .channel⟩] }
  | .acquired i => s.reservations[i]?.bind fun r => s.acquire i r
  | .refused i =>
    s.reservations[i]?.bind fun r =>
      match r.stage with
      | .reserved _ => none
      | _ =>
        some ((s.release i r).modifyState r.channel fun st => { st with waitingUpload := none })
  | .cancelled i => s.reservations[i]?.map fun r => s.release i r
  | .sendReserved i body =>
    s.reservations[i]?.bind fun r =>
      match r.stage with
      | .reserved capacity =>
        if body.length ≤ r.bytes ∧ body.length ≤ maxPacket ∧ body.length % 4 = 0 then
          some ({ s with reservations := s.reservations.eraseIdx i }.launch r.channel body capacity
            none)
        else none
      | _ => none
  | .sweep c =>
    (s.recovering c).map fun ch =>
      let (state, budgets) := ch.state.sweep s.budgets s.clock
      { s with budgets }.setChannel c { ch with state }
  | .makeRoom c => (s.roomFor c).map fun bytes => s.makeRoom c bytes
  | .rotate c =>
    (s.recovering c).map fun ch =>
      match ch.state.staleReplay s.clock with
      | some request => s.abortTasks fun t => t.guard.channel = c ∧ t.guard.request = request
      | none => s
  | .replay c =>
    (s.recovering c).map fun ch =>
      match ch.state.replayCandidate s.clock with
      | some (sequence, body) => s.tryReplay c ch.lane sequence body
      | none => s
  | .markStarted i generation =>
    (s.tasks[i]?.filter fun t => t.stage = .spawned).map fun t =>
      { s with tasks := s.tasks.set i { t with stage := .started } }.modifyState t.guard.channel
        (·.markStarted t.guard.request generation)
  | .markSent i =>
    (s.tasks[i]?.filter fun t => t.stage = .started).map fun t =>
      { s with tasks := s.tasks.set i { t with stage := .sent } }.modifyState t.guard.channel
        (·.markSent t.guard.request s.clock)
  | .markReceiving i =>
    (s.tasks[i]?.filter fun t => t.stage = .sent).map fun t =>
      { s with tasks := s.tasks.set i { t with stage := .receiving } }.modifyState t.guard.channel
        (·.markReceiving t.guard.request s.clock)
  | .charged i bytes =>
    (s.tasks[i]?.filter fun t => t.stage = .receiving).map fun t =>
      s.charge i t bytes
  | .finished i outcome =>
    (s.tasks[i]?.filter fun t => t.stage ≠ .done).bind fun t => s.finish i t outcome
  | .taskDropped i =>
    (s.tasks[i]?.filter fun t => t.stage = .done || t.aborted).map fun t =>
      { s with tasks := s.tasks.eraseIdx i }.dropTask t
  | .receive c =>
    (s.channel? c).bind fun ch =>
      match ch.state.terminal, ch.replies with
      | some _, _ => some (s.setChannel c { ch with state := { ch.state with terminal := none } })
      | none, reply :: replies =>
        some { s.setChannel c { ch with replies } with held := s.held ++ [reply] }
      | none, [] => none
  | .replyDropped i =>
    s.held[i]?.map fun reply => { s with held := s.held.eraseIdx i }.dropReply reply
  | .nativeWrite c pending =>
    (s.channel? c).map fun _ => s.modifyState c fun st => { st with delivering := pending }
  | .progress c => (s.channel? c).map fun _ => s.modifyState c (·.progress s.clock)

end Process

/-- The runs of a process, from budgets with nothing taken. -/
def processSystem : System Process ProcessAction where
  start s := s = { budgets := s.budgets } ∧
    ∀ id, (s.budgets id).requests = 0 ∧ (s.budgets id).bytes = 0
  step := Process.step

/-- A process before its first lane. -/
def Process.initial : Process := { budgets := processDefaults }

/-- A process starts as it is made. -/
theorem initial_start : processSystem.start Process.initial :=
  ⟨rfl, fun id => by cases id <;> exact ⟨rfl, rfl⟩⟩

/-- The steps of a `reserve` that finds room in all three budgets. -/
def reserveActions (c reservation bytes : Nat) : List ProcessAction :=
  [.reserve c bytes, .acquired reservation, .acquired reservation, .acquired reservation]

/-- The steps of an upload whose body is there at once and is sent. -/
def uploadActions (c reservation task : Nat) (body : Bytes) : List ProcessAction :=
  reserveActions c reservation body.length ++
    [.sendReserved reservation body, .markStarted task 1, .markSent task]

end TgWsProxy.H2
