import TgWsProxy.H2.Process

/-!
# The life of one channel

One `ChannelInner` with its request tasks, its recovery loop and the calls of `receive`,
in steps as small as its locks allow: `fail` is a swap, a locked section and a wake-up,
`deliver` a locked section and a send, and `receive` is taken apart at every lock and
await. What the shared budgets grant, which request `make_room` picks, and what the
network answers are inputs. One iteration of `recover` runs at one instant.
-/

namespace TgWsProxy.H2

open TgWsProxy.Core

/-- Where a call of `receive` stands; `notified` is its `changed` future. -/
inductive Receive
  | entered
  /-- `changed` is enabled. -/
  | enabled (notified : Bool)
  /-- No terminal was recorded; waiting for the receiver. -/
  | waiting (notified : Bool)
  /-- Holding the receiver, in the `select`. -/
  | selecting (notified : Bool)
  /-- Holding the receiver and a reply, before the last look at the terminal. -/
  | popped (reply : BufferedReply)

namespace Receive

/-- Whether the call holds the receiver. -/
def holds : Receive → Bool
  | .selecting _ | .popped _ => true
  | _ => false

/-- The effect of `notify_waiters`. -/
def notify : Receive → Receive
  | .enabled _ => .enabled true
  | .waiting _ => .waiting true
  | .selecting _ => .selecting true
  | call => call

end Receive

/-- What is put on the wire, and what a reply does to a record of it. -/
inductive LaunchEvent
  /-- An original request. -/
  | sent (request : Nat) (body : Bytes) (time : Nat)
  /-- A replay of the request that its entry is named after. -/
  | replayed (request sequence : Nat) (body : Bytes) (time : Nat)
  /-- A new reply prefix gave the entry its attempts back. -/
  | renewed (sequence : Nat)
  deriving DecidableEq

/-- The end of the channel, and what `receive` has returned. -/
inductive ReceiveEvent
  /-- The locked section of the first `fail` has run. -/
  | failed (terminal : Terminal)
  | handed (terminal : Terminal)
  | packet (reply : BufferedReply)

/-- A channel with its tasks and callers. Both logs have the latest first. -/
structure RunningChannel where
  clock : Nat := 0
  state : ChannelState := {}
  closed : Bool := false
  /-- A `fail` between its swap and its locked section. -/
  failing : Option Terminal := none
  /-- A `fail` between its locked section and `notify_waiters`. -/
  waking : Bool := false
  /-- Replies of a `deliver` between its locked section and `try_send`. -/
  sending : List BufferedReply := []
  replies : List BufferedReply := []
  receives : List Receive := []
  /-- The requests that have been told to abort. -/
  aborted : List Nat := []
  launched : List LaunchEvent := []
  returned : List ReceiveEvent := []

/-- The steps of a channel; `receive` calls are named by their positions. -/
inductive ChannelAction
  | tick (elapsed : Nat)
  | uploadWaits (bytes : Nat)
  | uploadReady
  /-- `send_reserved`. -/
  | send (body : Bytes) (budgets : Budgets)
  | markStarted (request generation : Nat)
  | markSent (request : Nat)
  | markReceiving (request : Nat)
  | progress
  /-- The locked section of `deliver`. -/
  | deliver (request : Nat) (reply : BufferedReply)
  /-- The `try_send` of a `deliver`. -/
  | trySend (sending : Nat)
  | finishRequest (request : Nat)
  | fail (terminal : Terminal)
  /-- The locked section of the `fail` that closed the channel, and its aborts. -/
  | terminate (budgets : Budgets)
  /-- The wake-up of that `fail`. -/
  | wake
  /-- `retire_and_abort` by the `make_room` of another channel. -/
  | retireAndAbort (request : Nat)
  /-- An iteration of `recover`; `room` is what its `make_room` picks on this channel. -/
  | recover (room : Option Nat) (budgets : Budgets) (granted : Bool)
  | nativeWrite (pending : Bool)
  /-- A reply that was taken or queued is dropped. -/
  | replyDropped (bytes : Nat)
  | receive
  | enable (call : Nat)
  | take (call : Nat)
  | lock (call : Nat)
  | poll (call : Nat)
  | check (call : Nat)
  /-- A call of `receive` is dropped where it waits. -/
  | cancel (call : Nat)

namespace RunningChannel

/-- `fail` up to its locked section: only the first one goes on. -/
def fail (s : RunningChannel) (terminal : Terminal) : RunningChannel :=
  if s.closed then s else { s with closed := true, failing := some terminal }

/-- `launch`, with what it puts on the wire. -/
def launch (s : RunningChannel) (budgets : Budgets) (body : Bytes) (replaySequence : Option Nat) :
    RunningChannel :=
  match s.state.launch budgets s.closed body replaySequence s.clock with
  | none => s
  | some (request, state, _) =>
    let event := match replaySequence with
      | none => LaunchEvent.sent request body s.clock
      | some sequence => .replayed request sequence body s.clock
    { s with state, launched := event :: s.launched }

/-- The sequence whose attempts a reply resets. -/
def renews (st : ChannelState) (request : Nat) (replyId : Bytes) : Option Nat :=
  (st.pending[request]?.bind (·.entry)).filter fun sequence =>
    st.history.any fun entry => entry.sequence = sequence ∧ entry.replyId ≠ some replyId

/-- The locked section of `deliver`; a reply to a closed channel is dropped. -/
def deliver (s : RunningChannel) (request : Nat) (reply : BufferedReply) : RunningChannel :=
  if s.closed ∨ s.state.terminal.isSome then s
  else
    let st := s.state.noteReply request reply.replayId s.clock
    let launched := match renews s.state request reply.replayId with
      | some sequence => .renewed sequence :: s.launched
      | none => s.launched
    if st.replyBytes + reply.length > maxChannelReplyBytes then
      { s with state := st, launched }.fail
        (.error .outOfMemory "H2 client response queue exceeded bound")
    else
      { s with
        state := { st with replyBytes := st.replyBytes + reply.length }
        launched
        sending := s.sending ++ [reply] }

/-- `try_send`: a reply that finds no room is dropped, and the channel fails. -/
def trySend (s : RunningChannel) (i : Nat) (reply : BufferedReply) : RunningChannel :=
  let s := { s with sending := s.sending.eraseIdx i }
  if s.replies.length < replyQueue then { s with replies := s.replies ++ [reply] }
  else s.fail (.error .outOfMemory "H2 client response queue is full")

/-- `retire_and_abort` of a request that is still pending. -/
def retireAndAbort (s : RunningChannel) (request : Nat) : RunningChannel :=
  if request ∈ s.state.pending then
    { s with state := s.state.retire request, aborted := request :: s.aborted }
  else s

/-- Whether `recover` makes room and may pick this request of its own channel. -/
def mayRetire (s : RunningChannel) (request : Nat) : Bool :=
  (s.state.waitingUpload.any fun (started, _) => s.clock - started ≥ replayRequest) &&
    s.state.pending[request]?.any (s.state.removable s.clock)

/-- `rotate_stale_replay`. -/
def rotate (s : RunningChannel) : RunningChannel :=
  { s with aborted := (s.state.staleReplay s.clock).toList ++ s.aborted }

/-- The last part of an iteration of `recover`: `replay_candidate` and `try_replay`. -/
def replay (s : RunningChannel) (budgets : Budgets) (granted : Bool) : RunningChannel :=
  match s.state.replayCandidate s.clock with
  | some (sequence, body) => if granted then s.launch budgets body (some sequence) else s
  | none => s

/-- An iteration of `recover`. Its look at `closed` may be just before a `fail`, so it is
left out here. -/
def recover (s : RunningChannel) (room : Option Nat) (budgets : Budgets) (granted : Bool) :
    RunningChannel :=
  let s := { s with state := (s.state.sweep budgets s.clock).1 }
  let s := match room with
    | some request => if s.mayRetire request then s.retireAndAbort request else s
    | none => s
  s.rotate.replay budgets granted

/-- The locked section of `fail`: every pending request is told to abort. -/
def terminate (s : RunningChannel) (budgets : Budgets) (terminal : Terminal) : RunningChannel :=
  { s with
    state := (s.state.terminate budgets terminal).1
    failing := none
    waking := true
    aborted := s.state.pending.keys ++ s.aborted
    returned := .failed terminal :: s.returned }

/-- `terminal()` in a call of `receive`: hand it out, or go on. -/
def take (s : RunningChannel) (call : Nat) (notified : Bool) : RunningChannel :=
  match s.state.terminal with
  | some terminal =>
    { s with
      state := { s.state with terminal := none }
      receives := s.receives.eraseIdx call
      returned := .handed terminal :: s.returned }
  | none => { s with receives := s.receives.set call (.waiting notified) }

/-- The biased `select` of `receive`. -/
def poll (s : RunningChannel) (call : Nat) (notified : Bool) : Option RunningChannel :=
  if notified then some { s with receives := s.receives.set call .entered }
  else match s.replies with
    | reply :: replies => some { s with replies, receives := s.receives.set call (.popped reply) }
    | [] => none

/-- The last look at the terminal: it goes before the reply, which is dropped. -/
def check (s : RunningChannel) (call : Nat) (reply : BufferedReply) : RunningChannel :=
  match s.state.terminal with
  | some terminal =>
    { s with
      state := { s.state with terminal := none }
      receives := s.receives.eraseIdx call
      returned := .handed terminal :: s.returned }
  | none =>
    { s with receives := s.receives.eraseIdx call, returned := .packet reply :: s.returned }

/-- The effect of one step. -/
def step (s : RunningChannel) : ChannelAction → Option RunningChannel
  | .tick elapsed => some { s with clock := s.clock + elapsed }
  | .uploadWaits bytes =>
    some { s with state := { s.state with waitingUpload := some (s.clock, bytes) } }
  | .uploadReady => some { s with state := { s.state with waitingUpload := none } }
  | .send body budgets => some (s.launch budgets body none)
  | .markStarted request generation =>
    some { s with state := s.state.markStarted request generation }
  | .markSent request => some { s with state := s.state.markSent request s.clock }
  | .markReceiving request => some { s with state := s.state.markReceiving request s.clock }
  | .progress => some { s with state := s.state.progress s.clock }
  | .deliver request reply =>
    if request ∈ s.state.pending then some (s.deliver request reply) else none
  | .trySend i => s.sending[i]?.map (s.trySend i)
  | .finishRequest request => some { s with state := s.state.finishRequest request }
  | .fail terminal => some (s.fail terminal)
  | .terminate budgets => s.failing.map (s.terminate budgets)
  | .wake =>
    if s.waking then some { s with waking := false, receives := s.receives.map Receive.notify }
    else none
  | .retireAndAbort request => some (s.retireAndAbort request)
  | .recover room budgets granted => some (s.recover room budgets granted)
  | .nativeWrite pending => some { s with state := { s.state with delivering := pending } }
  | .replyDropped bytes =>
    some { s with state := { s.state with replyBytes := s.state.replyBytes - bytes } }
  | .receive => some { s with receives := s.receives ++ [.entered] }
  | .enable call =>
    match s.receives[call]? with
    | some .entered => some { s with receives := s.receives.set call (.enabled false) }
    | _ => none
  | .take call =>
    match s.receives[call]? with
    | some (.enabled notified) => some (s.take call notified)
    | _ => none
  | .lock call =>
    match s.receives[call]? with
    | some (.waiting notified) =>
      if s.receives.any Receive.holds then none
      else some { s with receives := s.receives.set call (.selecting notified) }
    | _ => none
  | .poll call =>
    match s.receives[call]? with
    | some (.selecting notified) => s.poll call notified
    | _ => none
  | .check call =>
    match s.receives[call]? with
    | some (.popped reply) => some (s.check call reply)
    | _ => none
  | .cancel call =>
    match s.receives[call]? with
    | some (.waiting _) | some (.selecting _) =>
      some { s with receives := s.receives.eraseIdx call }
    | _ => none

end RunningChannel

/-- A channel from `ChannelInner::new` on. -/
def channelSystem : System RunningChannel ChannelAction where
  start s := s = { clock := s.clock, state := { lastProgress := some s.clock } }
  step := RunningChannel.step

/-- A channel that opens at time zero. -/
def RunningChannel.initial : RunningChannel := { state := { lastProgress := some 0 } }

/-- A channel starts as it is made. -/
theorem RunningChannel.initial_start : channelSystem.start initial := rfl

/-! ## The steps of a call of `receive` -/

/-- How a call of `receive` goes on without a reply. -/
inductive Receive.Moves (s : RunningChannel) : Receive → Receive → Prop
  | enable : Moves s .entered (.enabled false)
  | wait {notified : Bool} (hterminal : s.state.terminal = none) :
    Moves s (.enabled notified) (.waiting notified)
  | lock {notified : Bool} : Moves s (.waiting notified) (.selecting notified)
  | again : Moves s (.selecting true) .entered

/-- The call that a step belongs to, unless it is dropped by it. -/
def ChannelAction.call? : ChannelAction → Option Nat
  | .enable call | .take call | .lock call | .poll call | .check call => some call
  | _ => none

namespace RunningChannel

/-- What a step of a call of `receive` does: it goes on, takes a reply off the queue, or returns
with the terminal or the reply. -/
inductive CallStep (s : RunningChannel) (call : Nat) : RunningChannel → Prop
  | moves {old new : Receive} (hcall : s.receives[call]? = some old) (hmoves : old.Moves s new) :
    CallStep s call { s with receives := s.receives.set call new }
  | pops {reply : BufferedReply} {replies : List BufferedReply}
    (hreplies : s.replies = reply :: replies) :
    CallStep s call { s with replies, receives := s.receives.set call (.popped reply) }
  | hands {terminal : Terminal} (hterminal : s.state.terminal = some terminal) :
    CallStep s call { s with
      state := { s.state with terminal := none }
      receives := s.receives.eraseIdx call
      returned := .handed terminal :: s.returned }
  | packet {reply : BufferedReply} (hcall : s.receives[call]? = some (.popped reply))
    (hterminal : s.state.terminal = none) :
    CallStep s call { s with
      receives := s.receives.eraseIdx call, returned := .packet reply :: s.returned }

/-- A step of a call is one of the sections of that call. -/
theorem callStep_of_step {s t : RunningChannel} {a : ChannelAction} {call : Nat}
    (ha : a.call? = some call) (hstep : channelSystem.step s a = some t) : s.CallStep call t := by
  simp only [channelSystem, step] at hstep
  cases a with
  | enable i =>
    obtain rfl := Option.some.inj ha
    dsimp only at hstep
    split at hstep
    · next hcall =>
      obtain rfl := Option.some.inj hstep
      exact .moves hcall .enable
    · cases hstep
  | take i =>
    obtain rfl := Option.some.inj ha
    dsimp only at hstep
    split at hstep
    · next notified hcall =>
      obtain rfl := Option.some.inj hstep
      unfold take
      split
      · next hterminal => exact .hands hterminal
      · next hterminal => exact .moves hcall (.wait hterminal)
    · cases hstep
  | lock i =>
    obtain rfl := Option.some.inj ha
    dsimp only at hstep
    split at hstep
    · next notified hcall =>
      obtain ⟨-, heq⟩ := Option.ite_none_left_eq_some.mp hstep
      obtain rfl := Option.some.inj heq
      exact .moves hcall .lock
    · cases hstep
  | poll i =>
    obtain rfl := Option.some.inj ha
    dsimp only at hstep
    split at hstep
    · next notified hcall =>
      unfold poll at hstep
      split at hstep
      · next hnotified =>
        obtain rfl := Option.some.inj hstep
        subst hnotified
        exact .moves hcall .again
      · split at hstep
        · next hreplies =>
          obtain rfl := Option.some.inj hstep
          exact .pops hreplies
        · cases hstep
    · cases hstep
  | check i =>
    obtain rfl := Option.some.inj ha
    dsimp only at hstep
    split at hstep
    · next reply hcall =>
      obtain rfl := Option.some.inj hstep
      unfold check
      split
      · next hterminal => exact .hands hterminal
      · next hterminal => exact .packet hcall hterminal
    · cases hstep
  | tick _ | uploadWaits _ | uploadReady | send _ _ | markStarted _ _ | markSent _
  | markReceiving _ | progress | deliver _ _ | trySend _ | finishRequest _ | fail _ | terminate _
  | wake | retireAndAbort _ | recover _ _ _ | nativeWrite _ | replyDropped _ | receive
  | cancel _ => cases ha

end RunningChannel

end TgWsProxy.H2
