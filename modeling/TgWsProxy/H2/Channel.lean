import Mathlib.Data.Finset.Basic
import Mathlib.Data.List.Sort
import TgWsProxy.Core.UpdateFirst
import TgWsProxy.H2.Budget

/-!
# The state of a channel

`ChannelState` of `cf_h2.rs` with the operations on it, each given the budgets it
charges and the current time. Ids and sequences are natural numbers, so `next_request`
does not wrap. What an operation does beyond the state (aborting tasks, sending a
reply) is in `Process`.
-/

namespace TgWsProxy.H2

open TgWsProxy.Core

def replayIdle : Nat := seconds 1
def replayRequest : Nat := seconds 3
def replayRetry : Nat := seconds 2
def replayMaxAge : Nat := seconds 30
def replaySlot : Nat := seconds 30
def replayHistoryBytes : Nat := 64 * 1024
def replayHistoryPackets : Nat := 16
def replayMaxAttempts : Nat := 3
def maxChannelReplays : Nat := 2

/-- A sent packet that may be sent again. -/
structure ReplayEntry where
  sentAt : Nat
  body : Bytes
  sequence : Nat
  attempts : Nat
  lastAttempt : Option Nat
  pending : Option Nat
  originals : Finset Nat
  retired : Bool
  /-- The first bytes of its last reply, at most 24. -/
  replyId : Option Bytes
  historyPermit : BudgetPermit

/-- A request in flight. -/
structure Pending where
  replay : Bool
  entry : Option Nat
  sentAt : Option Nat := none
  receiving : Bool := false
  generation : Option Nat := none

/-- How a channel ended. -/
inductive Terminal
  | transport (code : Int32)
  | error (kind : ErrorKind) (message : String)
  deriving DecidableEq

/-- The state under the channel's lock. -/
structure ChannelState where
  nextRequest : Nat := 0
  pending : Std.TreeMap Nat Pending := ∅
  history : List ReplayEntry := []
  replayKey : Option Bytes := none
  replyBytes : Nat := 0
  terminal : Option Terminal := none
  lastProgress : Option Nat := none
  delivering : Bool := false
  waitingUpload : Option (Nat × Nat) := none

/-- The permits held by the entries of a history. -/
def historyPermits (history : List ReplayEntry) : List BudgetPermit :=
  history.map (·.historyPermit)

/-- The bytes of the bodies in a history. -/
def historyBytes (history : List ReplayEntry) : Nat := tally (·.body.length) history

/-- Change the entry of a sequence. -/
def updateEntry (sequence : Nat) (f : ReplayEntry → ReplayEntry) (history : List ReplayEntry) :
    List ReplayEntry :=
  updateFirst (fun entry => entry.sequence = sequence) f history

namespace ChannelState

/-! ## Recording a packet -/

/-- Bodies that `remember` records at all. -/
def rememberable (body : Bytes) : Bool :=
  ¬(body.length > replayHistoryBytes ∨ body.length < 8 ∨ body.take 8 = List.replicate 8 0)

/-- An entry that eviction prefers: nothing of it is in flight, and it is not one that is
retired and still replayable. -/
def evictable (now : Nat) (entry : ReplayEntry) : Bool :=
  entry.originals = ∅ ∧ ¬(entry.retired ∧ entry.attempts < replayMaxAttempts ∧
    now - entry.sentAt ≤ replayMaxAge)

/-- The eviction loop; `fuel` bounds the number of its rounds. -/
def evict (now : Nat) : Nat → List ReplayEntry → Nat → Budgets → List ReplayEntry × Budgets
  | 0, history, _, budgets => (history, budgets)
  | fuel + 1, history, retained, budgets =>
    if history.length > replayHistoryPackets ∨ retained > replayHistoryBytes then
      let index := (history.findIdx? (evictable now)).getD 0
      match history[index]? with
      | some entry =>
        evict now fuel (history.eraseIdx index) (retained - entry.body.length)
          (dropPermit budgets entry.historyPermit)
      | none => evict now fuel history retained budgets
    else (history, budgets)

/-- Forget the history when the first eight bytes of the body are not its key. -/
def rekey (budgets : Budgets) (st : ChannelState) (body : Bytes) : ChannelState × Budgets :=
  if st.replayKey = some (body.take 8) then (st, budgets)
  else ({ st with history := [], replayKey := some (body.take 8) },
    dropPermits budgets (historyPermits st.history))

/-- Add a request to the entry of its body, or a new entry; `none` without a permit. -/
def record (budgets : Budgets) (history : List ReplayEntry) (body : Bytes) (request now : Nat) :
    Option (Nat × List ReplayEntry × Budgets) :=
  match history.find? (fun entry => entry.body = body) with
  | some entry =>
    some (entry.sequence,
      updateFirst (fun entry => entry.body = body)
        (fun entry => { entry with originals := insert request entry.originals }) history,
      budgets)
  | none =>
    match tryAcquire budgets .history body.length with
    | none => none
    | some (permit, budgets) =>
      some (request,
        history ++ [⟨now, body, request, 0, none, none, {request}, false, none, permit⟩], budgets)

/-- Record the packet of an original request, and evict what exceeds the limits. -/
def remember (budgets : Budgets) (st : ChannelState) (body : Bytes) (request now : Nat) :
    Option Nat × ChannelState × Budgets :=
  if rememberable body then
    let (st, budgets) := st.rekey budgets body
    match record budgets st.history body request now with
    | none => (none, st, budgets)
    | some (sequence, history, budgets) =>
      let (history, budgets) := evict now history.length history (historyBytes history) budgets
      (some sequence, { st with history }, budgets)
  else (none, st, budgets)

/-! ## Requests -/

/-- Insert a request, an original or a replay of a sequence; `none` is an error. -/
def launch (budgets : Budgets) (st : ChannelState) (closed : Bool) (body : Bytes)
    (replaySequence : Option Nat) (now : Nat) : Option (Nat × ChannelState × Budgets) :=
  if closed ∨ st.terminal.isSome then none
  else
    let request := st.nextRequest + 1
    let st := { st with nextRequest := request }
    match replaySequence with
    | some sequence =>
      if st.history.any fun entry => entry.sequence = sequence ∧ entry.pending = none then
        some (request,
          { st with
            history := updateEntry sequence (fun entry =>
              { entry with
                attempts := min 255 (entry.attempts + 1)
                lastAttempt := some now
                pending := some request }) st.history
            pending := st.pending.insert request ⟨true, some sequence, none, false, none⟩ },
          budgets)
      else none
    | none =>
      let (entry, st, budgets) := st.remember budgets body request now
      some (request,
        { st with pending := st.pending.insert request ⟨false, entry, none, false, none⟩ },
        budgets)

/-- The request's stream is submitted. -/
def markStarted (st : ChannelState) (request generation : Nat) : ChannelState :=
  { st with pending := st.pending.modify request fun p => { p with generation := some generation } }

/-- The request's body is sent. -/
def markSent (st : ChannelState) (request now : Nat) : ChannelState :=
  { st with pending := st.pending.modify request fun p => { p with sentAt := some now } }

/-- The response headers have arrived. -/
def markReceiving (st : ChannelState) (request now : Nat) : ChannelState :=
  { st with
    pending := st.pending.modify request fun p => { p with receiving := true }
    lastProgress := some now }

/-- `progress`. -/
def progress (st : ChannelState) (now : Nat) : ChannelState := { st with lastProgress := some now }

/-- A reply with another beginning gives its entry all attempts back. -/
def noteReply (st : ChannelState) (request : Nat) (replyId : Bytes) (now : Nat) : ChannelState :=
  let history :=
    match st.pending[request]?.bind (·.entry) with
    | some sequence =>
      updateEntry sequence (fun entry =>
        if entry.replyId ≠ some replyId then { entry with replyId := some replyId, attempts := 0 }
        else entry) st.history
    | none => st.history
  { st with history, lastProgress := some now }

/-- Take the mark of a finished request off the entry it names. -/
def leave (request : Nat) (replay : Bool) (entry : ReplayEntry) : ReplayEntry :=
  if replay ∧ entry.pending = some request then { entry with pending := none }
  else { entry with originals := entry.originals.erase request }

/-- Remove a request, and its mark on the entry it names. -/
def finishRequest (st : ChannelState) (request : Nat) : ChannelState :=
  match st.pending[request]? with
  | none => st
  | some p =>
    { st with
      pending := st.pending.erase request
      history :=
        match p.entry with
        | some sequence => updateEntry sequence (leave request p.replay) st.history
        | none => st.history }

/-- Mark the entry of an original that is about to be aborted. -/
def retire (st : ChannelState) (request : Nat) : ChannelState :=
  match st.pending[request]? with
  | none => st
  | some p =>
    match p.replay, p.entry with
    | false, some sequence =>
      { st with
        history := updateEntry sequence (fun entry => { entry with retired := true }) st.history }
    | _, _ => st

/-- The locked section of `fail`. -/
def terminate (budgets : Budgets) (st : ChannelState) (terminal : Terminal) :
    ChannelState × Budgets :=
  ({ st with terminal := some terminal, history := [], waitingUpload := none },
    dropPermits budgets (historyPermits st.history))

/-! ## Recovery -/

/-- What the sweep of `recover` keeps. -/
def kept (now : Nat) (entry : ReplayEntry) : Bool :=
  entry.originals ≠ ∅ ∨ entry.pending.isSome ∨ now - entry.sentAt ≤ replayMaxAge

/-- The sweep of `recover`. -/
def sweep (budgets : Budgets) (st : ChannelState) (now : Nat) : ChannelState × Budgets :=
  let history := st.history.filter (kept now)
  ({ st with history, replayKey := if history = [] then none else st.replayKey },
    dropPermits budgets (historyPermits (st.history.filter fun entry => ¬kept now entry)))

/-- A request that was sent at least `age` ago. -/
def sentFor (age now : Nat) (p : Pending) : Bool :=
  match p.sentAt with
  | some sent => now - sent ≥ age
  | none => false

/-- The first field of the sort key: retired, or an original overdue and not receiving. -/
def sortsOverdue (st : ChannelState) (now : Nat) (entry : ReplayEntry) : Bool :=
  entry.retired ∨ ∃ id ∈ entry.originals,
    (st.pending[id]?.any fun p => !p.receiving && sentFor replayRequest now p) = true

/-- The order in which `replay_candidate` looks at two entries: overdue ones by age,
before the others from the newest. -/
def replayBefore (st : ChannelState) (now : Nat) (x y : ReplayEntry) : Bool :=
  match st.sortsOverdue now x, st.sortsOverdue now y with
  | true, true => x.sequence ≤ y.sequence
  | true, false => true
  | false, true => false
  | false, false => y.sequence ≤ x.sequence

/-- The checks on one entry in the loop of `replay_candidate`. -/
def replayable (st : ChannelState) (now : Nat) (entry : ReplayEntry) : Bool :=
  let newest := st.history.getLast?.map (·.sequence) = some entry.sequence
  let limit := if entry.originals ≠ ∅ ∨ entry.retired ∨ newest then replayMaxAttempts else 0
  let overdue := entry.retired ∨ ∃ id ∈ entry.originals,
    (st.pending[id]?.any (sentFor replayRequest now)) = true
  ¬(now - entry.sentAt > replayMaxAge ∨ entry.attempts ≥ limit ∨ entry.pending.isSome) ∧
    ¬(entry.lastAttempt.any fun last => now - last < replayRetry) ∧
    ¬(∃ id ∈ entry.originals, (st.pending[id]?.any (·.receiving)) = true) ∧
    (overdue ∨ ¬(¬newest ∨ (st.pending.toList.any fun x => !x.2.replay) ∨
      (st.lastProgress.any fun last => now - last < replayIdle)))

/-- The packet to send again, if any. -/
def replayCandidate (st : ChannelState) (now : Nat) : Option (Nat × Bytes) :=
  if st.terminal.isSome ∨ st.replyBytes > 0 ∨ st.delivering then none
  else if (st.pending.toList.filter (·.2.replay)).length ≥ maxChannelReplays then none
  else
    ((st.history.insertionSort fun x y => st.replayBefore now x y).find? (st.replayable now)).map
      fun entry => (entry.sequence, entry.body)

/-- The replay that has been without an answer for longest, if for a whole slot. -/
def staleReplay (st : ChannelState) (now : Nat) : Option Nat :=
  let stale := st.pending.toList.filterMap fun (id, p) =>
    if p.replay && !p.receiving && sentFor replaySlot now p then
      p.sentAt.map fun sent => (sent, id)
    else none
  (stale.insertionSort fun x y => x.1 ≤ y.1).head?.map (·.2)

end ChannelState

end TgWsProxy.H2
