import Mathlib.Data.List.Nodup
import TgWsProxy.Core.Transition
import TgWsProxy.H2.Channel

/-!
# The lane pool

`CfH2Pool` of `cf_h2.rs`: the cached and the tracked lanes, the slots of the semaphore,
the cool-downs, `open` and `close`. A section of code without an await is one step, so a
call may be cancelled wherever its stage is kept between two steps; the `lanes` lock is
never held across an await and `setup_lock` is the field `setup`. Which host a
`HashMap` finds first among equals, what a preflight answers and when tasks end are
inputs. An `Arc` is counted where it is kept: by the cache, the tracked list, the
holder of `setup_lock`, live channels, and tasks or reply charges.
-/

namespace TgWsProxy.H2

open TgWsProxy.Core

def maxCachedLanes : Nat := 8
def maxLiveLanes : Nat := maxCachedLanes
def setupTimeout : Nat := seconds 8
def domainCooldown : Nat := seconds 30

/-- `ChannelInner` as far as the pool is concerned. -/
structure PooledChannel where
  lane : Nat
  /-- The `H2Channel` is not dropped yet. -/
  owned : Bool
  /-- Further strong references. -/
  clones : Nat
  /-- What the first `fail` recorded. -/
  terminal : Option Terminal

namespace PooledChannel

/-- `Weak::strong_count() > 0`. -/
def alive (ch : PooledChannel) : Bool := ch.owned || 0 < ch.clones

/-- `fail`: only the first one counts. -/
def fail (ch : PooledChannel) (terminal : Terminal) : PooledChannel :=
  { ch with terminal := ch.terminal.orElse fun _ => some terminal }

end PooledChannel

/-- A `Lane` as far as the pool is concerned. -/
structure PooledLane where
  host : String
  closed : Bool := false
  /-- `_slot`, let go when the last `Arc` is dropped. -/
  slot : Bool
  /-- The registered channels; a dead one stays dead, so when it is forgotten does not matter. -/
  channels : List Nat := []
  lastUsed : Nat
  failedUntil : Option Nat := none
  /-- The handles of unfinished driver and request tasks. -/
  handles : Nat := 0
  /-- The references held by request tasks and reply charges. -/
  clones : Nat := 0

/-- `available`, which also forgets a cool-down that is over. -/
def PooledLane.available (now : Nat) (lane : PooledLane) : Bool × PooledLane :=
  if lane.closed then (false, lane)
  else
    let failedUntil := lane.failedUntil.filter (now < ·)
    (failedUntil.isNone, { lane with failedUntil })

/-- A call that waits for a lock. -/
inductive Waiting
  /-- `open` past the cool-down check, waiting for `lanes`. -/
  | warm (host : String)
  /-- `open` without a cached lane, waiting for `setup_lock`. -/
  | cold (host : String)
  /-- `close`, waiting for `setup_lock`. -/
  | closing
  deriving DecidableEq

/-- Where the holder of `setup_lock` waits. -/
inductive Setup
  /-- `open` waits for `lanes` to look again. -/
  | looking (host : String)
  /-- `reserve_lane_slot` waits for `lanes`. -/
  | evicting (host : String)
  /-- `reserve_lane_slot` waits for the `connect_lock` of the evicted lane. -/
  | settling (host : String) (evicted : Nat)
  /-- `reserve_lane_slot` waits for the tasks of the evicted lane. -/
  | draining (host : String) (evicted : Nat)
  | preflight (host : String) (lane deadline : Nat)
  /-- `cache_lane` waits for `lanes`; the channel is already made. -/
  | caching (host : String) (lane channel : Nat)
  /-- `cache_lane` waits for the `connect_lock` of the lane it evicted. -/
  | cacheSettling (lane channel evicted : Nat)
  /-- `cache_lane` waits for the tasks of the lane it evicted. -/
  | cacheDraining (lane channel evicted : Nat)
  /-- `close` waits for `lanes`. -/
  | taking
  /-- `close` has taken the lanes `held` and waits to settle those of `todo`, then for tasks. -/
  | closing (held todo : List Nat)

/-- The lanes behind the references that a stage holds, the channel's own aside: while it is
set up a lane is held twice, `open` or `cache_lane` besides the setup guard. -/
def Setup.arcs : Setup → List Nat
  | .settling _ evicted | .draining _ evicted => [evicted]
  | .preflight _ lane _ | .caching _ lane _ => [lane, lane]
  | .cacheSettling lane _ evicted | .cacheDraining lane _ evicted => [lane, evicted]
  | .closing held _ => held
  | .looking _ | .evicting _ | .taking => []

/-- The lane guarded by a `LaneSetupGuard`. -/
def Setup.guarded : Setup → Option Nat
  | .preflight _ lane _ | .caching _ lane _ | .cacheSettling lane _ _
  | .cacheDraining lane _ _ => some lane
  | _ => none

/-- The channel that `open` is about to return. -/
def Setup.channel : Setup → Option Nat
  | .caching _ _ channel | .cacheSettling _ channel _ | .cacheDraining _ channel _ => some channel
  | _ => none

/-- What a call of `open` or `close` returns. -/
inductive PoolEvent
  /-- `Ok(Some(channel))`, from a new lane or not. -/
  | opened (cold : Bool) (channel : Nat)
  /-- `Ok(None)`. -/
  | unavailable
  | refused (error : IoError)
  /-- `close` has returned. -/
  | closed
  deriving DecidableEq

/-- The pool with its lanes, channels and calls; a lane or a channel is named by its number. -/
structure CfH2Pool where
  now : Nat := 0
  closed : Bool := false
  /-- `lanes`. -/
  cache : List (String × Nat) := []
  allLanes : List Nat := []
  /-- The free permits of `lane_slots`. -/
  laneSlots : Nat := maxLiveLanes
  failedUntil : List (String × Nat) := []
  waiting : List Waiting := []
  /-- The holder of `setup_lock`. -/
  setup : Option Setup := none
  /-- Every lane made so far, whether or not it still exists. -/
  lanes : List PooledLane := []
  /-- Every channel made so far. -/
  channels : List PooledChannel := []
  /-- What calls have returned, the latest first. -/
  log : List PoolEvent := []

/-- How a preflight ends. -/
inductive PreflightOutcome
  | success
  | failure (error : IoError)
  | timeout

/-- The steps of the calls, of the holder of `setup_lock`, and of tasks and channels. -/
inductive PoolAction
  | tick (elapsed : Nat)
  | openCalled (host : String)
  /-- A waiting `open` acquires `lanes`. -/
  | look (call : Nat)
  /-- A waiting call acquires `setup_lock`. -/
  | lock (call : Nat)
  /-- A waiting call is dropped. -/
  | abandon (call : Nat)
  | closeCalled
  /-- The holder of `setup_lock` goes on. -/
  | resume
  /-- The holder acquires `lanes` and may evict. -/
  | evict (victim : Option (String × Nat))
  | preflighted (outcome : PreflightOutcome)
  /-- The holder is dropped. -/
  | cancel
  | taskSpawned (lane : Nat)
  | taskFinished (lane : Nat)
  | laneCloned (lane : Nat)
  | laneCloneDropped (lane : Nat)
  | coolDown (lane : Nat)
  | handleDropped (channel : Nat)
  | channelCloned (channel : Nat)
  | channelCloneDropped (channel : Nat)
  | channelFailed (channel : Nat) (terminal : Terminal)

/-- The error of a closed pool. -/
def poolClosed : IoError := ⟨.notConnected, "H2 pool closed"⟩

namespace CfH2Pool

/-- The lane of a number; there is none before it is made. -/
def lane (s : CfH2Pool) (l : Nat) : PooledLane :=
  s.lanes[l]?.getD { host := "", slot := false, lastUsed := 0 }

/-- The channel of a number; there is none before it is made. -/
def channel (s : CfH2Pool) (c : Nat) : PooledChannel :=
  s.channels[c]?.getD ⟨0, false, 0, some (.error .notConnected "")⟩

/-- `Arc::strong_count` of a lane. -/
def strongCount (s : CfH2Pool) (l : Nat) : Nat :=
  s.cache.countP (·.2 = l) + s.allLanes.count l + (s.setup.elim [] Setup.arcs).count l +
    s.channels.countP (fun ch => ch.alive && ch.lane = l) + (s.lane l).clones

def hasLiveChannels (s : CfH2Pool) (l : Nat) : Bool :=
  (s.lane l).channels.any fun c => (s.channel c).alive

/-- How many lanes hold a slot. -/
def slots (s : CfH2Pool) : Nat := s.lanes.countP (·.slot)

def emit (s : CfH2Pool) (event : PoolEvent) : CfH2Pool := { s with log := event :: s.log }

/-- The holder of `setup_lock` returns. -/
def leave (s : CfH2Pool) (event : PoolEvent) : CfH2Pool := { s with setup := none }.emit event

def modifyLane (s : CfH2Pool) (l : Nat) (f : PooledLane → PooledLane) : CfH2Pool :=
  { s with lanes := s.lanes.modify l f }

def modifyChannel (s : CfH2Pool) (c : Nat) (f : PooledChannel → PooledChannel) : CfH2Pool :=
  { s with channels := s.channels.modify c f }

/-- Lanes without a reference are dropped and give back their slots. -/
def dropLanes (s : CfH2Pool) : CfH2Pool :=
  { s with
    laneSlots := s.laneSlots +
      s.lanes.zipIdx.countP fun (lane, l) => lane.slot && s.strongCount l = 0
    lanes := s.lanes.mapIdx fun l lane => { lane with slot := lane.slot && 0 < s.strongCount l } }

/-- `Lane::abort` and `Lane::close`: the lane is closed and its live channels fail. -/
def abort (s : CfH2Pool) (l : Nat) : CfH2Pool :=
  { s.modifyLane l fun lane => { lane with closed := true } with
    channels := s.channels.mapIdx fun c ch =>
      if ch.alive && c ∈ (s.lane l).channels then ch.fail (.error .notConnected "H2 pool closed")
      else ch }

/-- `start_close`: the channels are forgotten and the caller takes the handles. -/
def startClose (s : CfH2Pool) (l : Nat) : CfH2Pool :=
  (s.abort l).modifyLane l fun lane => { lane with channels := [], handles := 0 }

def reapIfQuiescent (s : CfH2Pool) (l : Nat) : Bool :=
  (s.lane l).closed && !s.hasLiveChannels l && (s.lane l).handles = 0

def pruneTrackedLanes (s : CfH2Pool) : CfH2Pool :=
  { s with allLanes := s.allLanes.filter fun l => !s.reapIfQuiescent l }

/-- `ChannelInner::new`: the channel registers with its lane, which is touched. -/
def openChannel (s : CfH2Pool) (l : Nat) : CfH2Pool :=
  let opened : PooledChannel := { lane := l, owned := true, clones := 0, terminal := none }
  { s with channels := s.channels ++ [opened] }.modifyLane l fun lane =>
    { lane with channels := lane.channels ++ [s.channels.length], lastUsed := s.now }

/-- `H2Channel::drop`. -/
def dropHandle (s : CfH2Pool) (c : Nat) : CfH2Pool :=
  s.modifyChannel c fun ch =>
    { ch.fail (.error .connectionAborted "H2 channel closed") with owned := false }

/-- `lanes.get(host)`. -/
def cached? (s : CfH2Pool) (host : String) : Option Nat :=
  (s.cache.find? (·.1 = host)).map (·.2)

/-- A cached lane is found: a channel on it, unless it is cooling down. -/
def openCached (s : CfH2Pool) (l : Nat) : CfH2Pool :=
  let checked := s.modifyLane l fun lane => (lane.available s.now).2
  if ((s.lane l).available s.now).1 then
    (checked.openChannel l).emit (.opened false s.channels.length)
  else checked.emit .unavailable

/-- `open` up to its first await. -/
def openCall (s : CfH2Pool) (host : String) : CfH2Pool :=
  if s.closed then s.emit (.refused poolClosed)
  else
    let s := { s with failedUntil := s.failedUntil.filter fun failed => s.now < failed.2 }
    if s.failedUntil.any (·.1 = host) then s.emit .unavailable
    else { s with waiting := s.waiting ++ [.warm host] }

/-- The section of `open` under `lanes`, before `setup_lock`. -/
def look (s : CfH2Pool) (call : Nat) (host : String) : CfH2Pool :=
  let returned := { s with waiting := s.waiting.eraseIdx call }
  if s.closed then returned.emit (.refused poolClosed)
  else match s.cached? host with
    | some l => returned.openCached l
    | none => { s with waiting := s.waiting.set call (.cold host) }

/-- `setup_lock` is acquired. -/
def lock (s : CfH2Pool) (call : Nat) : Waiting → Option CfH2Pool
  | .warm _ => none
  | .cold host =>
    let s := { s with waiting := s.waiting.eraseIdx call }
    some (if s.closed then s.emit (.refused poolClosed)
      else { s with setup := some (.looking host) })
  | .closing =>
    some { s with
      waiting := s.waiting.eraseIdx call, failedUntil := [], setup := some .taking }

/-- `Lane::new` with the slot that was acquired for it. -/
def addLane (s : CfH2Pool) (host : String) : CfH2Pool :=
  { s with
    laneSlots := s.laneSlots - 1
    lanes := s.lanes ++ [{ host, slot := true, lastUsed := s.now }] }

/-- `track_lane`: prune, then add the lane unless it is there. -/
def trackLane (s : CfH2Pool) (l : Nat) : CfH2Pool :=
  let s := s.pruneTrackedLanes
  if l ∈ s.allLanes then s else { s with allLanes := s.allLanes ++ [l] }

/-- `open` with a slot: the last check, `Lane::new`, `track_lane`, and the preflight begins.
If the pool is closed the slot is dropped again. -/
def openLane (s : CfH2Pool) (host : String) : CfH2Pool :=
  if s.closed then s.leave (.refused poolClosed)
  else
    { (s.addLane host).trackLane s.lanes.length with
      setup := some (.preflight host s.lanes.length (s.now + setupTimeout)) }

/-- `Arc::strong_count(lane) <= 2 && !lane.has_live_channels()`. -/
def evictable (s : CfH2Pool) (l : Nat) : Bool := s.strongCount l ≤ 2 && !s.hasLiveChannels l

/-- The choice of an eviction: an evictable lane used least recently, if there is one. -/
def mayEvict (s : CfH2Pool) : Option (String × Nat) → Bool
  | none => s.cache.all fun e => !s.evictable e.2
  | some victim => victim ∈ s.cache && s.evictable victim.2 && s.cache.all fun e =>
      !s.evictable e.2 || (s.lane victim.2).lastUsed ≤ (s.lane e.2).lastUsed

/-- `lanes.remove(host)`. -/
def uncache (s : CfH2Pool) (host : String) : CfH2Pool :=
  { s with cache := s.cache.filter (·.1 ≠ host) }

/-- `lanes.insert(host, lane)`. -/
def insertCached (s : CfH2Pool) (host : String) (l : Nat) : CfH2Pool :=
  { s with cache := (host, l) :: s.cache.filter (·.1 ≠ host) }

/-- The sections that choose a lane to evict: in `reserve_lane_slot` and in `cache_lane`. -/
def evict (s : CfH2Pool) (victim : Option (String × Nat)) : Setup → Option CfH2Pool
  | .evicting host =>
    if s.mayEvict victim then
      some (match victim with
        | none => s.leave .unavailable
        | some victim =>
          { s.uncache victim.1 with setup := some (.settling host victim.2) }.startClose victim.2)
    else none
  | .caching host l c =>
    let evicts := maxCachedLanes ≤ s.cache.length
    if (if evicts then s.mayEvict victim else victim.isNone) then
      let s := victim.elim s fun victim => s.uncache victim.1
      -- With every cached lane in use the new one stays out of the cache.
      let s := if s.cache.length < maxCachedLanes then s.insertCached host l else s
      some (match victim with
        | none => s.leave (.opened true c)
        | some victim =>
          { s with setup := some (.cacheSettling l c victim.2) }.startClose victim.2)
    else none
  | _ => none

/-- The cool-down after a failed setup. -/
def coolDownHost (s : CfH2Pool) (host : String) : CfH2Pool :=
  { s with failedUntil := (host, s.now + domainCooldown) :: s.failedUntil.filter (·.1 ≠ host) }

/-- The preflight has ended. On the way out the setup guard closes the lane once more. -/
def preflighted (s : CfH2Pool) (outcome : PreflightOutcome) : Setup → Option CfH2Pool
  | .preflight host l deadline =>
    match outcome with
    | .success =>
      if s.closed then some ((s.abort l).leave (.refused poolClosed))
      else
        let s := { s with failedUntil := s.failedUntil.filter (·.1 ≠ host) }
        some { s.openChannel l with setup := some (.caching host l s.channels.length) }
    | .failure error => some (((s.abort l).coolDownHost host).leave (.refused error))
    | .timeout =>
      if deadline ≤ s.now then
        some (((s.abort l).coolDownHost host).leave
          (.refused ⟨.timedOut, "H2 lane setup timed out"⟩))
      else none
  | _ => none

/-- `close` takes every lane, cached or tracked, and starts to close them. -/
def takeLanes (s : CfH2Pool) : CfH2Pool :=
  let cached := s.cache.map (·.2)
  let held := cached ++ s.allLanes.filter (· ∉ cached)
  held.foldl startClose
    { s with cache := [], allLanes := [], setup := some (.closing held held) }

/-- The holder of `setup_lock` goes on where nothing is left to choose. -/
def resume (s : CfH2Pool) : Setup → Option CfH2Pool
  | .looking host =>
    match s.cached? host with
    | some l => some ({ s with setup := none }.openCached l)
    | none =>
      let s := s.pruneTrackedLanes.dropLanes
      some (if 0 < s.laneSlots then s.openLane host
        else { s with setup := some (.evicting host) })
  | .settling host e => some { s.startClose e with setup := some (.draining host e) }
  | .draining host _ =>
    let s := { s.pruneTrackedLanes with setup := none }.dropLanes
    some (if 0 < s.laneSlots then s.openLane host else s.leave .unavailable)
  | .cacheSettling l c e => some { s.startClose e with setup := some (.cacheDraining l c e) }
  | .cacheDraining _ c _ => some (s.pruneTrackedLanes.leave (.opened true c))
  | .taking => some s.takeLanes
  | .closing held (l :: todo) => some { s.startClose l with setup := some (.closing held todo) }
  | .closing _ [] => some (s.leave .closed)
  | .evicting _ | .preflight .. | .caching .. => none

/-- The holder of `setup_lock` is dropped: an unfinished channel is dropped and the setup
guard closes its lane. -/
def cancel (s : CfH2Pool) : Setup → CfH2Pool
  | .preflight _ l _ => { s with setup := none }.abort l
  | .caching _ l c | .cacheSettling l c _ | .cacheDraining l c _ =>
    ({ s with setup := none }.dropHandle c).abort l
  | _ => { s with setup := none }

/-- One step, before lanes without references are dropped. -/
def act (s : CfH2Pool) : PoolAction → Option CfH2Pool
  | .tick elapsed => some { s with now := s.now + elapsed }
  | .openCalled host => some (s.openCall host)
  | .look call =>
    match s.waiting[call]? with
    | some (.warm host) => some (s.look call host)
    | _ => none
  | .lock call =>
    if s.setup.isSome then none else s.waiting[call]?.bind (s.lock call)
  | .abandon call =>
    if call < s.waiting.length then some { s with waiting := s.waiting.eraseIdx call } else none
  | .closeCalled => some { s with closed := true, waiting := s.waiting ++ [.closing] }
  | .resume => s.setup.bind s.resume
  | .evict victim => s.setup.bind (s.evict victim)
  | .preflighted outcome => s.setup.bind (s.preflighted outcome)
  | .cancel => s.setup.map s.cancel
  | .taskSpawned l =>
    if (s.lane l).slot then
      some (s.modifyLane l fun lane => { lane with handles := lane.handles + 1 })
    else none
  | .taskFinished l =>
    some (s.modifyLane l fun lane => { lane with handles := lane.handles - 1 })
  | .laneCloned l =>
    if (s.lane l).slot then
      some (s.modifyLane l fun lane => { lane with clones := lane.clones + 1 })
    else none
  | .laneCloneDropped l =>
    some (s.modifyLane l fun lane => { lane with clones := lane.clones - 1 })
  | .coolDown l =>
    if (s.lane l).slot then
      some (s.modifyLane l fun lane => { lane with failedUntil := some (s.now + domainCooldown) })
    else none
  | .handleDropped c =>
    if (s.channel c).owned && s.setup.bind Setup.channel ≠ some c then some (s.dropHandle c)
    else none
  | .channelCloned c =>
    if (s.channel c).alive then
      some (s.modifyChannel c fun ch => { ch with clones := ch.clones + 1 })
    else none
  | .channelCloneDropped c =>
    some (s.modifyChannel c fun ch => { ch with clones := ch.clones - 1 })
  | .channelFailed c terminal =>
    if (s.channel c).alive then some (s.modifyChannel c (·.fail terminal)) else none

def step (s : CfH2Pool) (a : PoolAction) : Option CfH2Pool := (s.act a).map dropLanes

end CfH2Pool

/-- The pool from `CfH2Pool::new` on. -/
def poolSystem : System CfH2Pool PoolAction := ⟨fun s => s = {}, CfH2Pool.step⟩

end TgWsProxy.H2
