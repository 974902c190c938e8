import Mathlib.Data.List.DropRight
import TgWsProxy.Update.Worker
import TgWsProxy.Updater

/-!
# The updater and its workers

`prepare`, `recover_stale` and `launch_worker` of `update.rs`, file by file, with the detached
workers that they launch, over one directory. The service may be killed and started again, and a
worker outlives it: a run interleaves the commands of every worker with the sections of the service.
A service has one thread, so behind its first file a section goes on to its next await before
another begins; what one `status` reads it reads at one instant.
-/

namespace TgWsProxy.Update

open TgWsProxy.Core

/-- The installations that `installation` knows. -/
def managed : List Installation :=
  [⟨"entware", "/opt/bin", "/opt/var/run/tgwsproxy-update", "S99tgwsproxy"⟩,
    ⟨"openwrt", "/usr/bin", "/var/run/tgwsproxy-update", "tgwsproxy"⟩]

/-- The next section of a `prepare`. -/
inductive PreparePhase
  /-- The task is spawned; next is `private_dir`, and `worker.lock` is looked for. -/
  | waiting
  /-- There is a lock. -/
  | checkLive
  | removeLockPid
  | removeLock
  /-- `recover_stale` has succeeded; next is the payload of the update before. -/
  | removeOld
  | makePayload
  /-- `cleanup` holds the payload. -/
  | record (payload : String)
  /-- All that is downloaded, checked and unpacked, with its awaits. -/
  | download (payload : String)
  /-- `launch_worker`, behind `worker.sh`. -/
  | writeStage (payload : String)
  | writeTarget (payload : String)
  | fork (payload : String)
  /-- `spawn` waits for the `exec` of its child. -/
  | exec (payload : String) (pid worker : Nat)
  | publish (pid : Nat)
  | handOff
  deriving DecidableEq

namespace PreparePhase

/-- The payload that is removed where the task fails. -/
def payload : PreparePhase → Option String
  | .record payload | .download payload | .writeStage payload | .writeTarget payload
  | .fork payload | .exec payload _ _ => some payload
  | _ => none

/-- The thread is free: the task is not polled yet, or awaits. -/
def awaits : PreparePhase → Bool
  | .waiting | .download _ => true
  | _ => false

end PreparePhase

/-- A task of `start`. -/
structure Prepare where
  tag : String
  phase : PreparePhase := .waiting
  deriving DecidableEq

/-- A running service. -/
structure Process where
  updater : Updater
  prepares : List Prepare := []

/-- A section has begun and is not over. -/
def Process.busy (p : Process) : Bool := p.prepares.any fun q => !q.phase.awaits

/-- The router: the clock, the directory, the service and every worker that it has launched. -/
structure World where
  now : Nat := 0
  dir : StateDir := {}
  process : Option Process := none
  workers : List Worker := []

/-- What the next section of a `prepare` finds. -/
inductive PrepareEvent
  /-- Its call succeeds. -/
  | go
  | fail (error : IoError)
  /-- What `payload` names is a directory, or is not. -/
  | old (isDir : Bool)
  /-- `random_hex`. -/
  | name (hex : String)
  | fork (pid : Nat)
  /-- The write of the process number fails when the file is empty already. -/
  | torn
  deriving DecidableEq

inductive Action
  | tick (d : Nat)
  /-- The service is started. -/
  | boot
  /-- It ends, and may or may not drop its tasks. -/
  | kill (drops : Bool)
  | status
  | check (force : Bool) (now : Nat)
  | checked (response : Except IoError Release) (now : Nat)
  | start
  | prepare (i : Nat) (event : PrepareEvent)
  | worker (i : Nat) (event : WorkerAction)

/-! ## What the service sees -/

/-- A regular file with this text. -/
def entry (text : String) : Entry := ⟨true, text.utf8ByteSize, some text⟩

/-- An argument in `/proc/PID/cmdline`. -/
def argument (text : String) : Bytes := text.toUTF8.data.toList ++ [0]

section

-- `others` are the command lines of the processes that are no workers
variable (semver : Semver) (install : Installation) (arch : Option String) (others : Nat → Bytes)

/-- The command line of a worker. -/
def cmdline (w : Worker) : Bytes :=
  argument "/bin/sh" ++ argument (install.stateDir ++ "/worker.sh") ++ argument install.stateDir ++
    argument install.system ++ argument w.tag ++ argument w.argument

/-- A worker with this number has replaced the image that it was forked from, and runs. -/
def isNamed (pid : Nat) (w : Worker) : Bool :=
  w.pid = pid && w.phase ≠ .exec && w.phase ≠ .gone

/-- What a `status`, or a `recover_stale`, reads. -/
def World.observe (s : World) : WorkerFiles where
  isPrivate := true
  stage := s.dir.stage.map entry
  target := s.dir.target.map entry
  pid := s.dir.pid.map entry
  cmdline pid :=
    match s.workers.find? (isNamed pid) with
    | some w => cmdline install w
    | none => others pid
  stageAgain := s.dir.stage.map entry
  stageAge := s.dir.stage.map fun _ => s.now - s.dir.stageTime

/-! ## Steps -/

/-- `Payload` is dropped. -/
def dropPayload (d : StateDir) (phase : PreparePhase) : StateDir :=
  match phase.payload with
  | none => d
  | some payload => { d with removed := payload :: d.removed }

/-- A `prepare` fails. -/
def World.fail (s : World) (p : Process) (i : Nat) (q : Prepare) (error : IoError) : World :=
  { s with
    dir := dropPayload s.dir q.phase
    process := some { updater := p.updater.prepared q.tag (.error error),
                      prepares := p.prepares.eraseIdx i } }

/-- A `prepare` goes on, with these files. -/
def World.proceed (s : World) (p : Process) (i : Nat) (q : Prepare) (phase : PreparePhase)
    (dir : StateDir) : World :=
  { s with dir, process := some { p with prepares := p.prepares.set i { q with phase } } }

/-- The error of a `recover_stale` that finds a worker. -/
def stillRunning : IoError := Config.invalid "Предыдущее обновление ещё выполняется"

/-- The error of a directory that is not empty. -/
def notEmpty : IoError := ⟨.other, "Directory not empty"⟩

/-- One section of a `prepare`. -/
def World.prepare (s : World) (p : Process) (i : Nat) (q : Prepare) :
    PrepareEvent → Option World
  | .go =>
    match q.phase with
    | .waiting =>
      some (s.proceed p i q (if s.dir.lock then .checkLive else .removeOld)
        { s.dir with made := true })
    | .checkLive =>
      if workerLive (s.observe install others) install.stateDir ||
          workerStarting (s.observe install others) then
        some (s.fail p i q stillRunning)
      else some (s.proceed p i q .removeLockPid s.dir)
    | .removeLockPid => some (s.proceed p i q .removeLock { s.dir with lockPid := false })
    | .removeLock =>
      if s.dir.lock && !s.dir.lockPid then
        some (s.proceed p i q .removeOld { s.dir with lock := false })
      else some (s.fail p i q notEmpty)
    | .record payload =>
      some (s.proceed p i q (.download payload) { s.dir with payload := some payload })
    | .download payload => some (s.proceed p i q (.writeStage payload) s.dir)
    | .writeStage payload =>
      some (s.proceed p i q (.writeTarget payload)
        { s.dir with stage := some "installing\n", stageTime := s.now })
    | .writeTarget payload =>
      some (s.proceed p i q (.fork payload) { s.dir with target := some (q.tag ++ "\n") })
    | .exec _ pid j =>
      if s.workers[j]?.any (·.started) then some (s.proceed p i q (.publish pid) s.dir) else none
    | .publish pid =>
      some (s.proceed p i q .handOff { s.dir with pid := some (pidText pid) })
    | .handOff =>
      some { s with process := some { updater := p.updater.prepared q.tag (.ok ()),
                                      prepares := p.prepares.eraseIdx i } }
    | .removeOld | .makePayload | .fork _ => none
  | .fail error =>
    match q.phase with
    -- the error is ignored
    | .publish _ => some (s.proceed p i q .handOff s.dir)
    | .checkLive | .handOff => none
    -- the child is gone before its `exec`
    | .exec _ _ j =>
      if s.workers[j]?.any fun w => !w.started && w.phase = .gone then some (s.fail p i q error)
      else none
    | _ => some (s.fail p i q error)
  | .old isDir =>
    if q.phase = .removeOld then
      some (s.proceed p i q .makePayload
        (match s.dir.payload with
        | some old => if isPayload install.binDir old && isDir then
            { s.dir with removed := old :: s.dir.removed } else s.dir
        | none => s.dir))
    else none
  | .name hex =>
    if q.phase = .makePayload then
      some (s.proceed p i q (.record (install.binDir ++ "/.tgwsproxy-update." ++ hex)) s.dir)
    else none
  | .fork pid =>
    match q.phase with
    | .fork payload =>
      -- a number of the kernel that no process has
      if 1 < pid ∧ pid < 2 ^ 22 ∧ s.workers.all (fun w => w.phase = .gone ∨ w.pid ≠ pid) then
        some { s.proceed p i q (.exec payload pid s.workers.length) s.dir with
          workers := s.workers ++ [.launch pid q.tag payload] }
      else none
    | _ => none
  | .torn =>
    match q.phase with
    | .publish _ => some (s.proceed p i q .handOff { s.dir with pid := some "" })
    | _ => none

/-- A section of the service that is not one of `prepare`: behind its `status`, or without. -/
def World.act (s : World) (looks : Bool) (action : UpdaterAction) : Option World :=
  s.process.bind fun p =>
    if p.busy then none
    else
      let u := if looks then p.updater.status semver (s.observe install others) else p.updater
      (u.step semver action).map fun u' =>
        { s with process := some { updater := u',
                                   prepares := p.prepares ++
                                     (u'.prepares.drop u.prepares.length).map fun tag => { tag } } }

/-- One step of the router. -/
def World.step (s : World) : Action → Option World
  | .tick d => some { s with now := s.now + d }
  | .boot =>
    match s.process with
    | some _ => none
    | none =>
      let updater := Updater.new semver (some install) arch s.dir.made (s.observe install others)
      some { s with process := some { updater } }
  | .kill drops => s.process.bind fun p =>
    if drops && p.busy then none
    else some { s with
      dir := if drops then p.prepares.foldl (fun d q => dropPayload d q.phase) s.dir else s.dir
      process := none }
  | .status => s.act semver install others false (.status (s.observe install others))
  | .check force now => s.act semver install others true (.check force now)
  | .checked response now => s.act semver install others false (.checked response now)
  | .start => s.act semver install others true .start
  | .prepare i event => s.process.bind fun p => p.prepares[i]?.bind fun q =>
    if (p.prepares.eraseIdx i).any fun q => !q.phase.awaits then none
    else s.prepare install others p i q event
  | .worker i event => s.workers[i]?.bind fun w =>
    (w.step install.binDir s.now s.dir event).map fun (w', dir) =>
      { s with dir, workers := s.workers.set i w' }

/-- A router from any files, before its service is started. -/
def handoffSystem : System World Action where
  start s := s.process = none ∧ s.workers = []
  step := World.step semver install arch others

end

/-! ## The assumption on times -/

/-- The number of a worker is in its place. -/
def Published (d : StateDir) (w : Worker) : Prop :=
  d.pid = some (pidText w.pid) ∧ w.phase ≠ .exec

/-- A launch is under way that has written its stage. -/
def PreparePhase.isLaunching : PreparePhase → Bool
  | .writeTarget _ | .fork _ => true
  | _ => false

/-- The number of a worker is in its place less than ten seconds behind the stage, before a command
of the worker fails, and whole. -/
def Prompt (s : World) : Action → Prop
  | .tick d =>
    (∀ w ∈ s.workers, w.phase ≠ .gone → ¬Published s.dir w →
      s.now + d < s.dir.stageTime + seconds 10) ∧
    ∀ p, s.process = some p → ∀ q ∈ p.prepares, q.phase.isLaunching = true →
      s.now + d < s.dir.stageTime + seconds 10
  | .prepare _ event => event ≠ .torn
  | .worker i (.fault _) => ∀ w, s.workers[i]? = some w →
    Published s.dir w ∨ Worker.isBare w.phase = true
  | _ => True

end TgWsProxy.Update
