import TgWsProxy.Core.Shell
import TgWsProxy.Io

/-!
# The installer

`install.sh` after its options are parsed, as a script of named commands over the files, the
service and the shell variables, with `cleanup` on its exit. A run is given with what goes wrong in
it: nothing, or one command that fails or behind which a signal is handled.
-/

namespace TgWsProxy.Installer

open TgWsProxy.Core

/-! ## The world -/

/-- A regular file. -/
structure File where
  content : Bytes
  mode : Nat
  deriving DecidableEq

/-- `[ -x FILE ]`, as root. -/
def isExecutable (file : Option File) : Bool := file.any fun file => file.mode &&& 0o111 ≠ 0

/-- What an installation is about: `BIN`, `INIT` and `CONFIG`, and whether the service runs. -/
structure Machine where
  bin : Option File
  init : Option File
  config : Option File
  running : Bool
  deriving DecidableEq

/-- The staging directory `WORK`. -/
structure Work where
  binary : Option Bytes := none
  init : Option Bytes := none
  config : Option Bytes := none

/-- The machine, the temporary files and the variables of the script. -/
structure World extends Machine where
  /-- `$BIN.new.$$` and so on. -/
  binNew : Option File := none
  initNew : Option File := none
  binPrevious : Option File := none
  initPrevious : Option File := none
  work : Option Work := none
  lock : Bool := false
  /-- Whether the traps are set. -/
  trapped : Bool := false
  changed : Bool := false
  hadBin : Bool := false
  hadInit : Bool := false
  newConfig : Bool := false
  oldRunning : Bool := false

/-- The options, after they are parsed. -/
structure Options where
  /-- `ROOT` is not empty. -/
  root : Bool
  noStart : Bool
  openwrt : Bool
  localBinary : Bool
  /-- `ARCH` is given. -/
  arch : Bool
  /-- `VERSION` is `latest`. -/
  latest : Bool
  /-- `--root` requires `--no-start`. -/
  staged : root = true → noStart = true

/-- What is installed: the binary, the init script and the config that the binary generates. -/
structure Release where
  binary : Bytes
  init : Bytes
  config : Bytes

/-- The binary in its place. -/
def Release.binaryFile (r : Release) : File := ⟨r.binary, 0o755⟩

/-- The init script in its place. -/
def Release.initFile (r : Release) : File := ⟨r.init, 0o755⟩

/-! ## Commands -/

/-- The commands, in the order of the script. -/
inductive Command
  | checkOptions
  | detectSystem
  | ensureCaBundle
  | makeDirs
  | makeLock
  | writePid
  | setTraps
  | makeWork
  | findBinary
  | copyBinary
  | findTemplates
  | copyInit
  | detectArch
  | checkArch
  | fetchRelease
  | readTag
  | sayDownloading
  | fetchSums
  | fetchAsset
  | readChecksum
  | hashAsset
  | compareChecksum
  | extractBinary
  | extractInit
  | chmodWork
  | checkVersion
  | checkConfig
  | initConfig
  | checkGenerated
  | copyNewBin
  | copyNewInit
  | chmodNew
  | backupBin
  | setHadBin
  | backupInit
  | setHadInit
  | askStatus
  | setOldRunning
  | stop
  | setChanged
  | moveBin
  | moveInit
  | moveConfig
  | chmodConfig
  | setNewConfig
  | start
  | sleep
  | checkStatus
  | enable
  | clearChanged
  | sayInstalled
  | sayConfig
  | sayService
  | sayPanel
  | sayLink
  deriving DecidableEq

/-- What a command does to the world; those that only look or download do nothing to it. -/
def effect (r : Release) : Command → World → World
  | .makeLock, w => { w with lock := true }
  | .setTraps, w => { w with trapped := true }
  | .makeWork, w => { w with work := some {} }
  | .copyBinary, w | .extractBinary, w =>
    { w with work := w.work.map fun work => { work with binary := some r.binary } }
  | .copyInit, w | .extractInit, w =>
    { w with work := w.work.map fun work => { work with init := some r.init } }
  | .initConfig, w =>
    { w with work := w.work.map fun work => { work with config := some r.config } }
  | .copyNewBin, w => { w with binNew := (w.work.bind (·.binary)).map (⟨·, 0o700⟩) }
  | .copyNewInit, w => { w with initNew := (w.work.bind (·.init)).map (⟨·, 0o700⟩) }
  | .chmodNew, w => { w with
      binNew := w.binNew.map ({ · with mode := 0o755 })
      initNew := w.initNew.map ({ · with mode := 0o755 }) }
  | .backupBin, w => { w with binPrevious := w.bin }
  | .setHadBin, w => { w with hadBin := true }
  | .backupInit, w => { w with initPrevious := w.init }
  | .setHadInit, w => { w with hadInit := true }
  | .setOldRunning, w => { w with oldRunning := true }
  | .stop, w => { w with running := false }
  | .setChanged, w => { w with changed := true }
  | .moveBin, w => { w with bin := w.binNew, binNew := none }
  | .moveInit, w => { w with init := w.initNew, initNew := none }
  | .moveConfig, w => { w with
      config := (w.work.bind (·.config)).map (⟨·, 0o600⟩)
      work := w.work.map ({ · with config := none }) }
  | .chmodConfig, w => { w with config := w.config.map ({ · with mode := 0o600 }) }
  | .setNewConfig, w => { w with newConfig := true }
  | .start, w => { w with running := true }
  | .clearChanged, w => { w with changed := false }
  | _, w => w

/-! ## The script -/

abbrev Sh := Script Command World

/-- The checks, the lock and the traps. -/
def prepare : Sh :=
  .seq (.all [.checkOptions, .detectSystem, .ensureCaBundle, .makeDirs, .makeLock, .writePid])
    (.assign .setTraps)

/-- Where the files come from: a local directory or a release. -/
def sources (o : Options) : List Command :=
  if o.localBinary then [.findBinary, .copyBinary, .findTemplates, .copyInit]
  else (if o.arch then [] else [.detectArch]) ++ [.checkArch] ++
    (if o.latest then [.fetchRelease, .readTag] else []) ++
    [.sayDownloading, .fetchSums, .fetchAsset, .readChecksum, .hashAsset, .compareChecksum,
      .extractBinary, .extractInit]

/-- The new files, tried out in the staging directory. -/
def check (o : Options) : Sh :=
  .seq (.all (.makeWork :: sources o ++ [.chmodWork, .checkVersion]))
    (.whether (·.config.isSome) (.all [.checkConfig]) (.all [.initConfig, .checkGenerated]))

/-- The new files beside the old ones, and copies of these. -/
def backup : Sh :=
  .seq (.all [.copyNewBin, .copyNewInit, .chmodNew])
    (.seq (.whether (·.bin.isSome) (.seq (.all [.backupBin]) (.assign .setHadBin)) .skip)
      (.whether (·.init.isSome) (.seq (.all [.backupInit]) (.assign .setHadInit)) .skip))

/-- The old service is stopped. -/
def halt (o : Options) : Sh :=
  .whether (fun w => !o.root && isExecutable w.init)
    (.seq (.ask .askStatus (·.running) (.assign .setOldRunning)) (.run .stop)) .skip

/-- The files are replaced. -/
def replace : Sh :=
  .seq (.assign .setChanged) (.seq (.run .moveBin) (.seq (.run .moveInit)
    (.whether (·.config.isNone)
      (.seq (.run .moveConfig) (.seq (.run .chmodConfig) (.assign .setNewConfig))) .skip)))

/-- The new service is started. -/
def activate (o : Options) : Sh :=
  .seq (.all (if o.noStart then [] else [.start, .sleep, .checkStatus]))
    (.all (if o.openwrt && !o.root then [.enable] else []))

/-- The installation is complete. -/
def finish : Sh :=
  .seq (.assign .clearChanged)
    (.all [.sayInstalled, .sayConfig, .sayService, .sayPanel, .sayLink])

/-- `install.sh` behind the loop over its options. -/
def script (o : Options) : Sh :=
  .seq prepare
    (.seq (check o) (.seq backup (.seq (halt o) (.seq replace (.seq (activate o) finish)))))

/-! ## The exit -/

/-- `cleanup` where `CHANGED` is set, its commands succeeding: the service is stopped, the copies
are moved back or the new files removed, and the old service is started. An `INIT` that cannot be
executed stops nothing. -/
def restore (o : Options) (w : World) : World :=
  let running := if !o.root && isExecutable w.init then false else w.running
  let init := if w.hadInit then w.initPrevious else none
  { w with
    bin := if w.hadBin then w.binPrevious else none
    init := init
    config := if w.newConfig then none else w.config
    running := if w.oldRunning && isExecutable init then true else running }

/-- `cleanup`. -/
def cleanup (o : Options) (w : World) : World :=
  let w := if w.changed then restore o w else w
  { w with
    binNew := none, binPrevious := none, initNew := none, initPrevious := none, work := none
    lock := false }

/-- The exit: the trap runs where it is set. -/
def conclude (o : Options) (w : World) : World := if w.trapped then cleanup o w else w

/-- What goes wrong at a command. -/
def faultAt (fault : Option (Command × Fault)) (c : Command) : Option Fault :=
  (fault.filter (·.1 = c)).map (·.2)

/-- The end of a run: whether it exits with an error, and the machine it leaves. -/
structure Result where
  failed : Bool
  machine : Machine
  deriving DecidableEq

/-- A run of the installer. -/
def install (o : Options) (r : Release) (fault : Option (Command × Fault)) (m : Machine) : Result :=
  match (script o).exec (effect r) (faultAt fault) { toMachine := m } with
  | .ok w => ⟨false, (conclude o w).toMachine⟩
  | .error stop => ⟨true, (conclude o stop.world).toMachine⟩

/-- The release is installed, and an existing config is the same. -/
structure Installed (r : Release) (m m' : Machine) : Prop where
  bin : m'.bin = some r.binaryFile
  init : m'.init = some r.initFile
  config : ∀ file, m.config = some file → m'.config = some file

/-- All or nothing: after an error the machine is as it was. -/
def Atomic (r : Release) (m : Machine) (result : Result) : Prop :=
  if result.failed then result.machine = m else Installed r m result.machine

end TgWsProxy.Installer
