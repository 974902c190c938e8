import Mathlib.Tactic.MkIffOfInductiveProp
import TgWsProxy.Core.Transition
import TgWsProxy.Io

/-!
# The update worker

`update-worker.sh` behind the checks of its arguments, command by command, over the files of the
updater's directory. A command may fail, a signal may be handled behind it, and the process may be
killed between any two of them; `mv` of a file that is written beside it is one step. What the tests
of the file system answer is an input.
-/

namespace TgWsProxy.Update

open TgWsProxy.Core

/-- The files of the directory that the updater and its worker share. -/
structure StateDir where
  /-- The directory is there. -/
  made : Bool := false
  stage : Option String := none
  /-- When `stage` was written last. -/
  stageTime : Nat := 0
  target : Option String := none
  pid : Option String := none
  errorTxt : Option String := none
  /-- `worker.lock`, and `pid` in it. -/
  lock : Bool := false
  lockPid : Bool := false
  /-- What `payload` names. -/
  payload : Option String := none
  /-- The directories that were removed with all that is in them, the last one first. -/
  removed : List String := []
  deriving DecidableEq

/-- The next command of a worker. -/
inductive WorkerPhase
  /-- Between `fork` and `exec`. -/
  | exec
  | makeLock
  | setTraps
  | writeLockPid
  | writeTarget
  | writePid
  | writeInstalling
  | removeError
  | checkPath
  /-- `CANONICAL_BIN`, `CANONICAL_PAYLOAD` and their comparison. -/
  | resolve
  | checkFiles
  | sleep
  | writeRestarting
  | install
  | writeComplete
  | setComplete
  /-- The first command of `cleanup` where `COMPLETE` is not 1. -/
  | writeErrorTxt
  | writeError
  | removePayload
  | removeLockPid
  | removeLock
  | gone
  deriving DecidableEq

/-- A process that runs the script. -/
structure Worker where
  pid : Nat
  tag : String
  /-- The argument, and the variable that is set to its canonical form. -/
  argument : String
  payloadDir : String
  /-- `CANONICAL_BIN`. -/
  canonicalBin : String := ""
  phase : WorkerPhase := .exec
  /-- `CLEAN_PAYLOAD`. -/
  clean : Bool := false
  /-- `COMPLETE`. -/
  complete : Bool := false
  /-- `result` is not 0. -/
  failed : Bool := false
  /-- Its image is that of the shell. -/
  started : Bool := false
  /-- The lock was made. -/
  locked : Bool := false
  /-- The installer has succeeded. -/
  installed : Bool := false
  /-- It was not killed, and no command of `cleanup` has failed. -/
  orderly : Bool := true
  deriving DecidableEq

/-- What happens to a worker. -/
inductive WorkerAction
  /-- Its next command succeeds. -/
  | go
  /-- Both directories have a canonical form. -/
  | resolve (bin payload : String)
  /-- Its next command fails, or a signal is handled behind it; its effect may have happened. -/
  | fault (done : Bool)
  /-- The `printf` of a `write_state` in `cleanup` fails behind so many characters, and `mv` puts
  these in place. -/
  | torn (written : Nat)
  | kill
  deriving DecidableEq

/-- A path starts with `BIN_DIR/.tgwsproxy-update.`. -/
def payloadFront (binDir : String) : List Char := (binDir ++ "/.tgwsproxy-update.").toList

/-- What follows the front is the rest of a name, not a path. -/
def isPayload (binDir path : String) : Bool :=
  (payloadFront binDir).isPrefixOf path.toList &&
    !(path.toList.drop (payloadFront binDir).length).contains '/'

/-- The checks of `PAYLOAD_DIR` as a string. -/
def ownsPath (binDir path : String) : Bool :=
  isPayload binDir path && path.toList.length ≠ (payloadFront binDir).length

/-- `${path%/*}`. -/
def parentDir (path : String) : String :=
  if path.toList.contains '/' then
    String.ofList ((path.toList.reverse.dropWhile (· ≠ '/')).tail.reverse)
  else path

/-- What `printf '%s\n'` writes for a process number. -/
def pidText (pid : Nat) : String := toString pid ++ "\n"

/-- The first characters of a text. -/
def textFront (n : Nat) (text : String) : String := String.ofList (text.toList.take n)

namespace Worker

/-- The first command of `cleanup`. -/
def cleanup (w : Worker) : WorkerPhase :=
  if !w.complete then .writeErrorTxt else if w.clean then .removePayload else .removeLockPid

/-- The command behind one that has succeeded. -/
def next (w : Worker) : WorkerPhase :=
  match w.phase with
  | .exec => .makeLock
  | .makeLock => .setTraps
  | .setTraps => .writeLockPid
  | .writeLockPid => .writeTarget
  | .writeTarget => .writePid
  | .writePid => .writeInstalling
  | .writeInstalling => .removeError
  | .removeError => .checkPath
  | .checkPath => .resolve
  | .resolve => .checkFiles
  | .checkFiles => .sleep
  | .sleep => .writeRestarting
  | .writeRestarting => .install
  | .install => .writeComplete
  | .writeComplete => .setComplete
  | .setComplete => w.cleanup
  | .writeErrorTxt => .writeError
  | .writeError => if w.clean then .removePayload else .removeLockPid
  | .removePayload => .removeLockPid
  | .removeLockPid => .removeLock
  | .removeLock | .gone => .gone

/-- The variables behind the next command. -/
def assign (w : Worker) : Worker :=
  match w.phase with
  | .exec => { w with started := true }
  | .makeLock => { w with locked := true }
  | .install => { w with installed := true }
  | .setComplete => { w with complete := true }
  | .writeError => { w with failed := true }
  | _ => w

/-- The files behind the next command. -/
def write (now : Nat) (w : Worker) (d : StateDir) : StateDir :=
  match w.phase with
  | .makeLock => { d with lock := true }
  | .writeLockPid => { d with lockPid := true }
  | .writeTarget => { d with target := some (w.tag ++ "\n") }
  | .writePid => { d with pid := some (pidText w.pid) }
  | .writeInstalling => { d with stage := some "installing\n", stageTime := now }
  | .removeError => { d with errorTxt := none }
  | .writeRestarting => { d with stage := some "restarting\n", stageTime := now }
  | .writeComplete => { d with stage := some "complete\n", stageTime := now }
  | .writeErrorTxt => { d with errorTxt := some "Update failed; see the updater log.\n" }
  | .writeError => { d with stage := some "error\n", stageTime := now }
  | .removePayload => { d with removed := w.payloadDir :: d.removed }
  | .removeLockPid => { d with lockPid := false }
  -- `rmdir` removes an empty directory
  | .removeLock => if d.lockPid then d else { d with lock := false }
  | _ => d

/-- The files behind a `write_state` of `cleanup` that wrote only the front of its text. -/
def tear (now written : Nat) (w : Worker) (d : StateDir) : StateDir :=
  match w.phase with
  | .writeErrorTxt =>
    { d with errorTxt := some (textFront written "Update failed; see the updater log.\n") }
  | .writeError => { d with stage := some (textFront written "error\n"), stageTime := now }
  | _ => d

/-- The commands of `cleanup`, where `set +e` holds. -/
def isCleanup : WorkerPhase → Bool
  | .writeErrorTxt | .writeError | .removePayload | .removeLockPid | .removeLock => true
  | _ => false

/-- The traps are not set yet. -/
def isBare : WorkerPhase → Bool
  | .exec | .makeLock | .setTraps => true
  | _ => false

/-- One step of a worker. -/
def step (binDir : String) (now : Nat) (w : Worker) (d : StateDir) :
    WorkerAction → Option (Worker × StateDir)
  | .go =>
    if w.phase = .gone ∨ w.phase = .resolve then none
    else if w.phase = .makeLock ∧ d.lock then
      -- another worker is active
      some ({ w with phase := .gone, failed := true }, d)
    else if w.phase = .checkPath ∧ !ownsPath binDir w.argument then
      some ({ w with phase := w.cleanup, failed := true }, d)
    else some ({ w.assign with phase := w.assign.next }, w.write now d)
  | .resolve bin payload =>
    if w.phase ≠ .resolve then none
    else if parentDir payload = bin then
      some ({ w with
        phase := .checkFiles, payloadDir := payload, canonicalBin := bin, clean := true }, d)
    else some ({ w with phase := w.cleanup, failed := true }, d)
  | .fault done =>
    if w.phase = .gone then none
    else if w.phase = .makeLock ∧ d.lock then
      some ({ w with phase := .gone, failed := true }, d)
    else
      let d' := if done then w.write now d else d
      let w' := if done || isCleanup w.phase then w.assign else w
      if isBare w.phase then
        some ({ w' with phase := .gone, failed := true, orderly := false }, d')
      else if isCleanup w.phase then
        some ({ w' with phase := w'.next, orderly := w.orderly && done }, d')
      else some ({ w' with phase := w'.cleanup, failed := true }, d')
  | .torn written =>
    if w.phase = .writeErrorTxt ∨ w.phase = .writeError then
      some ({ w.assign with phase := w.assign.next, orderly := false }, w.tear now written d)
    else none
  | .kill =>
    if w.phase = .gone then none
    else some ({ w with phase := .gone, failed := true, orderly := false }, d)

/-- A worker as it is launched. -/
def launch (pid : Nat) (tag payload : String) : Worker :=
  { pid, tag, argument := payload, payloadDir := payload }

end Worker

namespace Worker

variable {binDir : String} {now : Nat} {w w' : Worker} {d d' d₀ : StateDir}

/-- What a step of a worker can be. -/
inductive Move (binDir : String) (now : Nat) (w : Worker) (d : StateDir) (action : WorkerAction) :
    Worker → StateDir → Prop
  /-- Another worker is active. -/
  | lost (hphase : w.phase = .makeLock) (hlock : d.lock = true) :
    Move binDir now w d action { w with phase := .gone, failed := true } d
  | killed (hgone : w.phase ≠ .gone) :
    Move binDir now w d action { w with phase := .gone, failed := true, orderly := false } d
  /-- A signal before the traps. -/
  | bare (hbare : isBare w.phase = true) (hlock : w.phase = .makeLock → d.lock = false) :
    Move binDir now w d action { w.assign with phase := .gone, failed := true, orderly := false }
      (w.write now d)
  | advance (hgone : w.phase ≠ .gone) (hresolve : w.phase ≠ .resolve)
    (hlock : w.phase = .makeLock → d.lock = false)
    (hpath : w.phase = .checkPath → ownsPath binDir w.argument = true) :
    Move binDir now w d action { w.assign with phase := w.assign.next } (w.write now d)
  /-- A command of `cleanup` fails. -/
  | skip (hcleanup : isCleanup w.phase = true) :
    Move binDir now w d action { w.assign with phase := w.assign.next, orderly := false } d
  /-- A `write_state` of `cleanup` puts the front of its text in place. -/
  | torn (written : Nat) (hphase : w.phase = .writeErrorTxt ∨ w.phase = .writeError) :
    Move binDir now w d action { w.assign with phase := w.assign.next, orderly := false }
      (w.tear now written d)
  | resolve (bin payload : String) (hphase : w.phase = .resolve)
      (hparent : parentDir payload = bin) :
    Move binDir now w d action
      { w with phase := .checkFiles, payloadDir := payload, canonicalBin := bin, clean := true } d
  /-- A command fails before `cleanup`. -/
  | leave (hbare : isBare w.phase = false) (hcleanup : isCleanup w.phase = false)
    (hgone : w.phase ≠ .gone)
    (hwhy : w.phase = .checkPath ∨ w.phase = .resolve ∨ ∃ done, action = .fault done) :
    Move binDir now w d action { w with phase := w.cleanup, failed := true } d
  /-- A signal is handled behind such a command. -/
  | interrupt (hbare : isBare w.phase = false) (hcleanup : isCleanup w.phase = false)
    (hgone : w.phase ≠ .gone) (hwhy : ∃ done, action = .fault done) :
    Move binDir now w d action { w.assign with phase := w.assign.cleanup, failed := true }
      (w.write now d)

/-- What a step of a worker does, by its command. -/
theorem move_of_step {action : WorkerAction} (h : w.step binDir now d action = some (w', d')) :
    Move binDir now w d action w' d' := by
  cases action with
  | go =>
    simp only [Worker.step] at h
    split at h
    · cases h
    · next hphase =>
      rw [not_or] at hphase
      split at h
      · next hlost =>
        cases h
        exact .lost hlost.1 hlost.2
      · next hlost =>
        split at h
        · next hpath =>
          cases h
          exact .leave (by rw [hpath.1]; rfl) (by rw [hpath.1]; rfl) hphase.1 (.inl hpath.1)
        · next hpath =>
          cases h
          refine .advance hphase.1 hphase.2 (fun hlock => ?_) fun hcheck => ?_
          · simpa [hlock] using hlost
          · simpa [hcheck] using hpath
  | resolve bin payload =>
    simp only [Worker.step] at h
    split at h
    · cases h
    · next hphase =>
      rw [ne_eq, not_not] at hphase
      split at h
      · next hparent =>
        cases h
        exact .resolve bin payload hphase hparent
      · cases h
        exact .leave (by rw [hphase]; rfl) (by rw [hphase]; rfl) (by rw [hphase]; simp)
          (.inr (.inl hphase))
  | fault done =>
    simp only [Worker.step] at h
    split at h
    · cases h
    · next hgone =>
      split at h
      · next hlost =>
        cases h
        exact .lost hlost.1 hlost.2
      · next hlost =>
        have hlock (hphase : w.phase = .makeLock) : d.lock = false := by simpa [hphase] using hlost
        split at h
        · next hbare =>
          have hcleanup : isCleanup w.phase = false := by
            cases hphase : w.phase <;> simp_all [isBare, isCleanup]
          cases done with
          | true =>
            cases h
            exact .bare hbare hlock
          | false =>
            simp only [hcleanup] at h
            cases h
            exact .killed hgone
        · next hbare =>
          rw [Bool.not_eq_true] at hbare
          split at h
          · next hcleanup =>
            cases done with
            | true =>
              have horderly : w.assign.orderly = w.orderly := by
                rw [Worker.assign]
                split <;> rfl
              simp only [Bool.true_or, if_true, Bool.and_true, ← horderly] at h
              cases h
              refine .advance hgone (fun hphase => ?_) hlock fun hphase => ?_
              · simp [isCleanup, hphase] at hcleanup
              · simp [isCleanup, hphase] at hcleanup
            | false =>
              simp only [hcleanup, Bool.and_false] at h
              cases h
              exact .skip hcleanup
          · next hcleanup =>
            rw [Bool.not_eq_true] at hcleanup
            cases done with
            | true =>
              cases h
              exact .interrupt hbare hcleanup hgone ⟨_, rfl⟩
            | false =>
              simp only [hcleanup] at h
              cases h
              exact .leave hbare hcleanup hgone (.inr (.inr ⟨_, rfl⟩))
  | torn written =>
    simp only [Worker.step] at h
    split at h
    · next hphase =>
      cases h
      exact .torn written hphase
    · cases h
  | kill =>
    simp only [Worker.step] at h
    split at h
    · cases h
    · next hgone =>
      cases h
      exact .killed hgone

/-- What holds of a worker from its lock on. -/
@[mk_iff] structure Inside (binDir : String) (d₀ : StateDir) (w : Worker) (d : StateDir) :
    Prop where
  locked : w.locked = true
  owns : w.clean = true →
    ownsPath binDir w.argument = true ∧ parentDir w.payloadDir = w.canonicalBin
  cleans : w.installed = true → w.clean = true
  installs : w.complete = true → w.installed = true
  reports : d.stage = some "complete\n" → d₀.stage = some "complete\n" ∨ w.installed = true
  removes : d.removed = d₀.removed ∨ w.clean = true ∧ d.removed = w.payloadDir :: d₀.removed

/-- The stage tells how it has ended. -/
def Settled (w : Worker) (d : StateDir) : Prop :=
  w.complete = true ∧ d.stage = some "complete\n" ∨
    w.complete = false ∧ (w.orderly = true → d.stage = some "error\n" ∧ w.failed = true)

/-- The payload is removed, where it is this worker's to remove. -/
def Cleared (d₀ : StateDir) (w : Worker) (d : StateDir) : Prop :=
  w.orderly = true →
    if w.clean then d.removed = w.payloadDir :: d₀.removed else d.removed = d₀.removed

/-- What is known besides, by the next command. -/
def Known (binDir : String) (d₀ : StateDir) (w : Worker) (d : StateDir) : Prop :=
  match w.phase with
  | .exec | .makeLock => False
  | .setTraps | .writeLockPid | .writeTarget | .writePid | .writeInstalling | .removeError
  | .checkPath => w.clean = false ∧ w.installed = false ∧ w.complete = false
  | .resolve => ownsPath binDir w.argument = true ∧ w.clean = false ∧ w.installed = false ∧
      w.complete = false
  | .checkFiles | .sleep | .writeRestarting | .install =>
    d.removed = d₀.removed ∧ w.clean = true ∧ w.complete = false
  | .writeComplete => d.removed = d₀.removed ∧ w.installed = true ∧ w.complete = false
  | .setComplete => d.removed = d₀.removed ∧ w.installed = true ∧ w.complete = false ∧
      d.stage = some "complete\n"
  | .writeErrorTxt | .writeError => d.removed = d₀.removed ∧ w.complete = false
  | .removePayload => d.removed = d₀.removed ∧ w.clean = true ∧ w.Settled d
  | .removeLockPid => w.Settled d ∧ w.Cleared d₀ d
  | .removeLock => w.Settled d ∧ w.Cleared d₀ d ∧ (w.orderly = true → d.lockPid = false)
  | .gone => w.orderly = true → w.Settled d ∧ w.Cleared d₀ d ∧ d.lock = false ∧ d.lockPid = false

/-- A worker that has made no lock has changed nothing. -/
structure Outside (d₀ : StateDir) (w : Worker) (d : StateDir) : Prop where
  locked : w.locked = false
  same : d = d₀
  clean : w.clean = false
  installed : w.installed = false
  complete : w.complete = false
  phase : w.phase = .exec ∨ w.phase = .makeLock ∨ w.phase = .gone

/-- What is known of a worker and of what it has done to the files as they were. -/
def Sound (binDir : String) (d₀ : StateDir) (w : Worker) (d : StateDir) : Prop :=
  w.Outside d₀ d ∨ w.Inside binDir d₀ d ∧ w.Known binDir d₀ d

/-- A command succeeds past the lock. -/
theorem Inside.advance (h : w.Inside binDir d₀ d) (hknown : w.Known binDir d₀ d)
    (hresolve : w.phase ≠ .resolve)
    (hpath : w.phase = .checkPath → ownsPath binDir w.argument = true) :
    Sound binDir d₀ { w.assign with phase := w.assign.next } (w.write now d) := by
  right
  obtain ⟨pid, tag, argument, payloadDir, bin, phase, clean, complete, failed, started, locked,
    installed, orderly⟩ := w
  rw [inside_iff] at h ⊢
  cases phase with
  | exec | makeLock => exact hknown.elim
  | resolve => exact absurd rfl hresolve
  | removeLock =>
    -- the lock is empty where every command has succeeded
    cases orderly <;> cases hempty : d.lockPid <;>
      simp_all [Worker.assign, Worker.write, Worker.next, Known, Settled, Cleared]
  | writeError =>
    cases clean <;> simp_all [Worker.assign, Worker.write, Worker.next, Known, Settled, Cleared]
  | _ => simp_all [Worker.assign, Worker.write, Worker.next, cleanup, Known, Settled, Cleared]

/-- A command fails before `cleanup`. -/
theorem Inside.leave (h : w.Inside binDir d₀ d) (hknown : w.Known binDir d₀ d)
    (hbare : isBare w.phase = false) (hcleanup : isCleanup w.phase = false)
    (hgone : w.phase ≠ .gone) :
    Sound binDir d₀ { w with phase := w.cleanup, failed := true } d := by
  right
  obtain ⟨pid, tag, argument, payloadDir, bin, phase, clean, complete, failed, started, locked,
    installed, orderly⟩ := w
  rw [inside_iff] at h ⊢
  cases phase with
  | exec | makeLock | setTraps => cases hbare
  | writeErrorTxt | writeError | removePayload | removeLockPid | removeLock => cases hcleanup
  | gone => exact absurd rfl hgone
  | _ => simp_all [cleanup, Known]

/-- A signal is handled behind a command before `cleanup`. -/
theorem Inside.interrupt (h : w.Inside binDir d₀ d) (hknown : w.Known binDir d₀ d)
    (hbare : isBare w.phase = false) (hcleanup : isCleanup w.phase = false)
    (hgone : w.phase ≠ .gone) :
    Sound binDir d₀ { w.assign with phase := w.assign.cleanup, failed := true }
    (w.write now d) := by
  right
  obtain ⟨pid, tag, argument, payloadDir, bin, phase, clean, complete, failed, started, locked,
    installed, orderly⟩ := w
  rw [inside_iff] at h ⊢
  cases phase with
  | exec | makeLock | setTraps => cases hbare
  | writeErrorTxt | writeError | removePayload | removeLockPid | removeLock => cases hcleanup
  | gone => exact absurd rfl hgone
  | _ => simp_all [Worker.assign, Worker.write, cleanup, Known, Settled]

/-- A command of `cleanup` fails. -/
theorem Inside.skip (h : w.Inside binDir d₀ d) (hknown : w.Known binDir d₀ d)
    (hcleanup : isCleanup w.phase = true) :
    Sound binDir d₀ { w.assign with phase := w.assign.next, orderly := false } d := by
  right
  obtain ⟨pid, tag, argument, payloadDir, bin, phase, clean, complete, failed, started, locked,
    installed, orderly⟩ := w
  rw [inside_iff] at h ⊢
  cases phase with
  | writeError => cases clean <;> simp_all [Worker.assign, Worker.next, Known, Settled, Cleared]
  | writeErrorTxt | removePayload | removeLockPid | removeLock =>
    cases complete <;> simp_all [Worker.assign, Worker.next, Known, Settled, Cleared]
  | _ => cases hcleanup

/-- No front of the error is the stage of an update that is complete. -/
theorem textFront_error_ne (n : Nat) : textFront n "error\n" ≠ "complete\n" := by
  intro h
  have hfront : "complete\n".toList <+: "error\n".toList := by
    rw [← h, textFront, String.toList_ofList]
    exact List.take_prefix ..
  exact absurd hfront (by decide)

/-- A `write_state` of `cleanup` puts the front of its text in place. -/
theorem Inside.torn (h : w.Inside binDir d₀ d) (hknown : w.Known binDir d₀ d) (written : Nat)
    (hphase : w.phase = .writeErrorTxt ∨ w.phase = .writeError) :
    Sound binDir d₀ { w.assign with phase := w.assign.next, orderly := false }
      (w.tear now written d) := by
  right
  have hne := textFront_error_ne written
  obtain ⟨pid, tag, argument, payloadDir, bin, phase, clean, complete, failed, started, locked,
    installed, orderly⟩ := w
  rw [inside_iff] at h ⊢
  rcases hphase with rfl | rfl
  · simp_all [Worker.assign, Worker.tear, Worker.next, Known]
  · cases clean <;>
      simp_all [Worker.assign, Worker.tear, Worker.next, Known, Settled, Cleared]

/-- The process ends before it is orderly to. -/
theorem Sound.kill (h : w.Sound binDir d₀ d) :
    Sound binDir d₀ { w with phase := .gone, failed := true, orderly := false } d := by
  obtain ⟨hlocked, hsame, hclean, hinstalled, hcomplete, -⟩ | ⟨h, -⟩ := h
  · exact .inl ⟨hlocked, hsame, hclean, hinstalled, hcomplete, .inr (.inr rfl)⟩
  · refine .inr ⟨?_, fun horderly => by cases horderly⟩
    rw [inside_iff] at h ⊢
    exact h

/-- Making the lock is the first change. -/
theorem Outside.makeLock (h : w.Outside d₀ d) :
    Sound binDir d₀ { w with locked := true, phase := .setTraps } { d with lock := true } := by
  refine .inr ⟨?_, h.clean, h.installed, h.complete⟩
  rw [inside_iff]
  refine ⟨rfl, ?_, ?_, ?_, ?_, ?_⟩
  · exact fun hclean => by simp [h.clean] at hclean
  · exact fun hinstalled => by simp [h.installed] at hinstalled
  · exact fun hcomplete => by simp [h.complete] at hcomplete
  · exact fun hstage => .inl (h.same ▸ hstage)
  · exact .inl (h.same ▸ rfl)

/-- A worker outside stays outside until it makes the lock. -/
theorem Outside.step (h : w.Outside d₀ d) {action : WorkerAction}
    (hmove : Move binDir now w d action w' d') : w'.Sound binDir d₀ d' := by
  have hgone (started failed orderly : Bool) :
      Sound binDir d₀ { w with phase := .gone, started, failed, orderly } d :=
    .inl ⟨h.locked, h.same, h.clean, h.installed, h.complete, .inr (.inr rfl)⟩
  have hnone {phase : WorkerPhase} (hphase : w.phase = phase) (hexec : phase ≠ .exec)
      (hlock : phase ≠ .makeLock) (hend : phase ≠ .gone) : False := by
    subst hphase
    exact h.phase.elim hexec (·.elim hlock hend)
  cases hmove with
  | lost | killed => exact hgone _ _ _
  | bare hbare =>
    rcases h.phase with hphase | hphase | hphase
    · simp only [Worker.assign, Worker.write, hphase]
      exact hgone _ _ _
    · simp only [Worker.assign, Worker.write, hphase]
      exact h.makeLock.kill
    · simp [isBare, hphase] at hbare
  | advance hend =>
    rcases h.phase with hphase | hphase | hphase
    · simp only [Worker.assign, Worker.write, Worker.next, hphase]
      exact .inl ⟨h.locked, h.same, h.clean, h.installed, h.complete, .inr (.inl rfl)⟩
    · simp only [Worker.assign, Worker.write, Worker.next, hphase]
      exact h.makeLock
    · exact absurd hphase hend
  | skip hcleanup =>
    rcases h.phase with hphase | hphase | hphase <;> simp [isCleanup, hphase] at hcleanup
  | torn _ hphase =>
    rcases hphase with hphase | hphase
    · exact (hnone hphase (by simp) (by simp) (by simp)).elim
    · exact (hnone hphase (by simp) (by simp) (by simp)).elim
  | resolve bin payload hphase => exact (hnone hphase (by simp) (by simp) (by simp)).elim
  | leave hbare _ hend | interrupt hbare _ hend =>
    rcases h.phase with hphase | hphase | hphase
    · simp [isBare, hphase] at hbare
    · simp [isBare, hphase] at hbare
    · exact absurd hphase hend

/-- A worker past the lock. -/
theorem Inside.step (h : w.Inside binDir d₀ d) (hknown : w.Known binDir d₀ d)
    {action : WorkerAction}
    (hmove : Move binDir now w d action w' d') : w'.Sound binDir d₀ d' := by
  cases hmove with
  | lost hphase => simp [Known, hphase] at hknown
  | killed => exact Sound.kill (.inr ⟨h, hknown⟩)
  | bare hbare =>
    have htraps : w.phase = .setTraps := by cases hphase : w.phase <;> simp_all [isBare, Known]
    simp only [htraps, Worker.assign, Worker.write]
    exact Sound.kill (.inr ⟨h, hknown⟩)
  | advance _ hresolve _ hpath => exact h.advance hknown hresolve hpath
  | skip hcleanup => exact h.skip hknown hcleanup
  | torn written hphase => exact h.torn hknown written hphase
  | resolve bin payload hphase hparent =>
    simp only [Known, hphase] at hknown
    obtain ⟨hpath, hclean, hinstalled, hcomplete⟩ := hknown
    rw [inside_iff] at h
    right
    rw [inside_iff]
    simp_all [Known]
  | leave hbare hcleanup hgone => exact h.leave hknown hbare hcleanup hgone
  | interrupt hbare hcleanup hgone => exact h.interrupt hknown hbare hcleanup hgone

/-- Every step keeps a worker sound. -/
theorem Sound.step (h : w.Sound binDir d₀ d) {action : WorkerAction}
    (hstep : w.step binDir now d action = some (w', d')) : w'.Sound binDir d₀ d' :=
  h.elim (·.step (move_of_step hstep)) fun h => h.1.step h.2 (move_of_step hstep)

end Worker

/-- What a worker leaves of the files as they were, wherever it is and however it ends. -/
structure Outcome (binDir : String) (d₀ : StateDir) (w : Worker) (d : StateDir) : Prop where
  /-- Without the lock nothing changes: not the stage, the process number or the lock of another. -/
  untouched : w.locked = false → d = d₀
  /-- An update is reported as complete behind an installer that has succeeded. -/
  honest : d.stage = some "complete\n" → d₀.stage = some "complete\n" ∨ w.installed = true
  /-- All that is removed is a payload: a child of the directory of the executable, under a name of
  the updater. -/
  removes : d.removed = d₀.removed ∨ ownsPath binDir w.argument = true ∧
    parentDir w.payloadDir = w.canonicalBin ∧ d.removed = w.payloadDir :: d₀.removed
  /-- It tells how it has ended, and leaves neither a lock nor its payload. -/
  settles : w.phase = .gone → w.locked = true → w.orderly = true →
    (w.installed = true ∧ d.stage = some "complete\n" ∨
      w.failed = true ∧ d.stage = some "error\n") ∧
    d.lock = false ∧ d.lockPid = false ∧
    (w.clean = true → d.removed = w.payloadDir :: d₀.removed)

end TgWsProxy.Update
