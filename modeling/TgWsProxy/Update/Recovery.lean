import TgWsProxy.Update.Exclusion

/-!
# Updates after a crash

A lock is left behind by a worker that was killed, a stage by one that was never launched. Ten
seconds later neither keeps the next update from being launched.
-/

namespace TgWsProxy.Update

open TgWsProxy.Core

variable {semver : Semver} {install : Installation} {arch : Option String} {others : Nat → Bytes}
  {s : World}

/-- No process but a worker is run with the script. -/
def Foreign (install : Installation) (others : Nat → Bytes) : Prop :=
  ∀ pid, ((others pid).splitOn 0).contains
    (install.stateDir ++ "/worker.sh").toUTF8.data.toList = false

/-- What is left of the workers is not taken for one. -/
theorem not_live_of_quiet (hothers : Foreign install others) (hquiet : s.Quiet)
    (hage : s.dir.stageTime + seconds 10 ≤ s.now) :
    workerLive (s.observe install others) install.stateDir = false ∧
      workerStarting (s.observe install others) = false := by
  have hcmdline (pid : Nat) : (s.observe install others).cmdline pid = others pid := by
    have hfind : s.workers.find? (isNamed pid) = none :=
      List.find?_eq_none.mpr fun w hw => by simp [isNamed, hquiet w hw]
    simp only [World.observe, hfind]
  constructor
  · rw [workerLive]
    split
    · rfl
    · next pid _ =>
      rw [hcmdline, hothers pid, Bool.and_false]
  · cases hstage : s.dir.stage with
    | none => simp [workerStarting, World.observe, hstage]
    | some stage =>
      have hold : ¬(s.now - s.dir.stageTime < seconds 10) := by omega
      simp [workerStarting, World.observe, hstage, hold]

/-! ## The service -/

/-- A tag that is available is the tag that `start` writes. -/
theorem tag_of_releaseAvailable (hplain : semver.Plain) {release : Release}
    (h : releaseAvailable semver release arch = .ok true) :
    arch.isSome = true ∧ "v" ++ trimTag release.tagName = release.tagName ∧
      ∃ version, releaseVersion semver release.tagName = .ok version := by
  unfold releaseAvailable at h
  obtain ⟨version, hversion, h⟩ := bind_eq_ok.mp h
  have hparse := (releaseVersion_eq_ok.mp hversion).1
  split at h
  · cases h
  · next hstable =>
    rw [not_or, not_not] at hstable
    refine ⟨?_, ?_, version, hversion⟩
    · cases arch with
      | none =>
        dsimp only at h
        split at h
        · cases h
        · cases h
      | some arch => rfl
    · rw [trimTag_eq_stripTag (hplain _ _ hparse), stripTag]
      split
      · next rest hrest =>
        rw [← String.toList_inj, String.toList_append, hrest, String.toList_ofList,
          String.toList_ofList]
        rfl
      · next hne =>
        obtain ⟨rest, hrest⟩ := List.head?_eq_some_iff.mp hstable.1
        exact absurd hrest (hne rest)

/-- Nothing is under way. -/
structure Idle (u : Updater) : Prop where
  alive : u.poisoned = false
  handedOff : u.handedOff = false
  running : u.info.running = false
  checking : u.info.checking = false
  checks : u.checks = 0
  prepares : u.prepares = []

/-- A service that is started over files that are not taken for a worker's. -/
theorem new_idle {existing : Bool} {files : WorkerFiles} (hprivate : files.isPrivate = true)
    (hlive : workerLive files install.stateDir = false) (hstarting : workerStarting files = false) :
    Idle (Updater.new semver (some install) arch existing files) := by
  cases existing with
  | false => exact ⟨rfl, rfl, rfl, rfl, rfl, rfl⟩
  | true => constructor <;> simp [Updater.new, Updater.status, hprivate, hlive, hstarting]

/-- An idle updater begins the check. -/
theorem Idle.check {u : Updater} (h : Idle u) (now : Nat) :
    u.check true now = { u with
      checks := 1
      info := { u.info with checking := true, stage := .checking, error := none } } := by
  simp [Updater.check, h.checking, h.running, h.checks]

/-- A section of a service without tasks. -/
theorem act_eq {u u' : Updater} {tags : List String} (hp : s.process = some ⟨u, []⟩)
    (hhanded : u.handedOff = false) (hprepares : u.prepares = []) {looks : Bool}
    {action : UpdaterAction} (hstep : u.step semver action = some u') (htags : u'.prepares = tags) :
    s.act semver install others looks action =
      some { s with process := some ⟨u', tags.map fun tag => { tag }⟩ } := by
  have hlooked : (if looks then u.status semver (s.observe install others) else u) = u := by
    split
    · exact Updater.status_of_not_handedOff _ hhanded
    · rfl
  simp only [World.act, hp, Option.bind_some, Process.busy, List.any_nil, Bool.false_eq_true,
    if_false, hlooked, hstep, Option.map_some, hprepares, htags, List.length_nil, List.drop_zero,
    List.nil_append]

/-- A release that is asked for is prepared. -/
theorem Idle.run_ask {u : Updater} (h : Idle u) (hp : s.process = some ⟨u, []⟩)
    (hsupported : u.info.supported = true) {release : Release} {version : semver.Version}
    (havailable : releaseAvailable semver release u.arch = .ok true)
    (htag : "v" ++ trimTag release.tagName = release.tagName)
    (hversion : releaseVersion semver release.tagName = .ok version) (now : Nat) :
    ∃ u', (handoffSystem semver install arch others).run s
        [.check true now, .checked (.ok release) now, .start] =
      some { s with process := some ⟨u', [{ tag := release.tagName }]⟩ } := by
  have hfetched : fetchedRelease semver (.ok release) u.arch = .ok release := by
    simp [fetchedRelease, havailable, bind, Except.bind]
  let asked : Updater := { u with
    checks := 1, info := { u.info with checking := true, stage := .checking, error := none } }
  let told : Updater := { asked with
    checks := 0
    info := { asked.info with
      checking := false
      checkedAt := some now
      stage := .idle
      available := true
      url := some s!"https://github.com/{repo}/releases/tag/{release.tagName}"
      latest := some (trimTag release.tagName) } }
  let started : Updater := { told with
    prepares := [release.tagName]
    info := { told.info with running := true, error := none, stage := .downloading } }
  have hcheck : u.step semver (.check true now) = some asked := by
    simp [Updater.step, h.alive, h.check, asked]
  have hchecked : asked.step semver (.checked (.ok release) now) = some told := by
    simp [Updater.step, h.alive, Updater.checked, hfetched, havailable, Except.toOption,
      asked, told]
  have hstart : told.step semver .start = some started := by
    simp [Updater.step, h.alive, Updater.start, h.running, hsupported, htag, hversion, h.prepares,
      asked, told, started]
  have hfirst : s.act semver install others true (.check true now) =
      some { s with process := some ⟨asked, []⟩ } :=
    act_eq hp h.handedOff h.prepares hcheck h.prepares
  have hsecond : World.act semver install others
      { s with process := some ⟨asked, []⟩ } false (.checked (.ok release) now) =
        some { s with process := some ⟨told, []⟩ } :=
    act_eq (u := asked) rfl h.handedOff h.prepares hchecked h.prepares
  have hthird : World.act semver install others { s with process := some ⟨told, []⟩ } true .start =
      some { s with process := some ⟨started, [{ tag := release.tagName }]⟩ } :=
    act_eq (u := told) rfl h.handedOff h.prepares hstart rfl
  refine ⟨started, ?_⟩
  simp only [System.run_cons, System.run_nil, handoffSystem, World.step]
  rw [hfirst, Option.bind_some]
  simp only [hsecond, hthird, Option.bind_some]

/-! ## The task -/

/-- The router with one task. -/
def World.tasked (s : World) (u : Updater) (tag : String) (phase : PreparePhase) (dir : StateDir) :
    World :=
  { s with dir, process := some ⟨u, [⟨tag, phase⟩]⟩ }

variable {u : Updater} {tag : String} {d : StateDir}

/-- The lock of a worker that is gone is out of the way. -/
theorem run_recover
    (hlive :
      workerLive ((s.tasked u tag .checkLive d).observe install others) install.stateDir = false)
    (hstarting : workerStarting ((s.tasked u tag .checkLive d).observe install others) = false) :
    ∃ lockPid, (handoffSystem semver install arch others).run (s.tasked u tag .waiting d)
        (if d.lock then List.replicate 4 (.prepare 0 .go) else [.prepare 0 .go]) =
      some (s.tasked u tag .removeOld { d with made := true, lock := false, lockPid }) := by
  have hfirst : (handoffSystem semver install arch others).step (s.tasked u tag .waiting d)
      (.prepare 0 .go) = some (s.tasked u tag (if d.lock then .checkLive else .removeOld)
        { d with made := true }) := rfl
  cases hlock : d.lock with
  | false =>
    refine ⟨d.lockPid, ?_⟩
    simp only [Bool.false_eq_true, if_false, System.run_cons, System.run_nil, hfirst,
      Option.bind_some]
    simp [hlock, World.tasked]
  | true =>
    have hsecond : (handoffSystem semver install arch others).step
        (s.tasked u tag .checkLive { d with made := true }) (.prepare 0 .go) =
          some (s.tasked u tag .removeLockPid { d with made := true }) := by
      refine (if_neg ?_).trans rfl
      rw [Bool.or_eq_true, not_or]
      exact ⟨Bool.eq_false_iff.mp hlive, Bool.eq_false_iff.mp hstarting⟩
    have hthird : (handoffSystem semver install arch others).step
        (s.tasked u tag .removeLockPid { d with made := true }) (.prepare 0 .go) =
          some (s.tasked u tag .removeLock { d with made := true, lockPid := false }) := rfl
    have hfourth : (handoffSystem semver install arch others).step
        (s.tasked u tag .removeLock { d with made := true, lockPid := false }) (.prepare 0 .go) =
          some (s.tasked u tag .removeOld
            { d with made := true, lock := false, lockPid := false }) := by
      refine (if_pos ?_).trans rfl
      simp [World.tasked, hlock]
    refine ⟨false, ?_⟩
    rw [if_pos rfl, List.replicate_succ, System.run_cons, hfirst, if_pos hlock, Option.bind_some,
      List.replicate_succ, System.run_cons, hsecond, Option.bind_some, List.replicate_succ,
      System.run_cons, hthird, Option.bind_some, List.replicate_succ, System.run_cons, hfourth]
    rfl

/-- The sections of the task behind `recover_stale`, up to its worker. -/
def launchActions (isDir : Bool) (hex : String) (pid : Nat) : List Action :=
  [.prepare 0 (.old isDir), .prepare 0 (.name hex)] ++ List.replicate 4 (.prepare 0 .go) ++
    [.prepare 0 (.fork pid)]

/-- A worker is launched. -/
theorem run_launch (hquiet : s.Quiet) (isDir : Bool) (hex : String) {pid : Nat}
    (hpid : 1 < pid ∧ pid < 2 ^ 22) :
    ∃ t, (handoffSystem semver install arch others).run (s.tasked u tag .removeOld d)
        (launchActions isDir hex pid) = some t ∧ t.dir.lock = d.lock ∧
      t.workers = s.workers ++
        [.launch pid tag (install.binDir ++ "/.tgwsproxy-update." ++ hex)] := by
  have hold : ∃ cleared, (handoffSystem semver install arch others).step
      (s.tasked u tag .removeOld d) (.prepare 0 (.old isDir)) =
        some (s.tasked u tag .makePayload cleared) ∧ cleared.lock = d.lock := by
    cases hpayload : d.payload with
    | none =>
      refine ⟨d, ?_, rfl⟩
      simp [handoffSystem, World.step, World.tasked, World.prepare, World.proceed, hpayload]
    | some old =>
      by_cases hpath : (isPayload install.binDir old && isDir) = true
      · refine ⟨{ d with removed := old :: d.removed }, ?_, rfl⟩
        simp [handoffSystem, World.step, World.tasked, World.prepare, World.proceed, hpayload,
          hpath]
      · refine ⟨d, ?_, rfl⟩
        simp [handoffSystem, World.step, World.tasked, World.prepare, World.proceed, hpayload,
          hpath]
  obtain ⟨cleared, hold, hlock⟩ := hold
  let named := install.binDir ++ "/.tgwsproxy-update." ++ hex
  let written : StateDir := { cleared with
    payload := some named
    stage := some "installing\n"
    stageTime := s.now
    target := some (tag ++ "\n") }
  have hname : (handoffSystem semver install arch others).run
      (s.tasked u tag .makePayload cleared)
        ([.prepare 0 (.name hex)] ++ List.replicate 4 (.prepare 0 .go)) =
      some (s.tasked u tag (.fork named) written) := rfl
  have hfork :
      (handoffSystem semver install arch others).step (s.tasked u tag (.fork named) written)
      (.prepare 0 (.fork pid)) =
        some { s.tasked u tag (.exec named pid s.workers.length) written with
        workers := s.workers ++ [.launch pid tag named] } :=
    if_pos ⟨hpid.1, hpid.2, List.all_eq_true.mpr fun w hw => by simp [hquiet w hw]⟩
  refine ⟨{ s.tasked u tag (.exec named pid s.workers.length) written with
    workers := s.workers ++ [.launch pid tag named] }, ?_, hlock, rfl⟩
  rw [launchActions, List.cons_append, List.cons_append, System.run_cons, hold, Option.bind_some,
    System.run_append, hname, Option.bind_some, System.run_cons, hfork]
  rfl

/-- Wherever the service and its worker have been killed, and whatever is left behind: ten seconds
later a service that is started launches the next update, and the worker finds no lock. -/
theorem recoveryLaunches (hplain : semver.Plain) (hothers : Foreign install others)
    (hprocess : s.process = none) (hquiet : s.Quiet)
    (hage : s.dir.stageTime + seconds 10 ≤ s.now) {release : Release}
    (havailable : releaseAvailable semver release arch = .ok true) (now : Nat) (isDir : Bool)
    (hex : String) {pid : Nat} (hpid : 1 < pid ∧ pid < 2 ^ 22) :
    ∃ t, (handoffSystem semver install arch others).run s
        ([.boot, .check true now, .checked (.ok release) now, .start] ++
          (if s.dir.lock then List.replicate 4 (.prepare 0 .go) else [.prepare 0 .go]) ++
          launchActions isDir hex pid) = some t ∧ t.dir.lock = false ∧
      t.workers = s.workers ++
        [.launch pid release.tagName (install.binDir ++ "/.tgwsproxy-update." ++ hex)] := by
  obtain ⟨harch, htag, version, hversion⟩ := tag_of_releaseAvailable hplain havailable
  obtain ⟨hlive, hstarting⟩ := not_live_of_quiet hothers hquiet hage
  let u := Updater.new semver (some install) arch s.dir.made (s.observe install others)
  have hidle : Idle u := new_idle rfl hlive hstarting
  have hsupported : u.info.supported = true :=
    (Updater.status_frame semver _ _).2.2.2.2.2.2.trans (by rw [harch]; rfl)
  have harch' : u.arch = arch := (Updater.status_frame semver _ _).2.2.1
  have hboot : (handoffSystem semver install arch others).step s .boot =
      some { s with process := some ⟨u, []⟩ } := by
    simp only [handoffSystem, World.step, hprocess, u]
  have hask : ∃ v, (handoffSystem semver install arch others).run { s with process := some ⟨u, []⟩ }
      [.check true now, .checked (.ok release) now, .start] =
        some (s.tasked v release.tagName .waiting s.dir) :=
    hidle.run_ask rfl hsupported (harch' ▸ havailable) htag hversion now
  obtain ⟨v, hask⟩ := hask
  have hrecover : ∃ lockPid, (handoffSystem semver install arch others).run
      (s.tasked v release.tagName .waiting s.dir)
        (if s.dir.lock then List.replicate 4 (.prepare 0 .go) else [.prepare 0 .go]) =
      some (s.tasked v release.tagName .removeOld
        { s.dir with made := true, lock := false, lockPid }) :=
    run_recover hlive hstarting
  obtain ⟨lockPid, hrecover⟩ := hrecover
  have hlaunch : ∃ t, (handoffSystem semver install arch others).run
      (s.tasked v release.tagName .removeOld { s.dir with made := true, lock := false, lockPid })
        (launchActions isDir hex pid) = some t ∧ t.dir.lock = false ∧
      t.workers = s.workers ++
        [.launch pid release.tagName (install.binDir ++ "/.tgwsproxy-update." ++ hex)] :=
    run_launch hquiet isDir hex hpid
  obtain ⟨t, hrun, hlock, hworkers⟩ := hlaunch
  refine ⟨t, ?_, hlock, hworkers⟩
  rw [List.append_assoc, List.cons_append, System.run_cons, hboot, Option.bind_some,
    System.run_append, hask, Option.bind_some, System.run_append, hrecover, Option.bind_some, hrun]

/-- The worker has been killed behind its lock, with the service. -/
def killedActions : List Action :=
  updateActions.take 19 ++ [.worker 0 .kill, .kill false]

/-- A run whose worker is killed, and the update that is launched ten seconds on. -/
theorem recoveryLaunches_killed :
    ∃ s t, entwareSystem.run {} (killedActions ++ [.tick (seconds 10)]) = some s ∧
      s.dir.lock = true ∧ s.dir.lockPid = true ∧
      entwareSystem.run s
        ([.boot, .check true 0, .checked (.ok nextRelease) 0, .start] ++
          (if s.dir.lock then List.replicate 4 (.prepare 0 .go) else [.prepare 0 .go]) ++
          launchActions true "ff02" 4300) = some t ∧ t.dir.lock = false := by
  obtain ⟨s, hrun, hcheck⟩ := entwareSystem.exists_of_run {} (killedActions ++ [.tick (seconds 10)])
    (fun s => (s.dir.lock = true ∧ s.dir.lockPid = true) ∧ s.process.isNone = true ∧
      s.workers.all (·.phase = .gone) = true ∧ s.dir.stageTime + seconds 10 ≤ s.now)
    (by decide +kernel)
  rw [decide_eq_true_eq] at hcheck
  obtain ⟨hlock, hprocess, hquiet, hage⟩ := hcheck
  have hothers : Foreign entware fun _ => [] := fun _ => rfl
  have hgone : s.Quiet := fun w hw => of_decide_eq_true (List.all_eq_true.mp hquiet w hw)
  have havailable : releaseAvailable releaseSemver nextRelease (some "mipsel") = .ok true := by
    decide +kernel
  obtain ⟨t, hrun', hfree, -⟩ := recoveryLaunches plain_releaseSemver hothers
    (Option.isNone_iff_eq_none.mp hprocess) hgone hage havailable 0 true "ff02"
    (show 1 < 4300 ∧ 4300 < 2 ^ 22 by decide)
  exact ⟨s, t, hrun, hlock.1, hlock.2, hrun', hfree⟩

end TgWsProxy.Update
