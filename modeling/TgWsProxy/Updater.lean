import Mathlib.Algebra.Group.Nat.Defs
import TgWsProxy.Config
import TgWsProxy.Core.Transition

/-!
# The updater

`update.rs`: the release check, the installation and the detached worker that takes over, as
`status`, `check` and `start` and the ends of their tasks see them. Each section that holds the
lock is one step. `semver` is a parameter; what the worker has left in its directory is read
anew by every `status`.
-/

namespace TgWsProxy

open TgWsProxy.Core

/-- The parts of `semver` that the program calls. -/
structure Semver where
  Version : Type
  parse : String → Option Version
  pre : Version → String
  build : Version → String
  cmp : Version → Version → Ordering
  /-- `CURRENT`, parsed. -/
  current : Version

/-- A version does not start with the letter of a tag. -/
def Semver.Plain (semver : Semver) : Prop :=
  ∀ text version, semver.parse text = some version → text.toList.head? ≠ some 'v'

/-- `CARGO_PKG_VERSION`. -/
def currentVersion : String := "2.3.1"

/-- `REPO`. -/
def repo : String := "Omn1z/tg-ws-keenetic"

/-- `MAX_ARCHIVE`. -/
def maxArchive : Nat := 32 * 1024 * 1024

/-- The values of `stage`. -/
inductive Stage
  | idle
  | checking
  | downloading
  | installing
  | restarting
  | complete
  | error
  deriving DecidableEq, Repr

/-- `Info`. -/
structure Info where
  current : String := currentVersion
  latest : Option String := none
  available : Bool := false
  supported : Bool
  checking : Bool := false
  running : Bool := false
  stage : Stage := .idle
  error : Option String := none
  checkedAt : Option Nat := none
  url : Option String := none

/-- `Installation`. -/
structure Installation where
  system : String
  binDir : String
  stateDir : String
  template : String

/-- `Asset`. -/
structure Asset where
  name : String
  size : UInt64

/-- `Release`. -/
structure Release where
  tagName : String
  draft : Bool := false
  prerelease : Bool := false
  assets : List Asset := []

/-! ## Versions -/

/-- `strip_prefix('v')`, or the tag itself. -/
def stripTag (tag : String) : String :=
  match tag.toList with
  | 'v' :: rest => String.ofList rest
  | _ => tag

/-- `trim_start_matches('v')`. -/
def trimTag (tag : String) : String := String.ofList (tag.toList.dropWhile (· = 'v'))

section

variable (semver : Semver)

/-- `release_version`. -/
def releaseVersion (tag : String) : Except IoError semver.Version :=
  match semver.parse (stripTag tag) with
  | none => .error (Config.invalid "Некорректная версия релиза")
  | some value =>
    if semver.pre value ≠ "" ∨ semver.build value ≠ "" ∨ tag.utf8ByteSize > 64 then
      .error (Config.invalid "Нужен стабильный релиз в формате vX.Y.Z")
    else .ok value

/-- There is one package of this name, of a size that is taken. -/
def checkAsset (release : Release) (name : String) : Except IoError Unit :=
  match release.assets.filter (·.name = name) with
  | [asset] =>
    if asset.size = 0 ∨ asset.size.toNat > maxArchive then
      .error (Config.invalid s!"В релизе нет готового пакета: {name}")
    else .ok ()
  | _ => .error (Config.invalid s!"В релизе нет готового пакета: {name}")

/-- `release_available`. -/
def releaseAvailable (release : Release) (arch : Option String) : Except IoError Bool := do
  let latest ← releaseVersion semver release.tagName
  if release.tagName.toList.head? ≠ some 'v' ∨ release.draft ∨ release.prerelease then
    .error (Config.invalid "Релиз ещё не опубликован как стабильный")
  else if semver.cmp latest semver.current ≠ .gt then .ok false
  else
    match arch with
    | none => .ok false
    | some arch =>
      let _ ← [s!"tgwsproxy-{arch}.tar.gz", "SHA256SUMS"].forM (checkAsset release)
      .ok true

/-- `release`, of what came from GitHub. -/
def fetchedRelease (response : Except IoError Release) (arch : Option String) :
    Except IoError Release := do
  let release ← response
  let _ ← releaseAvailable semver release arch
  .ok release

end

/-! ## The directory of the worker -/

/-- A file as its metadata and a later reading show it. -/
structure Entry where
  isFile : Bool
  len : Nat
  text : Option String

/-- `small_file`. -/
def smallFile (entry : Option Entry) (max : Nat) : Option String :=
  match entry with
  | none => none
  | some entry =>
    if !entry.isFile || entry.len > max then none
    else entry.text.map fun text => String.ofList (trim text.toList)

/-- What one `status` finds in the directory, in the order of its readings. -/
structure WorkerFiles where
  /-- `private_dir` succeeds. -/
  isPrivate : Bool
  stage : Option Entry
  target : Option Entry
  pid : Option Entry
  /-- The command line of each process, with a zero byte between arguments. -/
  cmdline : Nat → Bytes
  /-- The stage again, and the time since it was written. -/
  stageAgain : Option Entry
  stageAge : Option Nat

/-- `worker_live`. -/
def workerLive (files : WorkerFiles) (dir : String) : Bool :=
  match (smallFile files.pid 20).bind fun text => (parseUnsigned (2 ^ 32) text).toOption with
  | none => false
  | some pid =>
    1 < pid && ((files.cmdline pid).splitOn 0).contains (dir ++ "/worker.sh").toUTF8.data.toList

/-- `worker_starting`. -/
def workerStarting (files : WorkerFiles) : Bool :=
  (smallFile files.stageAgain 32).any (fun stage => stage = "installing" || stage = "restarting") &&
    files.stageAge.any (· < seconds 10)

/-! ## The state machine -/

/-- An `Updater`, with its tasks. -/
structure Updater where
  info : Info
  handedOff : Bool
  installation : Option Installation
  arch : Option String
  /-- The number of release checks under way. -/
  checks : Nat := 0
  /-- The tags that are being prepared. -/
  prepares : List String := []
  /-- A section has panicked. -/
  poisoned : Bool := false

/-- What happens to an updater. -/
inductive UpdaterAction
  | status (files : WorkerFiles)
  /-- `check` after its `status`. -/
  | check (force : Bool) (now : Nat)
  /-- `start` after its `status`. -/
  | start
  /-- The end of a check. -/
  | checked (response : Except IoError Release) (now : Nat)
  /-- The end of `prepare`, which has launched the worker or has failed. -/
  | prepared (tag : String) (outcome : Except IoError Unit)

section

variable (semver : Semver)

/-- The latest version is newer than this one. -/
def isNewer (latest : Option String) : Bool :=
  match latest with
  | none => false
  | some latest =>
    match releaseVersion semver latest with
    | .error _ => false
    | .ok version => semver.cmp version semver.current = .gt

/-- `status`. -/
def Updater.status (u : Updater) (files : WorkerFiles) : Updater :=
  if !u.handedOff then u
  else
    match u.installation with
    | none => u
    | some install =>
      if !files.isPrivate then
        { u with
          handedOff := false
          info := { u.info with
            running := false
            stage := .error
            error := some "Не удалось прочитать состояние обновления" } }
      else
        let stage := (smallFile files.stage 32).getD ""
        let target := (smallFile files.target 64).filter fun tag =>
          match releaseVersion semver tag with
          | .ok _ => true
          | .error _ => false
        let latest := (target.map trimTag).or u.info.latest
        let info := { u.info with latest, available := isNewer semver latest }
        if stage = "complete" ∨ stage = "error" ∨
            (!workerLive files install.stateDir ∧ !workerStarting files) then
          { u with
            handedOff := false
            info := { info with
              running := false
              stage := if stage = "complete" then .complete else .error
              error := if stage = "complete" then none
                else some "Обновление не завершено. Журнал: tgwsproxy-update/log" } }
        else
          { u with
            info := { info with
              running := true
              stage := if stage = "installing" then .installing else .restarting } }

/-- `new`, where `existing` says that the directory of the worker is there. -/
def Updater.new (installation : Option Installation) (arch : Option String)
    (existing : Bool) (files : WorkerFiles) : Updater :=
  let updater : Updater :=
    { info := { supported := installation.isSome && arch.isSome }
      handedOff := installation.isSome && existing
      installation
      arch }
  updater.status semver files

/-- `check`. -/
def Updater.check (u : Updater) (force : Bool) (now : Nat) : Updater :=
  if u.info.checking || u.info.running ||
      (!force && u.info.checkedAt.any fun t => now - t < 300) then u
  else
    { u with
      checks := u.checks + 1
      info := { u.info with checking := true, stage := .checking, error := none } }

/-- The end of the task of `check`. -/
def Updater.checked (u : Updater) (response : Except IoError Release) (now : Nat) : Updater :=
  let info := { u.info with checking := false, checkedAt := some now, stage := .idle }
  match fetchedRelease semver response u.arch with
  | .ok release =>
    { u with
      checks := u.checks - 1
      info := { info with
        available := (releaseAvailable semver release u.arch).toOption.getD false
        url := some s!"https://github.com/{repo}/releases/tag/{release.tagName}"
        latest := some (trimTag release.tagName) } }
  | .error e =>
    { u with
      checks := u.checks - 1
      info := { info with available := false, error := some e.message } }

/-- `start`, or `none` where it panics for want of a version. -/
def Updater.start (u : Updater) : Option (Except IoError Updater) :=
  if u.info.running then some (.ok u)
  else if !u.info.supported then
    some (.error (Config.invalid
      "Обновление доступно для установленного сервиса OpenWrt/Entware"))
  else if u.info.checking || !u.info.available then
    some (.error (Config.invalid "Сначала дождитесь проверки новой версии"))
  else
    match u.info.latest with
    | none => none
    | some latest =>
      match releaseVersion semver ("v" ++ latest) with
      | .error e => some (.error e)
      | .ok _ =>
        some (.ok { u with
          prepares := u.prepares ++ ["v" ++ latest]
          info := { u.info with running := true, error := none, stage := .downloading } })

/-- The end of the task of `start`. -/
def Updater.prepared (u : Updater) (tag : String) (outcome : Except IoError Unit) : Updater :=
  match outcome with
  | .ok () =>
    { u with
      prepares := u.prepares.erase tag
      handedOff := true
      info := { u.info with stage := .installing } }
  | .error e =>
    { u with
      prepares := u.prepares.erase tag
      info := { u.info with running := false, stage := .error, error := some e.message } }

/-- The effect of one step, nothing after a panic. -/
def Updater.step (u : Updater) (action : UpdaterAction) : Option Updater :=
  if u.poisoned then none
  else
    match action with
    | .status files => some (u.status semver files)
    | .check force now => some (u.check force now)
    | .start =>
      match u.start semver with
      | none => some { u with poisoned := true }
      | some (.error _) => some u
      | some (.ok u) => some u
    | .checked response now => if 0 < u.checks then some (u.checked semver response now) else none
    | .prepared tag outcome =>
      if tag ∈ u.prepares then some (u.prepared tag outcome) else none

/-- An updater from the return of `new` on. -/
def updaterSystem : System Updater UpdaterAction where
  start u := ∃ installation arch existing files,
    u = Updater.new semver installation arch existing files
  step := Updater.step semver

end

/-! ## Tags and versions -/

/-- A stable version above the current one. -/
def Semver.Upgrade (semver : Semver) (text : String) : Prop :=
  ∃ version, semver.parse text = some version ∧ semver.pre version = "" ∧
    semver.build version = "" ∧ semver.cmp version semver.current = .gt

/-- A trimmed tag does not begin with a `v`. -/
theorem head?_trimTag (tag : String) : (trimTag tag).toList.head? ≠ some 'v' := by
  rw [trimTag, String.toList_ofList]
  have hhead := List.head?_dropWhile_not (· = 'v') tag.toList
  intro h
  rw [h] at hhead
  simp at hhead

private theorem stripTag_of_head {tag : String} (h : tag.toList.head? ≠ some 'v') :
    stripTag tag = tag := by
  rw [stripTag]
  split
  · next heq => simp [heq] at h
  · rfl

/-- Where the stripped tag is a version, one letter is all there is to trim. -/
theorem trimTag_eq_stripTag {tag : String} (h : (stripTag tag).toList.head? ≠ some 'v') :
    trimTag tag = stripTag tag := by
  rw [stripTag] at h ⊢
  rw [trimTag]
  split
  · next rest heq =>
    rw [heq] at h
    simp only [String.toList_ofList] at h
    rw [heq, List.dropWhile_cons_of_pos (by simp)]
    cases rest with
    | nil => rfl
    | cons c rest =>
      rw [List.dropWhile_cons_of_neg]
      simpa using h
  · next hne =>
    have hdrop : tag.toList.dropWhile (· = 'v') = tag.toList := by
      cases htag : tag.toList with
      | nil => rfl
      | cons c rest =>
        rw [List.dropWhile_cons_of_neg]
        intro hc
        exact hne rest (by rw [htag, of_decide_eq_true hc])
    rw [hdrop, String.ofList_toList]

section

variable {semver : Semver}

/-- The tags that `release_version` takes. -/
theorem releaseVersion_eq_ok {tag : String} {version : semver.Version} :
    releaseVersion semver tag = .ok version ↔ semver.parse (stripTag tag) = some version ∧
      semver.pre version = "" ∧ semver.build version = "" ∧ tag.utf8ByteSize ≤ 64 := by
  rw [releaseVersion]
  cases hparse : semver.parse (stripTag tag) with
  | none => simp
  | some value =>
    dsimp only
    split
    · next hbad =>
      refine iff_of_false nofun ?_
      rintro ⟨hvalue, hpre, hbuild, hsize⟩
      obtain rfl := Option.some.inj hvalue
      rcases hbad with hbad | hbad | hbad
      · exact hbad hpre
      · exact hbad hbuild
      · omega
    · next hgood =>
      simp only [not_or, not_not, not_lt] at hgood
      constructor
      · intro h
        obtain rfl := Except.ok.inj h
        exact ⟨rfl, hgood⟩
      · rintro ⟨hvalue, -⟩
        rw [Option.some.inj hvalue]

/-- What is newer is an upgrade. -/
theorem upgrade_of_isNewer {latest : Option String}
    (hplain : ∀ text ∈ latest, text.toList.head? ≠ some 'v') (h : isNewer semver latest = true) :
    ∃ text ∈ latest, semver.Upgrade text := by
  cases latest with
  | none => cases h
  | some text =>
    unfold isNewer at h
    refine ⟨text, rfl, ?_⟩
    cases hversion : releaseVersion semver text with
    | error e => simp [hversion] at h
    | ok version =>
      simp only [hversion, decide_eq_true_eq] at h
      obtain ⟨hparse, hpre, hbuild, -⟩ := releaseVersion_eq_ok.mp hversion
      rw [stripTag_of_head (hplain text rfl)] at hparse
      exact ⟨version, hparse, hpre, hbuild, h⟩

/-- A release that is available is one to upgrade to. -/
theorem upgrade_of_releaseAvailable (hplain : semver.Plain) {release : Release}
    (arch : Option String) (h : releaseAvailable semver release arch = .ok true) :
    semver.Upgrade (trimTag release.tagName) := by
  unfold releaseAvailable at h
  obtain ⟨version, hversion, h⟩ := bind_eq_ok.mp h
  obtain ⟨hparse, hpre, hbuild, -⟩ := releaseVersion_eq_ok.mp hversion
  split at h
  · cases h
  · split at h
    · cases h
    · next hgt =>
      rw [trimTag_eq_stripTag (hplain _ _ hparse)]
      exact ⟨version, hparse, hpre, hbuild, not_not.mp hgt⟩

end

end TgWsProxy
