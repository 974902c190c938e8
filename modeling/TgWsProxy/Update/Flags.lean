import TgWsProxy.Updater

/-!
# The flags of the updater

A check and an installation exclude each other, a task ends what it has begun, and what is offered
is an upgrade. `Sound` holds from the start, `Safe` from the first `status` on.
-/

namespace TgWsProxy

open TgWsProxy.Core

section

variable {semver : Semver}

/-! ## The flags -/

/-- What holds before the first `status` as well. -/
structure Updater.Sound (semver : Semver) (u : Updater) : Prop where
  alive : u.poisoned = false
  supported : u.info.supported = (u.installation.isSome && u.arch.isSome)
  checks : u.checks = if u.info.checking then 1 else 0
  exclusive : u.info.checking = true → u.info.running = false
  handed : u.handedOff = true →
    u.info.checking = false ∧ u.installation.isSome = true ∧ u.prepares = []
  preparing : u.prepares ≠ [] → u.info.running = true ∧ u.info.supported = true
  single : u.prepares.length ≤ 1
  plain : ∀ latest ∈ u.info.latest, latest.toList.head? ≠ some 'v'
  available : u.info.available = true → ∃ latest ∈ u.info.latest, semver.Upgrade latest
  tags : ∀ tag ∈ u.prepares, ∃ latest, tag = "v" ++ latest ∧ semver.Upgrade latest

/-- What holds from then on. -/
structure Updater.Safe (semver : Semver) (u : Updater) : Prop extends u.Sound semver where
  handedOff : u.handedOff = true → u.info.running = true

variable (semver) in
/-- What `status` finds about the version. -/
theorem Updater.status_latest (u : Updater) (files : WorkerFiles) :
    ((u.status semver files).info.latest = u.info.latest ∧
      (u.status semver files).info.available = u.info.available) ∨
    (u.status semver files).info.available = isNewer semver (u.status semver files).info.latest ∧
      ∃ target : Option String,
        (u.status semver files).info.latest = (target.map trimTag).or u.info.latest := by
  unfold Updater.status
  split
  · exact .inl ⟨rfl, rfl⟩
  · split
    · exact .inl ⟨rfl, rfl⟩
    · split
      · exact .inl ⟨rfl, rfl⟩
      · dsimp only
        split <;> exact .inr ⟨rfl, _, rfl⟩

variable (semver) in
/-- A handed-off installation runs, or is over. -/
theorem Updater.status_running {u : Updater} (files : WorkerFiles) (hhanded : u.handedOff = true)
    (hinstall : u.installation.isSome = true) :
    (u.status semver files).info.running = (u.status semver files).handedOff := by
  obtain ⟨install, hinstall⟩ := Option.isSome_iff_exists.mp hinstall
  unfold Updater.status
  rw [hhanded, hinstall]
  split
  · next h => cases h
  · dsimp only
    split
    · rfl
    · split
      · rfl
      · rfl

/-- Without a handed-off installation there is nothing to look at. -/
theorem Updater.status_of_not_handedOff {u : Updater} (files : WorkerFiles)
    (h : u.handedOff = false) : u.status semver files = u := by
  rw [Updater.status, h]
  rfl

variable (semver) in
/-- The rest is as it was. -/
theorem Updater.status_frame (u : Updater) (files : WorkerFiles) :
    (u.status semver files).poisoned = u.poisoned ∧
      (u.status semver files).installation = u.installation ∧
      (u.status semver files).arch = u.arch ∧ (u.status semver files).checks = u.checks ∧
      (u.status semver files).prepares = u.prepares ∧
      (u.status semver files).info.checking = u.info.checking ∧
      (u.status semver files).info.supported = u.info.supported := by
  unfold Updater.status
  split
  · simp
  · split
    · simp
    · split
      · simp
      · dsimp only
        split <;> simp

/-- The first `status` makes a sound updater safe. -/
theorem Updater.Sound.status {u : Updater} (h : u.Sound semver) (files : WorkerFiles) :
    (u.status semver files).Safe semver := by
  cases hhanded : u.handedOff with
  | false =>
    rw [Updater.status_of_not_handedOff files hhanded]
    exact ⟨h, fun hcontra => absurd (hhanded.symm.trans hcontra) Bool.false_ne_true⟩
  | true =>
    obtain ⟨hchecking, hinstall, hprepares⟩ := h.handed hhanded
    obtain ⟨hpoisoned, hinstallation, harch, hchecks, hprepares', hchecking', hsupported⟩ :=
      u.status_frame semver files
    have hrunning := Updater.status_running semver files hhanded hinstall
    have hplain : ∀ latest ∈ (u.status semver files).info.latest,
        latest.toList.head? ≠ some 'v' := by
      obtain ⟨hlatest, -⟩ | ⟨-, target, hlatest⟩ := u.status_latest semver files
      · rw [hlatest]
        exact h.plain
      · rw [hlatest]
        cases target with
        | none => exact h.plain
        | some tag =>
          rintro latest hmem
          obtain rfl := Option.some.inj hmem
          exact head?_trimTag tag
    constructor
    · constructor
      · rw [hpoisoned, h.alive]
      · rw [hsupported, hinstallation, harch, h.supported]
      · rw [hchecks, hchecking', h.checks]
      · rw [hchecking', hchecking]
        nofun
      · rw [hchecking', hinstallation, hprepares']
        exact fun _ => ⟨hchecking, hinstall, hprepares⟩
      · rw [hprepares', hprepares]
        exact fun hne => absurd rfl hne
      · rw [hprepares']
        exact h.single
      · exact hplain
      · intro havailable
        obtain ⟨hlatest, hsame⟩ | ⟨hnewer, -⟩ := u.status_latest semver files
        · rw [hlatest]
          exact h.available (hsame.symm.trans havailable)
        · exact upgrade_of_isNewer hplain (hnewer.symm.trans havailable)
      · rw [hprepares']
        exact h.tags
    · exact fun hstill => hrunning.trans hstill

/-- A new updater is safe, whatever the last one has left. -/
theorem Updater.Safe.new (installation : Option Installation) (arch : Option String)
    (existing : Bool) (files : WorkerFiles) :
    (Updater.new semver installation arch existing files).Safe semver := by
  apply Updater.Sound.status
  constructor
  · rfl
  · rfl
  · rfl
  · nofun
  · exact fun h => ⟨rfl, (Bool.and_eq_true_iff.mp h).1, rfl⟩
  · exact fun h => absurd rfl h
  · exact Nat.zero_le 1
  · nofun
  · nofun
  · nofun

/-- `check` keeps it safe. -/
theorem Updater.Safe.check {u : Updater} (h : u.Safe semver) (force : Bool) (now : Nat) :
    (u.check force now).Safe semver := by
  rw [Updater.check]
  split
  · exact h
  · next hidle =>
    simp only [Bool.or_eq_true, not_or, Bool.not_eq_true] at hidle
    obtain ⟨⟨hchecking, hrunning⟩, -⟩ := hidle
    have hhanded : ¬u.handedOff = true := fun hhanded => by
      rw [h.handedOff hhanded] at hrunning
      cases hrunning
    exact {
      alive := h.alive
      supported := h.supported
      checks := by rw [h.checks, hchecking]; rfl
      exclusive := fun _ => hrunning
      handed := fun hcontra => absurd hcontra hhanded
      preparing := h.preparing
      single := h.single
      plain := h.plain
      available := h.available
      tags := h.tags
      handedOff := fun hcontra => absurd hcontra hhanded }

/-- So does the end of a check. -/
theorem Updater.Safe.checked (hplain : semver.Plain) {u : Updater} (h : u.Safe semver)
    (hchecks : 0 < u.checks) (response : Except IoError Release) (now : Nat) :
    (u.checked semver response now).Safe semver := by
  have hchecking : u.info.checking = true := by
    by_contra hchecking
    rw [h.checks, if_neg hchecking] at hchecks
    exact absurd hchecks (lt_irrefl 0)
  have hrunning := h.exclusive hchecking
  have hhanded : ¬u.handedOff = true := fun hhanded => by
    rw [h.handedOff hhanded] at hrunning
    cases hrunning
  have hone : u.checks - 1 = 0 := by
    rw [h.checks, if_pos hchecking]
  unfold Updater.checked
  cases hrelease : fetchedRelease semver response u.arch with
  | error e =>
    exact {
      alive := h.alive
      supported := h.supported
      checks := hone
      exclusive := nofun
      handed := fun hcontra => absurd hcontra hhanded
      preparing := h.preparing
      single := h.single
      plain := h.plain
      available := nofun
      tags := h.tags
      handedOff := fun hcontra => absurd hcontra hhanded }
  | ok release =>
    exact {
      alive := h.alive
      supported := h.supported
      checks := hone
      exclusive := nofun
      handed := fun hcontra => absurd hcontra hhanded
      preparing := h.preparing
      single := h.single
      plain := by
        intro latest hmem
        obtain rfl := Option.some.inj hmem
        exact head?_trimTag _
      available := by
        intro havailable
        refine ⟨_, rfl, upgrade_of_releaseAvailable hplain u.arch ?_⟩
        dsimp only at havailable
        cases hresult : releaseAvailable semver release u.arch with
        | error e => simp [hresult, Except.toOption] at havailable
        | ok b => simpa [hresult, Except.toOption] using havailable
      tags := h.tags
      handedOff := fun hcontra => absurd hcontra hhanded }

/-- `start` does not panic. -/
theorem Updater.Safe.start_ne_none {u : Updater} (h : u.Safe semver) : u.start semver ≠ none := by
  unfold Updater.start
  split
  · simp
  · split
    · simp
    · split
      · simp
      · next hready =>
        simp only [Bool.or_eq_true, Bool.not_eq_true', not_or, Bool.not_eq_false] at hready
        obtain ⟨latest, hlatest, -⟩ := h.available hready.2
        rw [Option.mem_def.mp hlatest]
        dsimp only
        split <;> simp

/-- A `start` that begins an installation finds no other. -/
theorem Updater.Safe.start_cases {u u' : Updater} (h : u.Safe semver)
    (hstart : u.start semver = some (.ok u')) :
    u' = u ∨ u.prepares = [] ∧ u.handedOff = false ∧ u.info.checking = false ∧
      u.info.supported = true ∧ ∃ latest ∈ u.info.latest, semver.Upgrade latest ∧
        u' = { u with
          prepares := ["v" ++ latest]
          info := { u.info with running := true, error := none, stage := .downloading } } := by
  unfold Updater.start at hstart
  split at hstart
  · exact .inl (Except.ok.inj (Option.some.inj hstart)).symm
  · next hrunning =>
    split at hstart
    · cases hstart
    · next hsupported =>
      split at hstart
      · cases hstart
      · next hready =>
        simp only [Bool.or_eq_true, Bool.not_eq_true', not_or, Bool.not_eq_false,
          Bool.not_eq_true] at hsupported hready
        obtain ⟨latest, hlatest, hupgrade⟩ := h.available hready.2
        rw [Option.mem_def.mp hlatest] at hstart
        dsimp only at hstart
        split at hstart
        · cases hstart
        · have hprepares : u.prepares = [] := by
            by_contra hne
            exact hrunning (h.preparing hne).1
          have hhanded : u.handedOff = false := by
            by_contra hne
            exact hrunning (h.handedOff ((Bool.not_eq_false _).mp hne))
          rw [hprepares, List.nil_append] at hstart
          exact .inr ⟨hprepares, hhanded, hready.1, hsupported, latest, hlatest, hupgrade,
            (Except.ok.inj (Option.some.inj hstart)).symm⟩

/-- So does `start`. -/
theorem Updater.Safe.start {u u' : Updater} (h : u.Safe semver)
    (hstart : u.start semver = some (.ok u')) : u'.Safe semver := by
  obtain rfl | ⟨-, hhanded, hchecking, hsupported, latest, -, hupgrade, rfl⟩ :=
    h.start_cases hstart
  · exact h
  · have hnot : ¬u.handedOff = true := by
      rw [hhanded]
      exact Bool.false_ne_true
    exact {
      alive := h.alive
      supported := h.supported
      checks := h.checks
      exclusive := fun hcontra => absurd (hchecking.symm.trans hcontra) Bool.false_ne_true
      handed := fun hcontra => absurd hcontra hnot
      preparing := fun _ => ⟨rfl, hsupported⟩
      single := le_refl 1
      plain := h.plain
      available := h.available
      tags := by
        intro tag htag
        exact ⟨latest, List.mem_singleton.mp htag, hupgrade⟩
      handedOff := fun hcontra => absurd hcontra hnot }

/-- So does the end of a preparation. -/
theorem Updater.Safe.prepared {u : Updater} (h : u.Safe semver) {tag : String}
    (htag : tag ∈ u.prepares) (outcome : Except IoError Unit) :
    (u.prepared tag outcome).Safe semver := by
  obtain ⟨hrunning, hsupported⟩ := h.preparing (List.ne_nil_of_mem htag)
  have hchecking : ¬u.info.checking = true := fun hchecking => by
    rw [h.exclusive hchecking] at hrunning
    cases hrunning
  have hhanded : ¬u.handedOff = true := fun hhanded => by
    rw [(h.handed hhanded).2.2] at htag
    cases htag
  have hempty : u.prepares.erase tag = [] := by
    apply List.length_eq_zero_iff.mp
    rw [List.length_erase_of_mem htag]
    have := h.single
    omega
  have hinstall : u.installation.isSome = true := by
    rw [h.supported] at hsupported
    exact (Bool.and_eq_true_iff.mp hsupported).1
  cases outcome with
  | error e =>
    exact {
      alive := h.alive
      supported := h.supported
      checks := h.checks
      exclusive := fun _ => rfl
      handed := fun hcontra => absurd hcontra hhanded
      preparing := fun hne => absurd hempty hne
      single := by rw [Updater.prepared, hempty]; exact Nat.zero_le 1
      plain := h.plain
      available := h.available
      tags := by rw [Updater.prepared, hempty]; nofun
      handedOff := fun hcontra => absurd hcontra hhanded }
  | ok =>
    exact {
      alive := h.alive
      supported := h.supported
      checks := h.checks
      exclusive := fun hcontra => absurd hcontra hchecking
      handed := fun _ => ⟨(Bool.not_eq_true _).mp hchecking, hinstall, hempty⟩
      preparing := fun hne => absurd hempty hne
      single := by rw [Updater.prepared, hempty]; exact Nat.zero_le 1
      plain := h.plain
      available := h.available
      tags := by rw [Updater.prepared, hempty]; nofun
      handedOff := fun _ => hrunning }

/-- Every section keeps the updater safe. -/
theorem Updater.Safe.step (hplain : semver.Plain) {u t : Updater} (h : u.Safe semver)
    {action : UpdaterAction} (hstep : u.step semver action = some t) : t.Safe semver := by
  unfold Updater.step at hstep
  rw [h.alive, if_neg Bool.false_ne_true] at hstep
  cases action with
  | status files =>
    obtain rfl := Option.some.inj hstep
    exact h.toSound.status files
  | check force now =>
    obtain rfl := Option.some.inj hstep
    exact h.check force now
  | start =>
    cases hstart : u.start semver with
    | none => exact absurd hstart h.start_ne_none
    | some result =>
      simp only [hstart] at hstep
      cases result with
      | error e =>
        obtain rfl := Option.some.inj hstep
        exact h
      | ok u' =>
        obtain rfl := Option.some.inj hstep
        exact h.start hstart
  | checked response now =>
    obtain ⟨hchecks, heq⟩ := Option.ite_none_right_eq_some.mp hstep
    obtain rfl := Option.some.inj heq
    exact h.checked hplain hchecks response now
  | prepared tag outcome =>
    obtain ⟨htag, heq⟩ := Option.ite_none_right_eq_some.mp hstep
    obtain rfl := Option.some.inj heq
    exact h.prepared htag outcome

/-- In every run the updater is safe. -/
theorem Updater.safe (hplain : semver.Plain) {u : Updater}
    (h : (updaterSystem semver).Reachable u) : u.Safe semver := by
  apply h.invariant
  · rintro u ⟨installation, arch, existing, files, rfl⟩
    exact .new installation arch existing files
  · intro u action t hsafe hstep
    exact hsafe.step hplain hstep

/-- A step that begins a preparation finds none under way and nothing handed off. -/
theorem Updater.Safe.begins {u t : Updater} (h : u.Safe semver) {action : UpdaterAction}
    (hstep : u.step semver action = some t) (hmore : u.prepares.length < t.prepares.length) :
    action = .start ∧ u.prepares = [] ∧ u.handedOff = false := by
  unfold Updater.step at hstep
  rw [h.alive, if_neg Bool.false_ne_true] at hstep
  cases action with
  | status files =>
    obtain rfl := Option.some.inj hstep
    obtain ⟨-, -, -, -, hprepares, -⟩ := u.status_frame semver files
    rw [hprepares] at hmore
    exact absurd hmore (lt_irrefl _)
  | check force now =>
    obtain rfl := Option.some.inj hstep
    rw [Updater.check] at hmore
    split at hmore
    · exact absurd hmore (lt_irrefl _)
    · exact absurd hmore (lt_irrefl _)
  | start =>
    cases hstart : u.start semver with
    | none => exact absurd hstart h.start_ne_none
    | some result =>
      simp only [hstart] at hstep
      cases result with
      | error e =>
        obtain rfl := Option.some.inj hstep
        exact absurd hmore (lt_irrefl _)
      | ok u' =>
        obtain rfl := Option.some.inj hstep
        obtain rfl | ⟨hprepares, hhanded, -⟩ := h.start_cases hstart
        · exact absurd hmore (lt_irrefl _)
        · exact ⟨rfl, hprepares, hhanded⟩
  | checked response now =>
    obtain ⟨-, heq⟩ := Option.ite_none_right_eq_some.mp hstep
    obtain rfl := Option.some.inj heq
    unfold Updater.checked at hmore
    split at hmore
    · exact absurd hmore (lt_irrefl _)
    · exact absurd hmore (lt_irrefl _)
  | prepared tag outcome =>
    obtain ⟨-, heq⟩ := Option.ite_none_right_eq_some.mp hstep
    obtain rfl := Option.some.inj heq
    have hfewer := (List.erase_sublist (a := tag) (l := u.prepares)).length_le
    unfold Updater.prepared at hmore
    split at hmore
    · exact absurd hfewer (not_le.mpr hmore)
    · exact absurd hfewer (not_le.mpr hmore)

/-- One thing at a time, and only upwards. -/
structure Updater.Guarded (semver : Semver) (u : Updater) : Prop where
  exclusive : ¬(u.info.checking = true ∧ u.info.running = true)
  handedOff : u.handedOff = true → u.info.running = true
  single : u.prepares.length ≤ 1
  begins : ∀ action t, u.step semver action = some t →
    u.prepares.length < t.prepares.length →
    action = .start ∧ u.prepares = [] ∧ u.handedOff = false
  available : u.info.available = true →
    ∃ latest, u.info.latest = some latest ∧ semver.Upgrade latest
  alive : u.poisoned = false ∧ u.start semver ≠ none
  upwards : ∀ tag ∈ u.prepares, ∃ latest, tag = "v" ++ latest ∧ semver.Upgrade latest

/-- In every run the flags exclude each other, and what is offered is an upgrade. -/
theorem updaterGuarded (hplain : semver.Plain) {u : Updater}
    (h : (updaterSystem semver).Reachable u) : u.Guarded semver := by
  have hsafe := Updater.safe hplain h
  refine ⟨?_, hsafe.handedOff, hsafe.single, fun action t hstep => hsafe.begins hstep,
    hsafe.available, ⟨hsafe.alive, hsafe.start_ne_none⟩, hsafe.tags⟩
  rintro ⟨hchecking, hrunning⟩
  exact Bool.false_ne_true ((hsafe.exclusive hchecking).symm.trans hrunning)

end

/-! ## A release -/

/-- A `semver` for the version of a release. -/
def releaseSemver : Semver where
  Version := Nat
  parse text := if text = "2.4.0" then some 20400 else none
  pre _ := ""
  build _ := ""
  cmp := compare
  current := 20301

/-- No version of this `semver` begins with a `v`. -/
theorem plain_releaseSemver : releaseSemver.Plain := by
  intro text version h
  obtain ⟨rfl, -⟩ := Option.ite_none_right_eq_some.mp h
  decide

/-- A service of Entware before its first update. -/
def entwareUpdater : Updater :=
  Updater.new releaseSemver
    (some ⟨"entware", "/opt/bin", "/opt/var/run/tgwsproxy-update", "S99tgwsproxy"⟩)
    (some "mipsel") false ⟨false, none, none, none, fun _ => [], none, none⟩

/-- The next release. -/
def nextRelease : Release where
  tagName := "v2.4.0"
  assets := [⟨"tgwsproxy-mipsel.tar.gz", 100⟩, ⟨"SHA256SUMS", 100⟩]

/-- A run from a check to the installation of what it has found. -/
theorem updaterGuarded_start :
    ∃ u, (updaterSystem releaseSemver).run entwareUpdater
        [.check true 100, .checked (.ok nextRelease) 101, .start] = some u ∧
      u.prepares = ["v2.4.0"] ∧ u.Guarded releaseSemver := by
  obtain ⟨u, hrun, hprepares⟩ := (updaterSystem releaseSemver).exists_of_run entwareUpdater
    [.check true 100, .checked (.ok nextRelease) 101, .start] (·.prepares = ["v2.4.0"])
    (by decide +kernel)
  have hstart : (updaterSystem releaseSemver).Reachable entwareUpdater :=
    .start ⟨_, _, _, _, rfl⟩
  exact ⟨u, hrun, of_decide_eq_true hprepares,
    updaterGuarded plain_releaseSemver (hstart.run hrun)⟩

end TgWsProxy
