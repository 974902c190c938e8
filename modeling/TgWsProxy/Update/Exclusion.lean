import TgWsProxy.Update.Watching

/-!
# One worker at a time

In every run in which a worker's process number is in its place in time, at most one worker is
alive, and the service leaves alone what it works with.
-/

namespace TgWsProxy.Update

open TgWsProxy.Core

variable {semver : Semver} {install : Installation} {arch : Option String} {others : Nat → Bytes}
  {s t : World}

variable {binDir : String} {now : Nat} {d d' : StateDir} {w w' : Worker}

/-- Time passes no further than the launch under way has. -/
theorem World.Sound.tick (hs : s.Sound semver install) {d : Nat} (hok : Prompt s (.tick d)) :
    World.Sound semver install { s with now := s.now + d } where
  each w hw hgone := by
    have h := hs.each w hw hgone
    refine ⟨h.pid, h.made, ?_, h.stage, h.lock, h.started⟩
    by_cases hpublished : Published s.dir w
    · exact .inl hpublished
    · have hearly := h.published.resolve_left hpublished
      exact .inr ⟨hearly.1, hearly.2.1, hok.1 w hw hgone hpublished⟩
  single := hs.single
  process p hp := by
    obtain ⟨hsafe, hinstallation, htags, hwatched, hreached⟩ := hs.process p hp
    refine ⟨hsafe, hinstallation, htags, hwatched, fun q hq => ?_⟩
    have h := hreached q hq
    have htime := hok.2 p hp q hq
    revert h htime
    cases q.phase with
    | writeTarget | fork =>
      rintro ⟨hmade, hquiet, hstage, -⟩ htime
      exact ⟨hmade, hquiet, hstage, htime rfl⟩
    | _ => exact fun h _ => h

/-- A service is started over the files of the one before. -/
theorem World.Sound.boot (hinstall : install ∈ managed) (hs : s.Sound semver install) {p : Process}
    (hp : p = ⟨Updater.new semver (some install) arch s.dir.made (s.observe install others), []⟩) :
    World.Sound semver install { s with process := some p } where
  each := hs.each
  single := hs.single
  process p' hp' := by
    obtain rfl := Option.some.inj hp'
    subst hp
    refine ⟨.new .., ?_, ?_, fun hhanded _ => ?_, fun q hq => by cases hq⟩
    · exact (Updater.status_frame semver _ _).2.1
    · rw [Updater.new, (Updater.status_frame semver _ _).2.2.2.2.1]
      rfl
    · -- without a directory there is no worker
      have hwatched : s.Watched := watched_of_status hinstall hs rfl
        (fun hmade w hw hgone => by simp [(hs.each w hw hgone).made] at hmade) hhanded
      exact hwatched

/-- The service ends. -/
theorem World.Sound.kill (hs : s.Sound semver install) (h : Alike s.dir d) :
    World.Sound semver install { s with dir := d, process := none } where
  each w hw hgone := h.sound (hs.each w hw hgone)
  single := hs.single
  process p hp := by cases hp

/-- A `prepare` that goes on. -/
theorem World.Sound.proceed (hs : s.Sound semver install) {p : Process} (hp : s.process = some p)
    {i : Nat} {q : Prepare} (hq : p.prepares[i]? = some q) {phase : PreparePhase} {dir : StateDir}
    (heach : ∀ w ∈ s.workers, w.phase ≠ .gone → WorkerSound s.now dir w)
    (hwatched : phase.isHanding = false → (s.proceed p i q phase dir).Watched)
    (hreached : (s.proceed p i q phase dir).Reached phase) :
    (s.proceed p i q phase dir).Sound semver install where
  each := heach
  single := hs.single
  process p' hp' := by
    obtain rfl := Option.some.inj hp'
    have hprocess := hs.process p hp
    obtain ⟨hprepares, rfl, -⟩ := hprocess.single hq
    have hset : p.prepares.set 0 { q with phase } = [{ q with phase }] := by rw [hprepares]; rfl
    refine ⟨hprocess.safe, hprocess.install, ?_, fun _ hhanding => ?_, ?_⟩
    · rw [← hprocess.tags, hset, hprepares]
      rfl
    · rw [hset] at hhanding
      exact hwatched (hhanding _ (List.mem_singleton_self _))
    · rw [hset]
      exact List.forall_mem_singleton.mpr hreached

/-- A `prepare` that goes on while no worker is alive. -/
theorem World.Sound.proceed_quiet (hs : s.Sound semver install) (hquiet : s.Quiet) {p : Process}
    (hp : s.process = some p) {i : Nat} {q : Prepare} (hq : p.prepares[i]? = some q)
    {phase : PreparePhase} {dir : StateDir}
    (hreached : (s.proceed p i q phase dir).Reached phase) :
    (s.proceed p i q phase dir).Sound semver install :=
  hs.proceed hp hq hquiet.each (fun _ => hquiet.each) hreached

/-- A `prepare` that fails while every worker is seen. -/
theorem World.Sound.fail (hs : s.Sound semver install) (hwatched : s.Watched) {p : Process}
    (hp : s.process = some p) {i : Nat} {q : Prepare} (hq : p.prepares[i]? = some q)
    (error : IoError) : (s.fail p i q error).Sound semver install where
  each w hw hgone := (alike_dropPayload s.dir q.phase).sound (hs.each w hw hgone)
  single := hs.single
  process p' hp' := by
    obtain rfl := Option.some.inj hp'
    have hprocess := hs.process p hp
    obtain ⟨hprepares, rfl, -, htag⟩ := hprocess.single hq
    have herase : p.prepares.eraseIdx 0 = [] := by rw [hprepares]; rfl
    refine ⟨?_, hprocess.install, ?_, fun _ _ w hw hgone => ?_, ?_⟩
    · exact hprocess.safe.prepared htag (.error error)
    · rw [herase, Updater.prepared, ← hprocess.tags, hprepares]
      simp
    · exact (alike_dropPayload s.dir q.phase).guarded (hwatched w hw hgone)
    · intro q' hq'
      rw [herase] at hq'
      cases hq'

/-- No worker is alive behind a `recover_stale` that finds none. -/
theorem World.Sound.quiet (hinstall : install ∈ managed) (hs : s.Sound semver install)
    (hlive : ¬(workerLive (s.observe install others) install.stateDir ||
      workerStarting (s.observe install others)) = true) : s.Quiet := by
  rw [Bool.or_eq_true, not_or] at hlive
  intro w hw
  by_contra hgone
  have h := hs.each w hw hgone
  rcases h.published with hpublished | ⟨-, hstage, htime⟩
  · exact hlive.1 (workerLive_observe hinstall hw hgone h.pid hpublished)
  · exact hlive.2 (workerStarting_observe hstage htime)

/-- Without a lock no worker is alive that the service has not launched. -/
theorem World.Sound.quiet_of_lock (hs : s.Sound semver install) (hwatched : s.Watched)
    (hlock : s.dir.lock = false) : s.Quiet := by
  intro w hw
  by_contra hgone
  have hguarded := hwatched w hw hgone
  have := (hs.each w hw hgone).lock hguarded.published.2 hguarded.locked
  rw [hlock] at this
  cases this

/-- A launch. -/
theorem World.Sound.launch (hs : s.Sound semver install) {p : Process} (hp : s.process = some p)
    {i : Nat} {q : Prepare} (hq : p.prepares[i]? = some q) (hmade : s.dir.made = true)
    (hquiet : s.Quiet) (hstage : s.dir.stage = some "installing\n")
    (htime : s.now < s.dir.stageTime + seconds 10) {pid : Nat} {payload : String}
    (hpid : 1 < pid ∧ pid < 2 ^ 22) :
    World.Sound semver install { s.proceed p i q (.exec payload pid s.workers.length) s.dir with
      workers := s.workers ++ [.launch pid q.tag payload] } := by
  have hlast {k : Nat} {w : Worker} (hw : (s.workers ++ [.launch pid q.tag payload])[k]? = some w)
      (hgone : w.phase ≠ .gone) : k = s.workers.length ∧ w = .launch pid q.tag payload := by
    rw [List.getElem?_append] at hw
    split at hw
    · exact absurd (hquiet w (List.mem_of_getElem? hw)) hgone
    · obtain ⟨hk, hw⟩ := List.getElem?_eq_some_iff.mp hw
      rw [List.length_singleton] at hk
      exact ⟨by omega, by simpa using hw.symm⟩
  have hprocess := hs.process p hp
  obtain ⟨hprepares, rfl, -⟩ := hprocess.single hq
  refine ⟨fun w hw hgone => ?_, fun k l w w' hw hw' hgone hgone' => ?_, fun p' hp' => ?_⟩
  · obtain ⟨k, hk⟩ := List.getElem?_of_mem hw
    obtain ⟨-, rfl⟩ := hlast hk hgone
    refine ⟨hpid, hmade, .inr ⟨rfl, hstage, htime⟩, .inl hstage, ?_, ?_⟩
    · exact fun hexec => absurd rfl hexec
    · simp [Worker.launch]
  · exact (hlast hw hgone).1.trans (hlast hw' hgone').1.symm
  · obtain rfl := Option.some.inj hp'
    have hset (phase : PreparePhase) : p.prepares.set 0 { q with phase } = [{ q with phase }] := by
      rw [hprepares]
      rfl
    refine ⟨hprocess.safe, hprocess.install, ?_, fun _ hhanding => ?_, ?_⟩
    · rw [← hprocess.tags, hset, hprepares]
      rfl
    · rw [hset] at hhanding
      cases hhanding _ (List.mem_singleton_self _)
    · rw [hset]
      refine List.forall_mem_singleton.mpr ⟨hmade, fun k w hw hgone => ?_⟩
      obtain ⟨hk, rfl⟩ := hlast hw hgone
      exact ⟨hk, rfl⟩

/-- The workers and their files are left alone, but for the number of a worker that is alive. -/
structure World.Untouched (s t : World) : Prop where
  workers : t.workers = s.workers
  dir : t.dir = s.dir ∨
    ∃ w ∈ s.workers, w.phase ≠ .gone ∧ t.dir = { s.dir with pid := some (pidText w.pid) }

/-- A `prepare` that goes on, section by section. -/
theorem World.Sound.prepare_go (hinstall : install ∈ managed) (hs : s.Sound semver install)
    {p : Process} (hp : s.process = some p) {i : Nat} {q : Prepare} (hq : p.prepares[i]? = some q)
    (hstep : s.prepare install others p i q .go = some t) :
    t.Sound semver install ∧ (s.Quiet ∨ s.Untouched t) := by
  have hprocess := hs.process p hp
  have hreached := hprocess.reached q (List.mem_of_getElem? hq)
  have hsame (phase : PreparePhase) : s.Untouched (s.proceed p i q phase s.dir) := ⟨rfl, .inl rfl⟩
  cases hphase : q.phase with
  | waiting =>
    simp only [World.prepare, hphase, Option.some.injEq] at hstep
    subst hstep
    have hwatched := hprocess.watched_of_prepare hq (by rw [hphase]; rfl)
    have halike : Alike s.dir { s.dir with made := true } := ⟨fun _ => rfl, rfl, rfl, rfl, rfl⟩
    have hmade : s.Quiet ∨ s.dir.made = true := by
      by_contra hnot
      rw [not_or] at hnot
      exact hnot.1 (fun w hw => by_contra fun hgone => hnot.2 (hs.each w hw hgone).made)
    refine ⟨hs.proceed hp hq (fun w hw hgone => halike.sound (hs.each w hw hgone)) ?_ ?_, ?_⟩
    · exact fun _ w hw hgone => halike.guarded (hwatched w hw hgone)
    · split
      · exact rfl
      · next hlock => exact ⟨rfl, hs.quiet_of_lock hwatched (Bool.not_eq_true _ ▸ hlock)⟩
    · refine hmade.imp_right fun hmade => ⟨rfl, .inl ?_⟩
      rw [World.proceed, ← hmade]
  | checkLive =>
    simp only [World.prepare, hphase] at hstep
    simp only [hphase, World.Reached] at hreached
    split at hstep
    · obtain rfl := Option.some.inj hstep
      refine ⟨hs.fail (hprocess.watched_of_prepare hq (by rw [hphase]; rfl)) hp hq _,
        .inr ⟨rfl, ?_⟩⟩
      rw [World.fail, hphase]
      exact .inl rfl
    · next hlive =>
      obtain rfl := Option.some.inj hstep
      have hquiet := hs.quiet hinstall hlive
      exact ⟨hs.proceed_quiet hquiet hp hq ⟨hreached, hquiet⟩, .inl hquiet⟩
  | removeLockPid =>
    simp only [World.prepare, hphase, Option.some.injEq] at hstep
    simp only [hphase, World.Reached] at hreached
    subst hstep
    exact ⟨hs.proceed_quiet hreached.2 hp hq hreached, .inl hreached.2⟩
  | removeLock =>
    simp only [World.prepare, hphase] at hstep
    simp only [hphase, World.Reached] at hreached
    refine ⟨?_, .inl hreached.2⟩
    split at hstep
    · obtain rfl := Option.some.inj hstep
      exact hs.proceed_quiet hreached.2 hp hq hreached
    · obtain rfl := Option.some.inj hstep
      exact hs.fail hreached.2.each hp hq _
  | record payload | download payload =>
    simp only [World.prepare, hphase, Option.some.injEq] at hstep
    simp only [hphase, World.Reached] at hreached
    subst hstep
    exact ⟨hs.proceed_quiet hreached.2 hp hq hreached, .inl hreached.2⟩
  | writeStage payload =>
    simp only [World.prepare, hphase, Option.some.injEq] at hstep
    simp only [hphase, World.Reached] at hreached
    subst hstep
    have hten : 0 < seconds 10 := by decide
    have htime : s.now < s.now + seconds 10 := by omega
    exact ⟨hs.proceed_quiet hreached.2 hp hq ⟨hreached.1, hreached.2, rfl, htime⟩, .inl hreached.2⟩
  | writeTarget payload =>
    simp only [World.prepare, hphase, Option.some.injEq] at hstep
    simp only [hphase, World.Reached] at hreached
    subst hstep
    exact ⟨hs.proceed_quiet hreached.2.1 hp hq hreached, .inl hreached.2.1⟩
  | exec payload pid j =>
    simp only [World.prepare, hphase, Option.ite_none_right_eq_some, Option.some.injEq] at hstep
    simp only [hphase, World.Reached] at hreached
    obtain ⟨hstarted, rfl⟩ := hstep
    refine ⟨hs.proceed hp hq hs.each (fun h => by cases h) ⟨hreached.1, fun w hw hgone => ?_⟩,
      .inr (hsame _)⟩
    obtain ⟨k, hk⟩ : ∃ k, s.workers[k]? = some w := List.getElem?_of_mem hw
    obtain ⟨rfl, hpid⟩ := hreached.2 k w hk hgone
    rw [hk, Option.any_some] at hstarted
    exact ⟨hpid, (hs.each w hw hgone).started.mp hstarted⟩
  | publish pid =>
    simp only [World.prepare, hphase, Option.some.injEq] at hstep
    simp only [hphase, World.Reached] at hreached
    subst hstep
    refine ⟨hs.proceed hp hq (fun w hw hgone => ?_) (fun h => by cases h) hreached.1, ?_⟩
    · obtain ⟨rfl, hexec⟩ := hreached.2 w hw hgone
      have h := hs.each w hw hgone
      refine ⟨h.pid, h.made, .inl ⟨rfl, hexec⟩, ?_, h.lock, h.started⟩
      exact h.stage.imp_right (·.imp_right fun hguarded => ⟨⟨rfl, hexec⟩, hguarded.locked⟩)
    · by_cases hquiet : s.Quiet
      · exact .inl hquiet
      · rw [World.Quiet] at hquiet
        push Not at hquiet
        obtain ⟨w, hw, hgone⟩ := hquiet
        exact .inr ⟨rfl, .inr ⟨w, hw, hgone, by rw [(hreached.2 w hw hgone).1]; rfl⟩⟩
  | handOff =>
    simp only [World.prepare, hphase, Option.some.injEq] at hstep
    subst hstep
    obtain ⟨hprepares, rfl, -, htag⟩ := hprocess.single hq
    have herase : p.prepares.eraseIdx 0 = [] := by rw [hprepares]; rfl
    refine ⟨⟨hs.each, hs.single, fun p' hp' => ?_⟩, .inr ⟨rfl, .inl rfl⟩⟩
    obtain rfl := Option.some.inj hp'
    refine ⟨hprocess.safe.prepared htag (.ok ()), hprocess.install, ?_, (fun h => by cases h), ?_⟩
    · rw [herase, Updater.prepared, ← hprocess.tags, hprepares]
      simp
    · intro q' hq'
      rw [herase] at hq'
      cases hq'
  | removeOld | makePayload | fork => simp [World.prepare, hphase] at hstep

/-- A section of a `prepare`. -/
theorem World.Sound.prepare (hinstall : install ∈ managed) (hs : s.Sound semver install)
    {p : Process} (hp : s.process = some p) {i : Nat} {q : Prepare} (hq : p.prepares[i]? = some q)
    {event : PrepareEvent} (hok : event ≠ .torn)
    (hstep : s.prepare install others p i q event = some t) :
    t.Sound semver install ∧ (s.Quiet ∨ s.Untouched t) := by
  have hprocess := hs.process p hp
  have hreached := hprocess.reached q (List.mem_of_getElem? hq)
  cases event with
  | go => exact hs.prepare_go hinstall hp hq hstep
  | torn => exact absurd rfl hok
  | fail error =>
    cases hphase : q.phase with
    | publish pid =>
      simp only [World.prepare, hphase, Option.some.injEq] at hstep
      simp only [hphase, World.Reached] at hreached
      subst hstep
      exact ⟨hs.proceed hp hq hs.each (fun h => by cases h) hreached.1, .inr ⟨rfl, .inl rfl⟩⟩
    | exec payload pid j =>
      simp only [World.prepare, hphase, Option.ite_none_right_eq_some, Option.some.injEq] at hstep
      simp only [hphase, World.Reached] at hreached
      obtain ⟨hchild, rfl⟩ := hstep
      have hquiet : s.Quiet := by
        intro w hw
        by_contra hgone
        obtain ⟨k, hk⟩ := List.getElem?_of_mem hw
        obtain ⟨rfl, -⟩ := hreached.2 k w hk hgone
        simp [hk, hgone] at hchild
      exact ⟨hs.fail hquiet.each hp hq _, .inl hquiet⟩
    | checkLive | handOff => simp [World.prepare, hphase] at hstep
    | waiting =>
      simp only [World.prepare, hphase, Option.some.injEq] at hstep
      subst hstep
      refine ⟨hs.fail (hprocess.watched_of_prepare hq (by rw [hphase]; rfl)) hp hq _,
        .inr ⟨rfl, ?_⟩⟩
      rw [World.fail, hphase]
      exact .inl rfl
    | writeTarget | fork =>
      simp only [World.prepare, hphase, Option.some.injEq] at hstep
      simp only [hphase, World.Reached] at hreached
      subst hstep
      exact ⟨hs.fail hreached.2.1.each hp hq _, .inl hreached.2.1⟩
    | _ =>
      simp only [World.prepare, hphase, Option.some.injEq] at hstep
      simp only [hphase, World.Reached] at hreached
      subst hstep
      exact ⟨hs.fail hreached.2.each hp hq _, .inl hreached.2⟩
  | old isDir =>
    simp only [World.prepare, Option.ite_none_right_eq_some, Option.some.injEq] at hstep
    obtain ⟨hphase, rfl⟩ := hstep
    simp only [hphase, World.Reached] at hreached
    refine ⟨hs.proceed_quiet hreached.2 hp hq ⟨?_, hreached.2⟩, .inl hreached.2⟩
    rw [World.proceed]
    split
    · split
      · exact hreached.1
      · exact hreached.1
    · exact hreached.1
  | name hex =>
    simp only [World.prepare, Option.ite_none_right_eq_some, Option.some.injEq] at hstep
    obtain ⟨hphase, rfl⟩ := hstep
    simp only [hphase, World.Reached] at hreached
    exact ⟨hs.proceed_quiet hreached.2 hp hq hreached, .inl hreached.2⟩
  | fork pid =>
    simp only [World.prepare] at hstep
    split at hstep
    · next payload hphase =>
      rw [Option.ite_none_right_eq_some, Option.some.injEq] at hstep
      obtain ⟨hpid, rfl⟩ := hstep
      simp only [hphase, World.Reached] at hreached
      obtain ⟨hmade, hquiet, hstage, htime⟩ := hreached
      exact ⟨hs.launch hp hq hmade hquiet hstage htime ⟨hpid.1, hpid.2.1⟩, .inl hquiet⟩
    · cases hstep

/-- A command of a worker. -/
theorem World.Sound.worker (hs : s.Sound semver install) {i : Nat} (hw : s.workers[i]? = some w)
    {event : WorkerAction} (hok : Prompt s (.worker i event))
    (hstep : w.step binDir s.now s.dir event = some (w', d')) :
    World.Sound semver install { s with dir := d', workers := s.workers.set i w' } := by
  have hgone := phase_of_step hstep
  have hmem := List.mem_of_getElem? hw
  have hkept :=
    (hs.each w hmem hgone).step (fun done hevent => by subst hevent; exact hok w hw) hstep
  have hmade := made_of_step hstep
  -- the worker at work is the one that is alive
  have halive {k : Nat} {v : Worker} (hv : (s.workers.set i w')[k]? = some v)
      (hv' : v.phase ≠ .gone) :
      k = i ∧ v = w' := by
    rw [List.getElem?_set] at hv
    split at hv
    · next hk =>
      split at hv
      · exact ⟨hk.symm, (Option.some.inj hv).symm⟩
      · cases hv
    · next hk => exact absurd (hs.single i k w v hw hv hgone hv') hk
  have hnot : ¬s.Quiet := fun hquiet => hgone (hquiet w hmem)
  have hlive {v : Worker} (hv : v ∈ s.workers.set i w') (hv' : v.phase ≠ .gone) : v = w' := by
    obtain ⟨k, hk⟩ := List.getElem?_of_mem hv
    exact (halive hk hv').2
  refine ⟨fun v hv hv' => ?_, fun k l v v' hv hv' hgone hgone' => ?_, fun p hp => ?_⟩
  · obtain rfl := hlive hv hv'
    exact hkept.sound hv'
  · exact (halive hv hgone).1.trans (halive hv' hgone').1.symm
  · obtain ⟨hsafe, hinstallation, htags, hwatched, hreached⟩ := hs.process p hp
    refine ⟨hsafe, hinstallation, htags, fun hhanded hhanding v hv hv' => ?_, fun q hq => ?_⟩
    · obtain rfl := hlive hv hv'
      exact hkept.guarded (hwatched hhanded hhanding w hmem hgone) hv'
    · have h := hreached q hq
      revert h
      cases q.phase with
      | waiting => exact id
      | checkLive | handOff => exact hmade.trans
      | writeTarget | fork => exact fun h => absurd h.2.1 hnot
      | exec payload pid j =>
        refine fun h => ⟨hmade.trans h.1, fun k v hv hv' => ?_⟩
        obtain ⟨rfl, rfl⟩ := halive hv hv'
        exact ⟨(h.2 k w hw hgone).1, hkept.pid.trans (h.2 k w hw hgone).2⟩
      | publish pid =>
        refine fun h => ⟨hmade.trans h.1, fun v hv hv' => ?_⟩
        obtain rfl := hlive hv hv'
        obtain ⟨hpid, hexec⟩ := h.2 w hmem hgone
        exact ⟨hkept.pid.trans hpid, hkept.started hexec⟩
      | _ => exact fun h => absurd h.2 hnot

/-- A step that is no command of a worker. -/
def Action.isService : Action → Bool
  | .worker .. => false
  | _ => true

/-- What one step of the router does. -/
theorem World.Sound.step (hplain : semver.Plain) (hinstall : install ∈ managed)
    (hs : s.Sound semver install) {action : Action} (hok : Prompt s action)
    (hstep : World.step semver install arch others s action = some t) :
    t.Sound semver install ∧ (action.isService = true → s.Quiet ∨ s.Untouched t) := by
  have hact {looks : Bool} {section' : UpdaterAction}
      (hstep : s.act semver install others looks section' = some t) : s.Untouched t := by
    obtain ⟨p, -, hstep⟩ := Option.bind_eq_some_iff.mp hstep
    split at hstep
    · cases hstep
    · obtain ⟨u, -, rfl⟩ := Option.map_eq_some_iff.mp hstep
      exact ⟨rfl, .inl rfl⟩
  cases action with
  | tick d =>
    obtain rfl := Option.some.inj hstep
    exact ⟨hs.tick hok, fun _ => .inr ⟨rfl, .inl rfl⟩⟩
  | boot =>
    cases hp : s.process with
    | some p => simp [World.step, hp] at hstep
    | none =>
      simp only [World.step, hp, Option.some.injEq] at hstep
      subst hstep
      exact ⟨hs.boot hinstall rfl, fun _ => .inr ⟨rfl, .inl rfl⟩⟩
  | kill drops =>
    obtain ⟨p, hp, hstep⟩ := Option.bind_eq_some_iff.mp hstep
    split at hstep
    · cases hstep
    · next hbusy =>
      obtain rfl := Option.some.inj hstep
      cases drops with
      | false => exact ⟨hs.kill (.refl _), fun _ => .inr ⟨rfl, .inl rfl⟩⟩
      | true =>
        refine ⟨hs.kill (alike_foldl_dropPayload ..), fun _ => ?_⟩
        have hprocess := hs.process p hp
        cases hprepares : p.prepares with
        | nil => exact .inr ⟨rfl, .inl (by simp)⟩
        | cons q rest =>
          -- a download has begun where no worker is alive
          have hq : p.prepares[0]? = some q := by rw [hprepares]; rfl
          obtain ⟨hone, -⟩ := hprocess.single hq
          obtain rfl : rest = [] := by simpa [hprepares] using hone
          have hreached := hprocess.reached q (List.mem_of_getElem? hq)
          cases hphase : q.phase with
          | waiting =>
            refine .inr ⟨rfl, .inl ?_⟩
            simp [dropPayload, hphase, PreparePhase.payload]
          | download payload =>
            simp only [hphase, World.Reached] at hreached
            exact .inl hreached.2
          | _ => simp [Process.busy, hone, hphase, PreparePhase.awaits] at hbusy
  | status =>
    refine ⟨hs.act hplain hinstall (.status _) (fun files h => ?_) hstep,
      fun _ => .inr (hact hstep)⟩
    exact ⟨rfl, (UpdaterAction.status.inj h).symm⟩
  | check force now =>
    exact ⟨hs.act hplain hinstall (.check ..) (fun _ h => by cases h) hstep,
      fun _ => .inr (hact hstep)⟩
  | checked response now =>
    exact ⟨hs.act hplain hinstall (.checked ..) (fun _ h => by cases h) hstep,
      fun _ => .inr (hact hstep)⟩
  | start =>
    exact ⟨hs.act hplain hinstall .start (fun _ h => by cases h) hstep, fun _ => .inr (hact hstep)⟩
  | prepare i event =>
    obtain ⟨p, hp, hstep⟩ := Option.bind_eq_some_iff.mp hstep
    obtain ⟨q, hq, hstep⟩ := Option.bind_eq_some_iff.mp hstep
    split at hstep
    · cases hstep
    · obtain ⟨hsound, huntouched⟩ := hs.prepare hinstall hp hq hok hstep
      exact ⟨hsound, fun _ => huntouched⟩
  | worker i event =>
    obtain ⟨w, hw, hstep⟩ := Option.bind_eq_some_iff.mp hstep
    obtain ⟨⟨w', d'⟩, hworker, rfl⟩ := Option.map_eq_some_iff.mp hstep
    exact ⟨hs.worker hw hok hworker, fun hservice => by cases hservice⟩

/-- In every prompt run the files are what the workers hold them to be. -/
theorem World.sound (hplain : semver.Plain) (hinstall : install ∈ managed)
    (h : (handoffSystem semver install arch others).Within Prompt s) : s.Sound semver install := by
  refine h.induct (fun s hstart => ?_) fun s action t hs hok hstep =>
    (hs.step hplain hinstall hok hstep).1
  obtain ⟨hprocess, hworkers⟩ := hstart
  refine ⟨fun w hw => ?_, fun i j w w' hw => ?_, fun p hp => ?_⟩
  · rw [hworkers] at hw
    cases hw
  · rw [hworkers] at hw
    cases hw
  · rw [hprocess] at hp
    cases hp

/-- However the commands of the workers and the sections of the service interleave, and wherever
they end: at most one worker is alive, and while it is, no step of the service touches its files,
but for putting its number in its place, or launches another. -/
theorem handoffExclusive (hplain : semver.Plain) (hinstall : install ∈ managed)
    (h : (handoffSystem semver install arch others).Within Prompt s) :
    (∀ (i j : Nat) (w w' : Worker), s.workers[i]? = some w → s.workers[j]? = some w' →
      w.phase ≠ .gone → w'.phase ≠ .gone → i = j) ∧
    ∀ action t, action.isService = true → Prompt s action →
      (handoffSystem semver install arch others).step s action = some t →
      ∀ w ∈ s.workers, w.phase ≠ .gone → t.workers = s.workers ∧
        (t.dir = s.dir ∨ t.dir = { s.dir with pid := some (pidText w.pid) }) := by
  have hs := World.sound hplain hinstall h
  refine ⟨hs.single, fun action t hservice hok hstep w hw hgone => ?_⟩
  rcases (hs.step hplain hinstall hok hstep).2 hservice with hquiet | huntouched
  · exact absurd (hquiet w hw) hgone
  · refine ⟨huntouched.workers, huntouched.dir.imp_right fun ⟨v, hv, hgone', hdir⟩ => ?_⟩
    obtain ⟨i, hi⟩ := List.getElem?_of_mem hw
    obtain ⟨j, hj⟩ := List.getElem?_of_mem hv
    obtain rfl := hs.single i j w v hi hj hgone hgone'
    obtain rfl := Option.some.inj (hi.symm.trans hj)
    exact hdir

/-- A step that no time bounds. -/
def Action.isTimeless : Action → Bool
  | .tick _ | .prepare _ .torn | .worker _ (.fault _) => false
  | _ => true

private theorem prompt_of_isTimeless {action : Action} (h : action.isTimeless = true) :
    Prompt s action := by
  cases action with
  | tick d => cases h
  | prepare i event => cases event with
    | torn => cases h
    | _ => exact fun hevent => by cases hevent
  | worker i event => cases event with
    | fault done => cases h
    | _ => trivial
  | _ => trivial

/-- An update up to the installer, behind which the service is killed and started again. -/
def updateActions : List Action :=
  [.boot, .check true 100, .checked (.ok nextRelease) 101, .start, .prepare 0 .go,
    .prepare 0 (.old false), .prepare 0 (.name "0a1b"), .prepare 0 .go, .prepare 0 .go,
      .prepare 0 .go,
    .prepare 0 .go, .prepare 0 (.fork 4242), .worker 0 .go, .worker 0 .go, .prepare 0 .go,
    .prepare 0 .go, .prepare 0 .go, .worker 0 .go, .worker 0 .go, .worker 0 .go, .worker 0 .go,
    .worker 0 .go, .worker 0 .go, .worker 0 .go,
    .worker 0 (.resolve "/opt/bin" "/opt/bin/.tgwsproxy-update.0a1b"), .worker 0 .go, .worker 0 .go,
    .worker 0 .go, .kill false, .boot, .start, .status]

/-- The installation of `entwareUpdater`. -/
def entware : Installation :=
  ⟨"entware", "/opt/bin", "/opt/var/run/tgwsproxy-update", "S99tgwsproxy"⟩

/-- The router of `entware` with its next release. -/
def entwareSystem : System World Action :=
  handoffSystem releaseSemver entware (some "mipsel") fun _ => []

/-- An update up to the installation: no step of the service touches the worker. -/
theorem handoffExclusive_update :
    ∃ s, entwareSystem.run {} updateActions = some s ∧
      s.workers.map (·.phase) = [.install] ∧ s.process.isSome = true ∧
      ∀ action t, action.isService = true → Prompt s action → entwareSystem.step s action = some t →
        t.workers = s.workers := by
  obtain ⟨s, hrun, hcheck⟩ := entwareSystem.exists_of_run {} updateActions
    (fun s => s.workers.map (·.phase) = [.install] ∧ s.process.isSome = true) (by decide +kernel)
  rw [decide_eq_true_eq] at hcheck
  have hwithin : entwareSystem.Within Prompt s := by
    refine System.Within.run (.start ⟨rfl, rfl⟩) (fun action haction u => ?_) hrun
    refine prompt_of_isTimeless
      (List.all_eq_true.mp (?_ : updateActions.all (·.isTimeless) = true) _
      haction)
    decide
  obtain ⟨w, hw, hphase⟩ : ∃ w ∈ s.workers, w.phase = .install :=
    List.mem_map.mp (hcheck.1 ▸ List.mem_singleton_self _)
  refine ⟨s, hrun, hcheck.1, hcheck.2, fun action t hservice hok hstep => ?_⟩
  have hinstall : entware ∈ managed := List.mem_cons_self ..
  exact ((handoffExclusive plain_releaseSemver hinstall hwithin).2 action t hservice hok hstep w hw
    (by simp [hphase])).1

end TgWsProxy.Update
