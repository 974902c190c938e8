import TgWsProxy.Core.Utf8
import TgWsProxy.Update.Flags
import TgWsProxy.Update.Handoff

/-!
# What a service knows of its workers

A worker whose process number is in its place is seen, a fresh stage stands for one that is not yet,
and a service that has handed none off has none that it does not see.
-/

namespace TgWsProxy.Update

open TgWsProxy.Core

/-! ## What the service reads -/

private theorem toList_pidText (pid : Nat) : (pidText pid).toList = Nat.toDigits 10 pid ++
    ['\n'] := by
  rw [pidText, String.toList_append, show (toString pid).toList = _ from Nat.toList_repr]
  rfl

/-- The digits of a number, by their codes. -/
theorem toNat_of_mem_toDigits {pid : Nat} {c : Char} (hc : c ∈ Nat.toDigits 10 pid) :
    48 ≤ c.toNat ∧ c.toNat ≤ 57 := by
  have hdigit := Nat.isDigit_of_mem_toDigits (by decide) (by decide) hc
  simp only [Char.isDigit, Bool.and_eq_true, decide_eq_true_eq] at hdigit
  exact hdigit

/-- A number is trimmed of its end of line, and of no more. -/
theorem trim_pidText (pid : Nat) : trim (pidText pid).toList = Nat.toDigits 10 pid := by
  have hspace (c : Char) (hc : c ∈ Nat.toDigits 10 pid) : ¬isWhitespace c = true := by
    have hcode := toNat_of_mem_toDigits hc
    simp only [isWhitespace, List.mem_cons, List.not_mem_nil, or_false, Bool.or_eq_true,
      Bool.and_eq_true, decide_eq_true_eq]
    omega
  obtain ⟨c, rest, hdigits⟩ :=
    List.exists_cons_of_ne_nil (Nat.toDigits_ne_nil : Nat.toDigits 10 pid ≠ [])
  rw [toList_pidText, trim, hdigits, List.cons_append,
    List.dropWhile_cons_of_neg, ← List.cons_append,
    ← hdigits, List.rdropWhile_concat_pos _ _ _ (by decide), List.rdropWhile_eq_self_iff]
  · exact fun hne => hspace _ (List.getLast_mem hne)
  · exact hspace c (hdigits ▸ List.mem_cons_self ..)

/-- The file of a process number is read as that number. -/
theorem smallFile_pidText {pid : Nat} (h : pid < 2 ^ 22) :
    smallFile (some (entry (pidText pid))) 20 = some (toString pid) := by
  have hlength : (Nat.toDigits 10 pid).length ≤ 7 := by
    rw [Nat.length_toDigits_le_iff (by decide) (by decide)]
    omega
  have hsize : (pidText pid).utf8ByteSize ≤ 20 := by
    rw [utf8ByteSize_ascii, toList_pidText, List.length_append, List.length_singleton]
    · omega
    · rw [toList_pidText]
      refine List.forall_mem_append.mpr ⟨fun c hc => ?_, List.forall_mem_singleton.mpr (by decide)⟩
      have := toNat_of_mem_toDigits hc
      omega
  have hsmall : ¬(20 < (pidText pid).utf8ByteSize) := by omega
  simp only [smallFile, entry, Bool.not_true, Bool.false_or, decide_eq_true_eq, gt_iff_lt, hsmall,
    if_false, Option.map_some, trim_pidText]
  rw [← Nat.toList_repr, String.ofList_toList]
  rfl

variable {semver : Semver} {install : Installation} {others : Nat → Bytes}
  {s t : World}

/-- An argument is found among the arguments. -/
theorem contains_argument (front rest : Bytes) {text : String} (h : 0 ∉ text.toUTF8.data.toList) :
    ((front ++ [0] ++ argument text ++ rest).splitOn 0).contains text.toUTF8.data.toList =
      true := by
  have hsplit : front ++ [0] ++ argument text ++ rest =
      front ++ 0 :: (text.toUTF8.data.toList ++ 0 :: rest) := by
    simp [argument]
  rw [hsplit, List.splitOn_append_cons_of_beq _ _ (beq_self_eq_true 0),
    List.splitOn_append_cons_of_beq _ _ (beq_self_eq_true 0), List.splitOn_eq_singleton h]
  simp

/-- The script of a managed installation is named without a zero byte. -/
theorem zero_notMem_script (h : install ∈ managed) :
    0 ∉ (install.stateDir ++ "/worker.sh").toUTF8.data.toList := by
  simp only [managed, List.mem_cons, List.not_mem_nil, or_false] at h
  rcases h with rfl | rfl <;> decide

private theorem contains_cmdline (h : install ∈ managed) (w : Worker) :
    ((cmdline install w).splitOn 0).contains
      (install.stateDir ++ "/worker.sh").toUTF8.data.toList = true := by
  have hsplit : cmdline install w = "/bin/sh".toUTF8.data.toList ++ [0] ++
      argument (install.stateDir ++ "/worker.sh") ++ (argument install.stateDir ++
        (argument install.system ++ (argument w.tag ++ argument w.argument))) := by
    simp only [cmdline, argument, List.append_assoc]
  rw [hsplit]
  exact contains_argument _ _ (zero_notMem_script h)

/-- A worker whose number is in its place is seen. -/
theorem workerLive_observe (hinstall : install ∈ managed) {w : Worker} (hw : w ∈ s.workers)
    (hgone : w.phase ≠ .gone) (hpid : 1 < w.pid ∧ w.pid < 2 ^ 22) (hpublished : Published s.dir w) :
    workerLive (s.observe install others) install.stateDir = true := by
  have hparse : parseUnsigned (2 ^ 32) (toString w.pid) = .ok w.pid :=
    parseUnsigned_toString (by omega)
  have hname : isNamed w.pid w = true := by simp [isNamed, hpublished.2, hgone]
  obtain ⟨w', hfind⟩ : ∃ w', s.workers.find? (isNamed w.pid) = some w' := by
    rw [← Option.isSome_iff_exists, List.find?_isSome]
    exact ⟨w, hw, hname⟩
  simp only [workerLive, World.observe, hpublished.1, Option.map_some, smallFile_pidText hpid.2,
    Option.bind_some, hparse, Except.toOption, hfind, contains_cmdline hinstall, Bool.and_true,
    decide_eq_true_eq]
  exact hpid.1

/-- A stage that was written less than ten seconds ago. -/
theorem workerStarting_observe (hstage : s.dir.stage = some "installing\n")
    (htime : s.now < s.dir.stageTime + seconds 10) :
    workerStarting (s.observe install others) = true := by
  have hsmall : smallFile (some (entry "installing\n")) 32 = some "installing" := by
    decide +kernel
  have hage : s.now - s.dir.stageTime < seconds 10 := by
    have : 0 < seconds 10 := by decide
    omega
  simp [workerStarting, World.observe, hstage, hsmall, hage]

/-! ## The workers -/

/-- The commands up to the one that puts the number of the worker in its place. -/
def isEarly : WorkerPhase → Bool
  | .exec | .makeLock | .setTraps | .writeLockPid | .writeTarget | .writePid => true
  | _ => false

/-- A worker that the service sees, and that has made its lock. -/
@[mk_iff] structure Guarded (d : StateDir) (w : Worker) : Prop where
  published : Published d w
  locked : w.phase ≠ .makeLock

/-- What holds of a worker that is alive. -/
@[mk_iff] structure WorkerSound (now : Nat) (d : StateDir) (w : Worker) : Prop where
  pid : 1 < w.pid ∧ w.pid < 2 ^ 22
  made : d.made = true
  published : Published d w ∨ isEarly w.phase = true ∧ d.stage = some "installing\n" ∧
    now < d.stageTime + seconds 10
  stage : d.stage = some "installing\n" ∨ d.stage = some "restarting\n" ∨ Guarded d w
  lock : w.phase ≠ .exec → w.phase ≠ .makeLock → d.lock = true
  started : w.started = true ↔ w.phase ≠ .exec

/-- What one step of a worker keeps of it. -/
@[mk_iff] structure WorkerKept (now : Nat) (d d' : StateDir) (w w' : Worker) : Prop where
  sound : w'.phase ≠ .gone → WorkerSound now d' w'
  guarded : Guarded d w → w'.phase ≠ .gone → Guarded d' w'
  pid : w'.pid = w.pid
  started : w.phase ≠ .exec → w'.phase ≠ .exec

variable {binDir : String} {now : Nat} {d d' : StateDir} {w w' : Worker}

private theorem WorkerKept.of_gone (hpid : w'.pid = w.pid) (hgone : w'.phase = .gone) :
    WorkerKept now d d' w w' where
  sound h := absurd hgone h
  guarded _ h := absurd hgone h
  pid := hpid
  started _ := by simp [hgone]

/-- A command that is done leads a sound worker to the next one. -/
theorem WorkerSound.advance (h : WorkerSound now d w) (hgone : w.phase ≠ .gone)
    (hresolve : w.phase ≠ .resolve) :
    WorkerKept now d (w.write now d) w { w.assign with phase := w.assign.next } := by
  obtain ⟨pid, tag, argument, payloadDir, bin, phase, clean, complete, failed, started, locked,
    installed, orderly⟩ := w
  rw [workerSound_iff] at h
  have hten : 0 < seconds 10 := by decide
  simp only [workerKept_iff, workerSound_iff, guarded_iff, Published] at h ⊢
  cases phase with
  | gone => exact absurd rfl hgone
  | resolve => exact absurd rfl hresolve
  | removeLock => simp [Worker.assign, Worker.next]
  | makeLock =>
    simp_all [Worker.assign, Worker.write, Worker.next, isEarly]
    exact h.2.2.2.1.imp_right .inl
  | setComplete | writeError =>
    cases clean <;>
      simp_all [Worker.assign, Worker.write, Worker.next, Worker.cleanup, isEarly]
  | _ => simp_all [Worker.assign, Worker.write, Worker.next, isEarly]

/-- A worker goes to its `cleanup` only when its number is in its place. -/
theorem WorkerSound.leave (h : WorkerSound now d w) (hpublished : Published d w)
    (hbare : Worker.isBare w.phase = false) (hgone : w.phase ≠ .gone)
    (hcleanup : Worker.isCleanup w.phase = false) :
    WorkerKept now d d w { w with phase := w.cleanup, failed := true } ∧
    WorkerKept now d (w.write now d) w
      { w.assign with phase := w.assign.cleanup, failed := true } := by
  obtain ⟨pid, tag, argument, payloadDir, bin, phase, clean, complete, failed, started, locked,
    installed, orderly⟩ := w
  have hten : 0 < seconds 10 := by decide
  simp only [workerKept_iff, workerSound_iff, guarded_iff, Published] at h hpublished ⊢
  cases phase with
  | gone => exact absurd rfl hgone
  | exec | makeLock | setTraps => cases hbare
  | writeErrorTxt | writeError | removePayload | removeLockPid | removeLock => cases hcleanup
  | _ =>
    cases complete <;> cases clean <;>
      simp_all [Worker.assign, Worker.write, Worker.cleanup, isEarly]

/-- A command of `cleanup` fails. -/
theorem WorkerSound.skip (h : WorkerSound now d w) (hcleanup : Worker.isCleanup w.phase = true) :
    WorkerKept now d d w { w.assign with phase := w.assign.next, orderly := false } := by
  obtain ⟨pid, tag, argument, payloadDir, bin, phase, clean, complete, failed, started, locked,
    installed, orderly⟩ := w
  simp only [workerKept_iff, workerSound_iff, guarded_iff, Published] at h ⊢
  cases phase with
  | removeLock => simp [Worker.assign, Worker.next]
  | writeErrorTxt | writeError | removePayload | removeLockPid =>
    cases clean <;> simp_all [Worker.assign, Worker.next, isEarly]
  | _ => cases hcleanup

/-- A `write_state` of `cleanup` puts the front of its text in place. -/
theorem WorkerSound.torn (h : WorkerSound now d w) (written : Nat)
    (hphase : w.phase = .writeErrorTxt ∨ w.phase = .writeError) :
    WorkerKept now d (w.tear now written d) w
      { w.assign with phase := w.assign.next, orderly := false } := by
  obtain ⟨pid, tag, argument, payloadDir, bin, phase, clean, complete, failed, started, locked,
    installed, orderly⟩ := w
  simp only [workerKept_iff, workerSound_iff, guarded_iff, Published] at h ⊢
  rcases hphase with rfl | rfl
  · simp_all [Worker.assign, Worker.tear, Worker.next, isEarly]
  · cases clean <;> simp_all [Worker.assign, Worker.tear, Worker.next, isEarly]

/-- One step of a worker that is alive. -/
theorem WorkerSound.step (h : WorkerSound now d w) {event : WorkerAction}
    (hfault : ∀ done, event = .fault done → Published d w ∨ Worker.isBare w.phase = true)
    (hstep : w.step binDir now d event = some (w', d')) : WorkerKept now d d' w w' := by
  have hpublished (hbare : Worker.isBare w.phase = false)
      (hwhy : w.phase = .checkPath ∨ w.phase = .resolve ∨ ∃ done, event = .fault done) :
      Published d w := by
    rcases hwhy with hphase | hphase | ⟨done, rfl⟩
    · exact h.published.resolve_right fun hearly => by simp [isEarly, hphase] at hearly
    · exact h.published.resolve_right fun hearly => by simp [isEarly, hphase] at hearly
    · exact (hfault done rfl).resolve_right (by simp [hbare])
  cases Worker.move_of_step hstep with
  | lost | killed => exact .of_gone rfl rfl
  | bare =>
    refine .of_gone ?_ rfl
    rw [Worker.assign]
    split <;> rfl
  | advance hgone hresolve => exact h.advance hgone hresolve
  | skip hcleanup => exact h.skip hcleanup
  | torn written hphase => exact h.torn written hphase
  | resolve bin payload hphase =>
    simp only [workerKept_iff, workerSound_iff, guarded_iff, Published] at h ⊢
    simp_all [isEarly]
  | leave hbare hcleanup hgone hwhy =>
    exact (h.leave (hpublished hbare hwhy) hbare hgone hcleanup).1
  | interrupt hbare hcleanup hgone hwhy =>
    exact (h.leave (hpublished hbare (.inr (.inr hwhy))) hbare hgone hcleanup).2

/-- The directory stays. -/
theorem made_of_step {event : WorkerAction} (hstep : w.step binDir now d event = some (w', d')) :
    d'.made = d.made := by
  have hwrite : (w.write now d).made = d.made := by
    cases hphase : w.phase with
    | removeLock =>
      simp only [Worker.write, hphase]
      split <;> rfl
    | _ => simp only [Worker.write, hphase]
  cases Worker.move_of_step hstep with
  | bare | advance | interrupt => exact hwrite
  | torn _ hphase => rcases hphase with hphase | hphase <;> simp only [Worker.tear, hphase]
  | _ => rfl

/-- A worker that is gone does nothing. -/
theorem phase_of_step {event : WorkerAction} (hstep : w.step binDir now d event = some (w', d')) :
    w.phase ≠ .gone := by
  cases Worker.move_of_step hstep with
  | lost hphase => simp [hphase]
  | bare hbare => exact fun hgone => by simp [Worker.isBare, hgone] at hbare
  | skip hcleanup => exact fun hgone => by simp [Worker.isCleanup, hgone] at hcleanup
  | torn _ hphase => rcases hphase with hphase | hphase <;> simp [hphase]
  | resolve _ _ hphase => simp [hphase]
  | killed hgone | advance hgone | leave _ _ hgone | interrupt _ _ hgone => exact hgone

/-! ## The router -/

/-- A worker is launched, and not handed off yet. -/
def PreparePhase.isHanding : PreparePhase → Bool
  | .exec .. | .publish _ | .handOff => true
  | _ => false

/-- No worker is alive. -/
def World.Quiet (s : World) : Prop := ∀ w ∈ s.workers, w.phase = .gone

/-- The stage is that of a launch, and fresh. -/
def World.Fresh (s : World) : Prop :=
  s.dir.stage = some "installing\n" ∧ s.now < s.dir.stageTime + seconds 10

/-- What is known where a `prepare` is. -/
def World.Reached (s : World) : PreparePhase → Prop
  | .waiting => True
  | .checkLive | .handOff => s.dir.made = true
  | .removeLockPid | .removeLock | .removeOld | .makePayload | .record _ | .download _
  | .writeStage _ => s.dir.made = true ∧ s.Quiet
  | .writeTarget _ | .fork _ => s.dir.made = true ∧ s.Quiet ∧ s.Fresh
  | .exec _ pid j => s.dir.made = true ∧
    ∀ (i : Nat) (w : Worker), s.workers[i]? = some w → w.phase ≠ .gone → i = j ∧ w.pid = pid
  | .publish pid => s.dir.made = true ∧
    ∀ w ∈ s.workers, w.phase ≠ .gone → w.pid = pid ∧ w.phase ≠ .exec

/-- Every worker that is alive is seen, and holds its lock. -/
def World.Watched (s : World) : Prop :=
  ∀ w ∈ s.workers, w.phase ≠ .gone → Guarded s.dir w

/-- A service that has handed no worker off, and is not about to, has none that it does not see. -/
structure ProcessSound (semver : Semver) (install : Installation) (s : World) (p : Process) :
    Prop where
  safe : p.updater.Safe semver
  install : p.updater.installation = some install
  tags : p.prepares.map (·.tag) = p.updater.prepares
  watched : p.updater.handedOff = false → (∀ q ∈ p.prepares, q.phase.isHanding = false) → s.Watched
  reached : ∀ q ∈ p.prepares, s.Reached q.phase

variable (semver install) in
/-- At most one worker is alive. -/
structure World.Sound (s : World) : Prop where
  each : ∀ w ∈ s.workers, w.phase ≠ .gone → WorkerSound s.now s.dir w
  single : ∀ (i j : Nat) (w w' : Worker), s.workers[i]? = some w → s.workers[j]? = some w' →
    w.phase ≠ .gone →
    w'.phase ≠ .gone → i = j
  process : ∀ p, s.process = some p → ProcessSound semver install s p

/-- Without a live worker nothing is asked of one. -/
theorem World.Quiet.each (h : s.Quiet) {P : Worker → Prop} :
    ∀ w ∈ s.workers, w.phase ≠ .gone → P w := fun w hw hgone => absurd (h w hw) hgone

/-- A service prepares one update at a time. -/
theorem ProcessSound.single {p : Process} (h : ProcessSound semver install s p) {i : Nat}
    {q : Prepare} (hq : p.prepares[i]? = some q) :
    p.prepares = [q] ∧ i = 0 ∧ p.updater.handedOff = false ∧ q.tag ∈ p.updater.prepares := by
  have hlength : p.prepares.length ≤ 1 := by
    rw [← List.length_map (f := (·.tag)), h.tags]
    exact h.safe.single
  have hlt := (List.getElem?_eq_some_iff.mp hq).1
  have hi : i = 0 := by omega
  subst hi
  obtain ⟨q', hq'⟩ := List.length_eq_one_iff.mp (show p.prepares.length = 1 by omega)
  obtain rfl : q' = q := by simpa [hq'] using hq
  have htag : q'.tag ∈ p.updater.prepares := by
    rw [← h.tags, hq']
    exact List.mem_cons_self ..
  refine ⟨hq', rfl, ?_, htag⟩
  by_contra hhanded
  rw [Bool.not_eq_false] at hhanded
  rw [(h.safe.handed hhanded).2.2] at htag
  cases htag

/-- Where nothing has been handed off, a worker is alive only behind its lock. -/
theorem ProcessSound.watched_of_prepare {p : Process} (h : ProcessSound semver install s p)
    {i : Nat}
    {q : Prepare} (hq : p.prepares[i]? = some q) (hhanding : q.phase.isHanding = false) :
    s.Watched := by
  obtain ⟨hprepares, -, hhanded, -⟩ := h.single hq
  refine h.watched hhanded ?_
  rw [hprepares]
  exact List.forall_mem_singleton.mpr hhanding

/-! ## Sections without files -/

variable (semver) in
/-- When a `status` takes an installation for over. -/
theorem status_over {u : Updater} {files : WorkerFiles} (hhanded : u.handedOff = true)
    (hinstall : u.installation = some install) (hprivate : files.isPrivate = true)
    (h : (u.status semver files).handedOff = false) :
    (smallFile files.stage 32).getD "" ∈ ["complete", "error"] ∨
      workerLive files install.stateDir = false ∧ workerStarting files = false := by
  rw [Updater.status, hhanded, hinstall] at h
  simp only [Bool.not_true, Bool.false_eq_true, if_false, hprivate] at h
  split at h
  · next hover => simpa [or_assoc] using hover
  · cases h

/-- A service that looks sees every worker that has not put its lock and its number in place. -/
theorem watched_of_status (hinstall : install ∈ managed) (hs : s.Sound semver install)
    {u : Updater} (hu : u.installation = some install)
    (hwatched : u.handedOff = false → s.Watched)
    (hhanded : (u.status semver (s.observe install others)).handedOff = false) : s.Watched := by
  cases hbefore : u.handedOff with
  | false => exact hwatched hbefore
  | true =>
    intro w hw hgone
    have hsound := hs.each w hw hgone
    rcases status_over semver hbefore hu rfl hhanded with hstage | ⟨hlive, hstarting⟩
    · -- the stage of a worker that is at work is neither
      rcases hsound.stage with hworking | hworking | hguarded
      · have hsmall : smallFile (some (entry "installing\n")) 32 = some "installing" := by
          decide +kernel
        simp [World.observe, hworking, hsmall] at hstage
      · have hsmall : smallFile (some (entry "restarting\n")) 32 = some "restarting" := by
          decide +kernel
        simp [World.observe, hworking, hsmall] at hstage
      · exact hguarded
    · rcases hsound.published with hpublished | ⟨-, hfresh, htime⟩
      · rw [workerLive_observe hinstall hw hgone hsound.pid hpublished] at hlive
        cases hlive
      · rw [workerStarting_observe hfresh htime] at hstarting
        cases hstarting

/-- The sections of the service that are no `prepare`. -/
inductive IsSection : UpdaterAction → Prop
  | status (files : WorkerFiles) : IsSection (.status files)
  | check (force : Bool) (now : Nat) : IsSection (.check force now)
  | checked (response : Except IoError Release) (now : Nat) : IsSection (.checked response now)
  | start : IsSection .start

/-- What such a section leaves alone. -/
theorem section_frame {u u' : Updater} (hu : u.Safe semver) {action : UpdaterAction}
    (hsection : IsSection action) (hstep : u.step semver action = some u') :
    u'.installation = u.installation ∧ u.prepares <+: u'.prepares ∧
      ((∀ files, action ≠ .status files) → u'.handedOff = u.handedOff) := by
  unfold Updater.step at hstep
  rw [hu.alive, if_neg Bool.false_ne_true] at hstep
  cases hsection with
  | status files =>
    obtain rfl := Option.some.inj hstep
    obtain ⟨-, hinstall, -, -, hprepares, -⟩ := u.status_frame semver files
    exact ⟨hinstall, hprepares ▸ List.prefix_refl _, fun hstatus => absurd rfl (hstatus files)⟩
  | check force now =>
    obtain rfl := Option.some.inj hstep
    rw [Updater.check]
    split
    · exact ⟨rfl, List.prefix_refl _, fun _ => rfl⟩
    · exact ⟨rfl, List.prefix_refl _, fun _ => rfl⟩
  | checked response now =>
    obtain ⟨-, hstep⟩ := Option.ite_none_right_eq_some.mp hstep
    obtain rfl := Option.some.inj hstep
    rw [Updater.checked]
    dsimp only
    split
    · exact ⟨rfl, List.prefix_refl _, fun _ => rfl⟩
    · exact ⟨rfl, List.prefix_refl _, fun _ => rfl⟩
  | start =>
    cases hstart : u.start semver with
    | none => exact absurd hstart hu.start_ne_none
    | some result =>
      simp only [hstart] at hstep
      cases result with
      | error e =>
        obtain rfl := Option.some.inj hstep
        exact ⟨rfl, List.prefix_refl _, fun _ => rfl⟩
      | ok v =>
        obtain rfl := Option.some.inj hstep
        obtain rfl | ⟨hprepares, -, -, -, latest, -, -, rfl⟩ := hu.start_cases hstart
        · exact ⟨rfl, List.prefix_refl _, fun _ => rfl⟩
        · exact ⟨rfl, hprepares ▸ List.nil_prefix, fun _ => rfl⟩

/-- A section without files keeps what is known of the service. -/
theorem World.Sound.act (hplain : semver.Plain) (hinstall : install ∈ managed)
    (hs : s.Sound semver install) {looks : Bool} {action : UpdaterAction}
    (hsection : IsSection action)
    (hstatus : ∀ files, action = .status files → looks = false ∧ files = s.observe install others)
    (hstep : s.act semver install others looks action = some t) : t.Sound semver install := by
  obtain ⟨p, hp, hstep⟩ := Option.bind_eq_some_iff.mp hstep
  split at hstep
  · cases hstep
  obtain ⟨u', hu', rfl⟩ := Option.map_eq_some_iff.mp hstep
  have hprocess := hs.process p hp
  -- behind its own look
  have hlooked : ∀ u, u = (if looks then p.updater.status semver (s.observe install others)
      else p.updater) → u.Safe semver ∧ u.installation = some install ∧
        u.prepares = p.updater.prepares ∧
        (u.handedOff = false → (∀ q ∈ p.prepares, q.phase.isHanding = false) → s.Watched) := by
    rintro u rfl
    cases looks with
    | false => exact ⟨hprocess.safe, hprocess.install, rfl, hprocess.watched⟩
    | true =>
      obtain ⟨-, hinstallation, -, -, hprepares, -⟩ :=
        p.updater.status_frame semver (s.observe install others)
      refine ⟨hprocess.safe.toSound.status _, hinstallation.trans hprocess.install, hprepares, ?_⟩
      exact fun hhanded hhanding => watched_of_status hinstall hs hprocess.install
        (fun hbefore => hprocess.watched hbefore hhanding) hhanded
  generalize (if looks then p.updater.status semver (s.observe install others) else p.updater) = u
    at hlooked hu'
  obtain ⟨hsafe, hinstallation, hprepares, hwatched⟩ := hlooked u rfl
  obtain ⟨hinstallation', ⟨added, hadded⟩, hhanded⟩ := section_frame hsafe hsection hu'
  refine ⟨hs.each, hs.single, fun p' hp' => ?_⟩
  obtain rfl := Option.some.inj hp'
  refine ⟨hsafe.step hplain hu', hinstallation'.trans hinstallation, ?_, ?_, ?_⟩
  · rw [List.map_append, hprocess.tags, ← hprepares, List.map_map, ← hadded]
    simp [Function.comp_def]
  · intro hnot hhanding
    have hhanding' : ∀ q ∈ p.prepares, q.phase.isHanding = false := fun q hq =>
      hhanding q (List.mem_append_left _ hq)
    by_cases hlook : ∃ files, action = .status files
    · obtain ⟨files, rfl⟩ := hlook
      obtain ⟨rfl, rfl⟩ := hstatus files rfl
      unfold Updater.step at hu'
      rw [hsafe.alive, if_neg Bool.false_ne_true] at hu'
      obtain rfl := Option.some.inj hu'
      have hafter : s.Watched := watched_of_status hinstall hs hinstallation
        (fun hbefore => hwatched hbefore hhanding') hnot
      exact hafter
    · exact hwatched (hhanded (fun files hfiles => hlook ⟨files, hfiles⟩) ▸ hnot) hhanding'
  · intro q hq
    rcases List.mem_append.mp hq with hq | hq
    · exact hprocess.reached q hq
    · obtain ⟨tag, -, rfl⟩ := List.mem_map.mp hq
      exact trivial

/-! ## Files that a worker does not mind -/

/-- A worker finds the second directory as it would the first. -/
structure Alike (d d' : StateDir) : Prop where
  made : d.made = true → d'.made = true
  stage : d'.stage = d.stage
  stageTime : d'.stageTime = d.stageTime
  pid : d'.pid = d.pid
  lock : d'.lock = d.lock

/-- A directory is like itself. -/
theorem Alike.refl (d : StateDir) : Alike d d := ⟨id, rfl, rfl, rfl, rfl⟩

/-- Directories that are alike guard the same workers. -/
theorem Alike.guarded (h : Alike d d') (hw : Guarded d w) : Guarded d' w :=
  ⟨⟨h.pid.trans hw.published.1, hw.published.2⟩, hw.locked⟩

/-- A worker does not mind what they differ in. -/
theorem Alike.sound (h : Alike d d') (hw : WorkerSound now d w) : WorkerSound now d' w where
  pid := hw.pid
  made := h.made hw.made
  published := by
    refine hw.published.imp (fun hpublished => ?_) fun ⟨hearly, hstage, htime⟩ => ?_
    · exact ⟨h.pid.trans hpublished.1, hpublished.2⟩
    · exact ⟨hearly, h.stage.trans hstage, h.stageTime ▸ htime⟩
  stage := hw.stage.imp h.stage.trans (·.imp h.stage.trans h.guarded)
  lock hexec hmake := h.lock.trans (hw.lock hexec hmake)
  started := hw.started

/-- A payload that is dropped is nothing a worker minds. -/
theorem alike_dropPayload (d : StateDir) (phase : PreparePhase) :
    Alike d (dropPayload d phase) := by
  rw [dropPayload]
  split
  · exact .refl d
  · exact ⟨id, rfl, rfl, rfl, rfl⟩

/-- Nor are the payloads of all preparations. -/
theorem alike_foldl_dropPayload (l : List Prepare) (d : StateDir) :
    Alike d (l.foldl (fun d q => dropPayload d q.phase) d) := by
  induction l generalizing d with
  | nil => exact .refl d
  | cons q l ih =>
    have hfirst := alike_dropPayload d q.phase
    have hrest := ih (dropPayload d q.phase)
    exact ⟨fun h => hrest.made (hfirst.made h), hrest.stage.trans hfirst.stage,
      hrest.stageTime.trans hfirst.stageTime, hrest.pid.trans hfirst.pid,
      hrest.lock.trans hfirst.lock⟩

end TgWsProxy.Update
