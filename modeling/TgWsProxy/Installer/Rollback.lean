import TgWsProxy.Installer.Preparation

/-!
# The rollback

What `cleanup` restores under `CHANGED=1`, and the replacement of the files: each fault in it is
rolled back to the machine as it was exactly when it is safe.
-/

namespace TgWsProxy.Installer

open TgWsProxy.Core

variable {o : Options} {r : Release} {m : Machine} {fault : Option (Command × Fault)}

/-! ## The rollback -/

/-- What a rollback needs: the copies, and what was noted of the old service. -/
structure Saved (o : Options) (m : Machine) (w : World) : Prop where
  trapped : w.trapped = true
  changed : w.changed = true
  hadBin : w.hadBin = m.bin.isSome
  binPrevious : w.binPrevious = m.bin
  hadInit : w.hadInit = m.init.isSome
  initPrevious : w.initPrevious = m.init
  oldRunning : w.oldRunning = (serviced o m && m.running)

/-- The commands that put the new files in their place and start the service leave it. -/
theorem Saved.effect {w : World} (h : Saved o m w) {c : Command}
    (hc : c ∈ [.moveBin, .moveInit, .moveConfig, .chmodConfig, .setNewConfig, .start]) :
    Saved o m (Installer.effect r c w) := by
  cases c
  all_goals first
    | exact ⟨h.trapped, h.changed, h.hadBin, h.binPrevious, h.hadInit, h.initPrevious, h.oldRunning⟩
    | exact absurd hc (by decide)

/-- An interrupted command of the replacement leaves the backup. -/
theorem Saved.interrupted {w : World} (h : Saved o m w) {c : Command}
    (hc : c ∈ [.moveBin, .moveInit, .moveConfig, .chmodConfig, .setNewConfig, .start]) (f : Fault) :
    Saved o m (Script.interrupted (Installer.effect r) c f w) := by
  rw [Script.interrupted]
  split
  · exact h.effect hc
  · exact h

/-- `cleanup` brings back what is saved. -/
theorem Saved.conclude {w : World} (h : Saved o m w) : (conclude o w).toMachine =
    { bin := m.bin
      init := m.init
      config := if w.newConfig then none else w.config
      running := if serviced o m && m.running then true
        else if !o.root && isExecutable w.init then false else w.running } := by
  have hbin : (if w.hadBin then w.binPrevious else none) = m.bin := by
    rw [h.hadBin, h.binPrevious]
    cases m.bin <;> rfl
  have hinit : (if w.hadInit then w.initPrevious else none) = m.init := by
    rw [h.hadInit, h.initPrevious]
    cases m.init <;> rfl
  have hrestart : (w.oldRunning && isExecutable m.init) = (serviced o m && m.running) := by
    rw [h.oldRunning, serviced]
    cases isExecutable m.init <;> simp
  rw [Installer.conclude, if_pos h.trapped, cleanup, if_pos h.changed, restore]
  dsimp only
  rw [hbin, hinit, hrestart]

/-- Before the new init script is in its place a rollback restores all. -/
theorem Saved.conclude_old {w : World} (h : Saved o m w) (hinit : w.init = m.init)
    (hrunning : w.running = (!serviced o m && m.running)) (hconfig : w.config = m.config)
    (hnew : w.newConfig = false) : (Installer.conclude o w).toMachine = m := by
  rw [h.conclude, hinit, hrunning, hconfig, hnew, if_neg Bool.false_ne_true]
  have hrunning : (if serviced o m && m.running then true
      else if serviced o m then false else !serviced o m && m.running) = m.running := by
    cases serviced o m <;> cases m.running <;> rfl
  exact congrArg (Machine.mk m.bin m.init m.config) hrunning

/-- The init script of a release can be run. -/
theorem isExecutable_initFile : isExecutable (some r.initFile) = true := by
  simp [isExecutable, Release.initFile]

/-- Behind it the old service is started again by the old init script or not at all. -/
theorem Saved.conclude_new {w : World} (h : Saved o m w) (hinit : w.init = some r.initFile)
    (hroot : o.root = true → w.running = m.running) : (Installer.conclude o w).toMachine = m ↔
      (if w.newConfig then none else w.config) = m.config ∧
        (o.root = false → m.running = true → isExecutable m.init) := by
  rw [h.conclude, hinit, isExecutable_initFile]
  obtain ⟨bin, init, config, running⟩ := m
  cases hr : o.root
  · cases running <;> simp [serviced, hr]
  · simp [serviced, hr, hroot hr]

/-! ## The new files -/

/-- The world with the old files still in their place. -/
def replacing (o : Options) (r : Release) (m : Machine) (told : Bool) : World :=
  { halted o r m told with changed := true }

/-- The world with the new binary and the new init script in their place. -/
def exchanged (o : Options) (r : Release) (m : Machine) (told : Bool) : World :=
  { replacing o r m told with
    bin := some r.binaryFile, binNew := none
    init := some r.initFile, initNew := none }

/-- The world with a new config in its place, not noted yet. -/
def configured (o : Options) (r : Release) (m : Machine) (told : Bool) : World :=
  { exchanged o r m told with
    config := some ⟨r.config, 0o600⟩
    work := some ⟨some r.binary, some r.init, none⟩ }

/-- The world with all files in their place. -/
def replaced (o : Options) (r : Release) (m : Machine) (told : Bool) : World :=
  if m.config.isNone then { configured o r m told with newConfig := true } else exchanged o r m told

/-- The backup is there when the replacement begins. -/
theorem saved_replacing {told : Bool} (hnoted : Noted o m fault told)
    (hask : faultAt fault .askStatus = none) : Saved o m (replacing o r m told) := by
  refine ⟨rfl, rfl, rfl, rfl, rfl, rfl, ?_⟩
  change (serviced o m && told) = _
  cases hserviced : serviced o m with
  | false => rfl
  | true => rw [hnoted hserviced hask]

/-- When a command behind the init script is safe. -/
theorem safe_afterInit {c : Command} {f : Fault} (h : AfterInit o m c f) : Safe o r m c f ↔
    (c = .moveConfig ∧ f.done = true ∨ c = .chmodConfig → m.config.isSome) ∧
      (o.root = false → m.running = true → isExecutable m.init) := by
  refine ⟨fun hs => ⟨hs.config, hs.service h⟩, fun ⟨hconfig, hservice⟩ =>
    ⟨?_, hconfig, fun _ => hservice, fun hlate => absurd hlate h.not_late⟩⟩
  rintro rfl
  exact h.elim

/-- A fault that finds the old init script. -/
theorem Saved.verdict_old {stop : Stop Command World} (h : Saved o m stop.world)
    (hinit : stop.world.init = m.init)
    (hrunning : stop.world.running = (!serviced o m && m.running))
    (hconfig : stop.world.config = m.config) (hnew : stop.world.newConfig = false)
    (hsafe : Safe o r m stop.command stop.fault) : Verdict o r m stop :=
  iff_of_true (h.conclude_old hinit hrunning hconfig hnew) hsafe

/-- A fault that finds the new one. -/
theorem Saved.verdict_new {stop : Stop Command World} (h : Saved o m stop.world)
    (hinit : stop.world.init = some r.initFile)
    (hroot : o.root = true → stop.world.running = m.running)
    (hafter : AfterInit o m stop.command stop.fault)
    (hconfig : (if stop.world.newConfig then none else stop.world.config) = m.config ↔
      (stop.command = .moveConfig ∧ stop.fault.done = true ∨ stop.command = .chmodConfig →
        m.config.isSome)) : Verdict o r m stop := by
  rw [Verdict, h.conclude_new hinit hroot, hconfig, safe_afterInit hafter]

/-- Under a root of its own no service is stopped. -/
theorem running_of_root (hroot : o.root = true) :
    (!serviced o m && m.running) = m.running := by
  rw [serviced, hroot]
  rfl

/-- From here on `cleanup` rolls back. -/
theorem triple_setChanged {told : Bool} (hnoted : Noted o m fault told) :
    Script.Triple (effect r) (faultAt fault) (· = halted o r m told) (.assign .setChanged)
      (· = replacing o r m told) (Verdict o r m) := by
  have hcalm : Command.setChanged ∉ risky := by decide
  refine .assign ?_ ?_
  · rintro w rfl -
    rfl
  · rintro w f rfl hfault -
    have hsaved : Saved o m (replacing o r m told) :=
      saved_replacing hnoted (faultAt_unique hfault (by decide))
    exact Saved.verdict_old hsaved rfl rfl rfl rfl (safe_of_calm hcalm f)

/-- The binary is replaced. -/
theorem triple_moveBin {told : Bool} (hnoted : Noted o m fault told) :
    Script.Triple (effect r) (faultAt fault) (· = replacing o r m told) (.run .moveBin)
      (· = effect r .moveBin (replacing o r m told)) (Verdict o r m) := by
  have hcalm : Command.moveBin ∉ risky := by decide
  refine .run ?_ ?_
  · rintro w rfl -
    rfl
  · rintro w f rfl hfault
    have hsaved : Saved o m (replacing o r m told) :=
      saved_replacing hnoted (faultAt_unique hfault (by decide))
    refine (hsaved.interrupted (by decide) f).verdict_old ?_ ?_ ?_ ?_
      (safe_of_calm hcalm f)
    all_goals
      rw [Script.interrupted]
      split <;> rfl

/-- The init script is replaced. -/
theorem triple_moveInit {told : Bool} (hnoted : Noted o m fault told) :
    Script.Triple (effect r) (faultAt fault) (· = effect r .moveBin (replacing o r m told))
      (.run .moveInit) (fun w => w = exchanged o r m told ∧ Survives o r m fault .moveInit)
      (Verdict o r m) := by
  have hne : Command.moveInit ≠ .stop := by decide
  refine .run ?_ ?_
  · rintro w rfl hnone
    exact ⟨rfl, survives_of_none hnone⟩
  · rintro w ⟨signal, done⟩ rfl hfault
    have hsaved : Saved o m (effect r .moveBin (replacing o r m told)) :=
      (saved_replacing hnoted (faultAt_unique hfault (by decide))).effect (by decide)
    cases done with
    | false =>
      refine Saved.verdict_old hsaved rfl rfl rfl rfl (safe_of_harmless hne ?_ nofun False.elim)
      rintro (⟨h, -⟩ | h) <;> cases h
    | true =>
      have hstop := hsaved.interrupted (r := r) (c := .moveInit) (by decide)
        ⟨signal, true⟩
      refine Saved.verdict_new hstop rfl running_of_root rfl (iff_of_true rfl ?_)
      rintro (⟨h, -⟩ | h) <;> cases h

/-- The backup is there when both are replaced. -/
theorem saved_exchanged {told : Bool} (hnoted : Noted o m fault told)
    (hask : faultAt fault .askStatus = none) : Saved o m (exchanged o r m told) := by
  have hbin : Saved o m (effect r .moveBin (replacing o r m told)) :=
    (saved_replacing hnoted hask).effect (by decide)
  exact hbin.effect (r := r) (c := .moveInit) (by decide)

private theorem moveConfig_exchanged (hconfig : m.config = none) (told : Bool) :
    effect r .moveConfig (exchanged o r m told) = configured o r m told := by
  have hwork : (exchanged o r m told).work = some ⟨some r.binary, some r.init, some r.config⟩ := by
    change some (Work.mk _ _ (if m.config.isSome then none else _)) = _
    rw [hconfig]
    rfl
  rw [effect, hwork]
  rfl

/-- A configuration that is written where there was none loses no backup. -/
theorem Saved.configured {told : Bool} (h : Saved o m (exchanged o r m told))
    (hconfig : m.config = none) : Saved o m (configured o r m told) := by
  rw [← moveConfig_exchanged hconfig]
  exact h.effect (by decide)

/-- A fault behind the new configuration. -/
theorem verdict_configured {told : Bool} {c : Command} {f : Fault}
    (hsaved : Saved o m (exchanged o r m told)) (hconfig : m.config = none)
    (hc : c = .moveConfig ∧ f.done = true ∨ c = .chmodConfig) :
    Verdict o r m ⟨c, f, configured o r m told⟩ := by
  have hafter : AfterInit o m c f := by
    obtain ⟨rfl, -⟩ | rfl := hc <;> exact hconfig
  refine Saved.verdict_new (hsaved.configured hconfig) rfl running_of_root hafter
    (iff_of_false ?_ ?_)
  · rw [hconfig]
    exact Option.some_ne_none _
  · rw [hconfig]
    exact fun h => nomatch h hc

/-- An existing config is not touched. -/
theorem safe_of_isSome (hold : m.config.isSome = true) {c : Command}
    (hc : c ∈ [.moveConfig, .chmodConfig, .setNewConfig]) (f : Fault) : Safe o r m c f := by
  have hne : m.config ≠ none := Option.isSome_iff_ne_none.mp hold
  refine ⟨?_, fun _ => hold, fun h => ?_, fun h => ?_⟩
  · rintro rfl
    exact absurd hc (by decide)
  · cases c
    all_goals first
      | exact absurd h hne
      | exact absurd h.1 hne
      | exact absurd hc (by decide)
  · cases c
    all_goals first
      | exact h.elim
      | exact absurd hc (by decide)

/-- A config is put in its place where there is none. -/
theorem triple_config {told : Bool} (hnoted : Noted o m fault told) :
    Script.Triple (effect r) (faultAt fault) (· = exchanged o r m told)
      (.whether (·.config.isNone)
        (.seq (.run .moveConfig) (.seq (.run .chmodConfig) (.assign .setNewConfig))) .skip)
      (fun w => w = replaced o r m told ∧
        ∀ c ∈ [.moveConfig, .chmodConfig, .setNewConfig], Survives o r m fault c)
      (Verdict o r m) := by
  refine .whether (.seq (R := fun w => w = configured o r m told ∧ m.config = none ∧
      Survives o r m fault .moveConfig) (.run ?_ ?_)
    (.seq (R := fun w => w = configured o r m told ∧ m.config = none ∧
      ∀ c ∈ [.moveConfig, .chmodConfig], Survives o r m fault c) (.run ?_ ?_) (.assign ?_ ?_)))
    (.skip ?_)
  · rintro w ⟨rfl, hnone⟩ hfault
    have hconfig : m.config = none := Option.isNone_iff_eq_none.mp hnone
    exact ⟨moveConfig_exchanged hconfig told, hconfig, survives_of_none hfault⟩
  · rintro w ⟨signal, done⟩ ⟨rfl, hnone⟩ hfault
    have hconfig : m.config = none := Option.isNone_iff_eq_none.mp hnone
    have hsaved : Saved o m (exchanged o r m told) :=
      saved_exchanged hnoted (faultAt_unique hfault (by decide))
    cases done with
    | false =>
      refine Saved.verdict_new hsaved rfl running_of_root hconfig (iff_of_true rfl ?_)
      rintro (⟨-, h⟩ | h) <;> cases h
    | true =>
      have hleft : Script.interrupted (effect r) .moveConfig ⟨signal, true⟩
          (exchanged o r m told) = configured o r m told := moveConfig_exchanged hconfig told
      rw [hleft]
      exact verdict_configured hsaved hconfig (.inl ⟨rfl, rfl⟩)
  · rintro w ⟨rfl, hconfig, hmove⟩ hfault
    refine ⟨rfl, hconfig, List.forall_mem_cons.mpr ⟨hmove, List.forall_mem_singleton.mpr ?_⟩⟩
    exact survives_of_none hfault
  · rintro w f ⟨rfl, hconfig, -⟩ hfault
    have hsaved : Saved o m (exchanged o r m told) :=
      saved_exchanged hnoted (faultAt_unique hfault (by decide))
    have hleft : Script.interrupted (effect r) .chmodConfig f (configured o r m told) =
        configured o r m told := by
      rw [Script.interrupted]
      split <;> rfl
    rw [hleft]
    exact verdict_configured hsaved hconfig (.inr rfl)
  · rintro w ⟨rfl, hconfig, hmove⟩ hquiet
    refine ⟨?_, List.forall_mem_append.mpr ⟨hmove, List.forall_mem_singleton.mpr fun f hf => ?_⟩⟩
    · rw [replaced, hconfig]
      rfl
    · refine safe_of_harmless (by decide) ?_ (fun h => ?_) False.elim
      · rintro (⟨h, -⟩ | h) <;> cases h
      · cases (hquiet f hf).symm.trans h.2
  · rintro w f ⟨rfl, hconfig, -⟩ hfault hsignal
    have hsaved : Saved o m (configured o r m told) :=
      (saved_exchanged hnoted (faultAt_unique hfault (by decide))).configured hconfig
    have hstop := hsaved.effect (r := r) (c := .setNewConfig) (by decide)
    refine Saved.verdict_new hstop rfl running_of_root ⟨hconfig, hsignal⟩
      (iff_of_true hconfig.symm ?_)
    rintro (⟨h, -⟩ | h) <;> cases h
  · rintro w ⟨rfl, hsome⟩
    have hconfig : m.config.isNone = false := hsome
    have hold : m.config.isSome = true := by
      rw [← Option.not_isNone, hconfig]
      rfl
    refine ⟨?_, fun c hc f _ => safe_of_isSome hold hc f⟩
    rw [replaced, hconfig]
    rfl

/-- The replacement as a whole. -/
theorem triple_replace {told : Bool} (hnoted : Noted o m fault told) :
    Script.Triple (effect r) (faultAt fault) (· = halted o r m told) replace
      (fun w => w = replaced o r m told ∧
        ∀ c ∈ [.moveInit, .moveConfig, .chmodConfig, .setNewConfig], Survives o r m fault c)
      (Verdict o r m) := by
  refine .seq (triple_setChanged hnoted) (.seq (triple_moveBin hnoted)
    (.seq (triple_moveInit hnoted) (.given fun hinit => ?_)))
  refine (triple_config hnoted).mono ?_
  rintro w ⟨hw, hconfig⟩
  exact ⟨hw, List.forall_mem_cons.mpr ⟨hinit, hconfig⟩⟩

end TgWsProxy.Installer
