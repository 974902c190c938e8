import TgWsProxy.Installer.Script

/-!
# Before the files are replaced

The faults that a run survives, and the part of the script that touches no file of the machine: up
to the stop of the old service.
-/

namespace TgWsProxy.Installer

open TgWsProxy.Core

/-! ## When a run is atomic -/

/-- Whether the command goes wrong when the new init script is in its place, or may be. -/
def AfterInit (o : Options) (m : Machine) (c : Command) (f : Fault) : Prop :=
  match c with
  | .moveInit => f.done = true
  | .moveConfig | .chmodConfig => m.config = none
  | .setNewConfig => m.config = none ∧ f.signal = true
  | .start | .sleep | .checkStatus => o.noStart = false
  | .enable => o.openwrt = true ∧ o.root = false
  | _ => False

/-- Whether the command goes wrong when the installation is complete. -/
def Late (c : Command) (f : Fault) : Prop :=
  match c with
  | .clearChanged => f.signal = true
  | .sayInstalled | .sayConfig | .sayService | .sayPanel | .sayLink => True
  | _ => False

/-- The machine is as the installation leaves it. -/
structure Current (o : Options) (r : Release) (m : Machine) : Prop where
  bin : m.bin = some r.binaryFile
  init : m.init = some r.initFile
  config : m.config.isSome
  started : o.noStart = false → m.running = true
  stopped : o.noStart = true → o.root = false → m.running = false

/-- The faults that a run survives. -/
structure Safe (o : Options) (r : Release) (m : Machine) (c : Command) (f : Fault) : Prop where
  /-- The service does not run, or is not stopped by the command that should stop it. -/
  stop : c = .stop → o.root = false → isExecutable m.init → m.running = true → f.done = false
  /-- No new config is left in its place. -/
  config : c = .moveConfig ∧ f.done = true ∨ c = .chmodConfig → m.config.isSome
  /-- The old init script can start what the new one has stopped. -/
  service : AfterInit o m c f → o.root = false → m.running = true → isExecutable m.init
  late : Late c f → Current o r m

/-- The commands at which a fault is not always safe. -/
def risky : List Command :=
  .stop :: ([.moveInit, .moveConfig, .chmodConfig, .setNewConfig] ++
    ([.start, .sleep, .checkStatus, .enable] ++
      [.clearChanged, .sayInstalled, .sayConfig, .sayService, .sayPanel, .sayLink]))

/-- The commands from the stop of the old service on. -/
def later : List Command := .setChanged :: .moveBin :: risky

variable {o : Options} {r : Release} {m : Machine} {fault : Option (Command × Fault)}

/-- Where a run stops it is atomic exactly when its fault is safe. -/
def Verdict (o : Options) (r : Release) (m : Machine) (stop : Stop Command World) : Prop :=
  (conclude o stop.world).toMachine = m ↔ Safe o r m stop.command stop.fault

/-- The script before it touches the machine. -/
def Untouched (m : Machine) (w : World) : Prop := w.toMachine = m ∧ w.changed = false

/-- An early command touches none of the files. -/
theorem untouched_effect {c : Command} (hc : c ∉ later) {w : World} (h : Untouched m w) :
    Untouched m (effect r c w) := by
  obtain ⟨rfl, hchanged⟩ := h
  cases c
  all_goals first
    | exact ⟨rfl, hchanged⟩
    | exact absurd (by decide) hc

/-- No command is both behind the init script and late. -/
theorem AfterInit.not_late {c : Command} {f : Fault} (h : AfterInit o m c f) : ¬Late c f := by
  intro hlate
  cases c
  all_goals first
    | exact h.elim
    | exact hlate.elim

/-- A command that none of the four conditions names is safe. -/
theorem safe_of_harmless {c : Command} {f : Fault} (hstop : c ≠ .stop)
    (hconfig : ¬(c = .moveConfig ∧ f.done = true ∨ c = .chmodConfig)) (hafter : ¬AfterInit o m c f)
    (hlate : ¬Late c f) : Safe o r m c f :=
  ⟨fun h => absurd h hstop, fun h => absurd h hconfig, fun h => absurd h hafter,
    fun h => absurd h hlate⟩

/-- So is one outside of the risky commands. -/
theorem safe_of_calm {c : Command} (hc : c ∉ risky) (f : Fault) : Safe o r m c f := by
  refine safe_of_harmless ?_ ?_ ?_ ?_
  · rintro rfl
    exact hc (by decide)
  · rintro (⟨rfl, -⟩ | rfl)
    · exact hc (by decide)
    · exact hc (by decide)
  · intro h
    cases c
    all_goals first
      | exact h.elim
      | exact hc (by decide)
  · intro h
    cases c
    all_goals first
      | exact h.elim
      | exact hc (by decide)

private theorem not_mem_risky {c : Command} (hc : c ∉ later) : c ∉ risky :=
  fun h => hc (List.mem_cons_of_mem _ (List.mem_cons_of_mem _ h))

/-- Where `CHANGED` is not set the exit leaves the machine. -/
theorem conclude_of_not_changed {w : World} (hchanged : w.changed = false) :
    (conclude o w).toMachine = w.toMachine := by
  rw [conclude]
  split
  · rw [cleanup, hchanged]
    rfl
  · rfl

/-- `cleanup` leaves untouched files untouched. -/
theorem conclude_untouched {w : World} (h : Untouched m w) : (conclude o w).toMachine = m :=
  (conclude_of_not_changed h.2).trans h.1

/-- An early command that fails leaves the machine as it was. -/
theorem verdict_early {stop : Stop Command World} (hc : stop.command ∉ later)
    (h : Untouched m stop.world) : Verdict o r m stop :=
  iff_of_true (conclude_untouched h) (safe_of_calm (not_mem_risky hc) _)

/-- Commands that touch nothing of the machine. -/
theorem triple_early {P Q : World → Prop} {cs : List Command} (hcs : ∀ c ∈ cs, c ∉ later)
    (hP : ∀ w, P w → Untouched m w)
    (hQ : ∀ w, P w → Q (cs.foldl (fun w c => effect r c w) w)) :
    Script.Triple (effect r) (faultAt fault) P (.all cs) Q (Verdict o r m) :=
  .all (I := Untouched m) hP (fun c hc _ hw => untouched_effect (hcs c hc) hw)
    (fun w hw _ => hQ w hw) fun _ hmem _ hw => verdict_early (hcs _ hmem) hw

/-- The world with the traps set. -/
def prepared (m : Machine) : World := { toMachine := m, lock := true, trapped := true }

/-- The world with the new files tried out. -/
def checked (r : Release) (m : Machine) : World :=
  { prepared m with
    work := some ⟨some r.binary, some r.init, if m.config.isSome then none else some r.config⟩ }

/-- The world with the new files and the copies beside the old ones. -/
def ready (r : Release) (m : Machine) : World :=
  { checked r m with
    binNew := some r.binaryFile, initNew := some r.initFile
    binPrevious := m.bin, initPrevious := m.init
    hadBin := m.bin.isSome, hadInit := m.init.isSome }

/-- The preparation prepares. -/
theorem triple_prepare : Script.Triple (effect r) (faultAt fault) (· = { toMachine := m }) prepare
    (· = prepared m) (Verdict o r m) := by
  refine .seq (R := (· = { toMachine := m, lock := true })) (triple_early (by decide) ?_ ?_)
    (.assign ?_ ?_)
  · rintro w rfl
    exact ⟨rfl, rfl⟩
  · rintro w rfl
    rfl
  · rintro w rfl -
    rfl
  · rintro w f rfl - -
    have hearly : Command.setTraps ∉ later := by decide
    exact verdict_early hearly ⟨rfl, rfl⟩

private theorem sources_early : ∀ c ∈ .makeWork :: sources o ++
    [.chmodWork, .checkVersion], c ∉ later := by
  rw [sources]
  split_ifs <;> decide

/-- The checks leave the release checked. -/
theorem triple_check : Script.Triple (effect r) (faultAt fault) (· = prepared m) (check o)
    (· = checked r m) (Verdict o r m) := by
  refine .seq (R := (· = { prepared m with work := some ⟨some r.binary, some r.init, none⟩ }))
    (triple_early sources_early ?_ ?_) (.whether (triple_early (by decide) ?_ ?_)
      (triple_early (by decide) ?_ ?_))
  · rintro w rfl
    exact ⟨rfl, rfl⟩
  · rintro w rfl
    rw [sources]
    split_ifs <;> rfl
  · rintro w ⟨rfl, -⟩
    exact ⟨rfl, rfl⟩
  · rintro w ⟨rfl, hsome⟩
    have hconfig : m.config.isSome = true := hsome
    rw [checked, if_pos hconfig]
    rfl
  · rintro w ⟨rfl, -⟩
    exact ⟨rfl, rfl⟩
  · rintro w ⟨rfl, hnone⟩
    have hconfig : m.config.isSome = false := hnone
    rw [checked, if_neg (Bool.eq_false_iff.mp hconfig)]
    rfl

/-- The backup is made. -/
theorem triple_backup : Script.Triple (effect r) (faultAt fault) (· = checked r m) backup
    (· = ready r m) (Verdict o r m) := by
  have hbin : Command.setHadBin ∉ later := by decide
  have hinit : Command.setHadInit ∉ later := by decide
  let w₁ : World := { checked r m with binNew := some r.binaryFile, initNew := some r.initFile }
  let w₂ : World := { w₁ with binPrevious := m.bin, hadBin := m.bin.isSome }
  refine .seq (R := (· = w₁)) (triple_early (by decide) ?_ ?_) (.seq (R := (· = w₂))
    (.whether (.seq (R := fun w => w = { w₁ with binPrevious := m.bin } ∧ m.bin.isSome = true)
      (triple_early (by decide) ?_ ?_) (.assign ?_ ?_)) (.skip ?_))
    (.whether (.seq (R := fun w => w = { w₂ with initPrevious := m.init } ∧ m.init.isSome = true)
      (triple_early (by decide) ?_ ?_) (.assign ?_ ?_)) (.skip ?_)))
  · rintro w rfl
    exact ⟨rfl, rfl⟩
  · rintro w rfl
    rfl
  · rintro w ⟨rfl, -⟩
    exact ⟨rfl, rfl⟩
  · rintro w ⟨rfl, hsome⟩
    exact ⟨rfl, hsome⟩
  · rintro w ⟨rfl, hsome⟩ -
    change _ = { w₁ with binPrevious := m.bin, hadBin := m.bin.isSome }
    rw [hsome]
    rfl
  · rintro w f ⟨rfl, -⟩ - -
    exact verdict_early hbin ⟨rfl, rfl⟩
  · rintro w ⟨rfl, hnone⟩
    have hold : m.bin = none := Option.not_isSome_iff_eq_none.mp (Bool.eq_false_iff.mp hnone)
    change w₁ = { w₁ with binPrevious := m.bin, hadBin := m.bin.isSome }
    rw [hold]
    rfl
  · rintro w ⟨rfl, -⟩
    exact ⟨rfl, rfl⟩
  · rintro w ⟨rfl, hsome⟩
    exact ⟨rfl, hsome⟩
  · rintro w ⟨rfl, hsome⟩ -
    change _ = { w₂ with initPrevious := m.init, hadInit := m.init.isSome }
    rw [hsome]
    rfl
  · rintro w f ⟨rfl, -⟩ - -
    exact verdict_early hinit ⟨rfl, rfl⟩
  · rintro w ⟨rfl, hnone⟩
    have hold : m.init = none := Option.not_isSome_iff_eq_none.mp (Bool.eq_false_iff.mp hnone)
    change w₂ = { w₂ with initPrevious := m.init, hadInit := m.init.isSome }
    rw [hold]
    rfl

/-! ## The old service -/

/-- Whether the old init script is used. -/
def serviced (o : Options) (m : Machine) : Bool := !o.root && isExecutable m.init

/-- The world with the old service stopped, if it could be; `told` is what was noted of it. -/
def halted (o : Options) (r : Release) (m : Machine) (told : Bool) : World :=
  { ready r m with
    running := !serviced o m && m.running, oldRunning := serviced o m && told }

/-- A run has one fault. -/
theorem faultAt_unique {c c' : Command} {f : Fault} (h : faultAt fault c = some f) (hne : c' ≠ c) :
    faultAt fault c' = none := by
  cases fault with
  | none => cases h
  | some e =>
    have hc : e.1 = c := by
      by_contra hother
      simp [faultAt, Option.filter_some, hother] at h
    rw [faultAt, Option.filter_some, if_neg, Option.map_none]
    simpa [hc] using hne.symm

/-- A fault at the command, if the run goes on behind it, is safe. -/
def Survives (o : Options) (r : Release) (m : Machine) (fault : Option (Command × Fault))
    (c : Command) : Prop :=
  ∀ f, faultAt fault c = some f → Safe o r m c f

/-- A command without a fault is survived. -/
theorem survives_of_none {c : Command} (h : faultAt fault c = none) : Survives o r m fault c := by
  intro f hf
  cases h.symm.trans hf

/-- Without a fault at its status command the old service's state is noted. -/
def Noted (o : Options) (m : Machine) (fault : Option (Command × Fault)) (told : Bool) : Prop :=
  serviced o m = true → faultAt fault .askStatus = none → told = m.running

/-- Stopping the old service is safe unless it runs and is stopped in fact. -/
theorem safe_stop {f : Fault} : Safe o r m .stop f ↔
    (serviced o m = true → m.running = true → f.done = false) := by
  rw [serviced, Bool.and_eq_true, Bool.not_eq_true']
  constructor
  · exact fun h ⟨hroot, hinit⟩ => h.stop rfl hroot hinit
  · exact fun h => ⟨fun _ hroot hinit => h ⟨hroot, hinit⟩, by simp, False.elim, False.elim⟩

/-- The old service is asked about and stopped. -/
theorem triple_halt : Script.Triple (effect r) (faultAt fault) (· = ready r m) (halt o)
    (fun w => ∃ told, w = halted o r m told ∧ Noted o m fault told ∧ Survives o r m fault .stop)
    (Verdict o r m) := by
  have hask : Command.askStatus ∉ later := by decide
  have hset : Command.setOldRunning ∉ later := by decide
  refine .whether (.seq (R := fun w => serviced o m = true ∧ ∃ told,
    w = { ready r m with oldRunning := told } ∧
      (faultAt fault .askStatus = none → told = m.running))
    (.ask ?_ ?_ ?_ (.assign ?_ ?_)) (.run ?_ ?_)) (.skip ?_)
  · rintro w f ⟨rfl, -⟩ - -
    exact verdict_early hask ⟨rfl, rfl⟩
  · rintro w f ⟨rfl, hserviced⟩ hfault -
    refine ⟨hserviced, false, rfl, fun hnone => ?_⟩
    cases hfault.symm.trans hnone
  · rintro w ⟨rfl, hserviced⟩ - hrunning
    exact ⟨hserviced, false, rfl, fun _ => hrunning.symm⟩
  · rintro w ⟨⟨rfl, hserviced⟩, -, hrunning⟩ -
    exact ⟨hserviced, true, rfl, fun _ => hrunning.symm⟩
  · rintro w f ⟨⟨rfl, hserviced⟩, -⟩ - -
    exact verdict_early hset ⟨rfl, rfl⟩
  · rintro w ⟨hserviced, told, rfl, htold⟩ hnone
    refine ⟨told, ?_, fun _ => htold, survives_of_none hnone⟩
    rw [halted, hserviced]
    rfl
  · rintro w f ⟨hserviced, told, rfl, htold⟩ hfault
    rw [Verdict, safe_stop]
    have hleft : (conclude o (Script.interrupted (effect r) .stop f
        { ready r m with oldRunning := told })).toMachine =
          { m with running := !f.done && m.running } := by
      rw [Script.interrupted]
      cases f.done <;> rfl
    rw [hleft]
    obtain ⟨bin, init, config, running⟩ := m
    cases running <;> cases f.done <;> simp [hserviced]
  · rintro w ⟨rfl, hnot⟩
    have hserviced : serviced o m = false := hnot
    refine ⟨false, ?_, fun h => ?_, fun f _ => safe_stop.mpr fun h => ?_⟩
    · rw [halted, hserviced]
      rfl
    · cases hserviced.symm.trans h
    · cases hserviced.symm.trans h

end TgWsProxy.Installer
