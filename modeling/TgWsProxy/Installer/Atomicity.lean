import TgWsProxy.Installer.Rollback

/-!
# Installations are atomic where their fault is safe

The start of the new service, the end of the script, and a whole run.
-/

namespace TgWsProxy.Installer

open TgWsProxy.Core

variable {o : Options} {r : Release} {m : Machine} {fault : Option (Command × Fault)}

/-! ## The new service -/

/-- All files are in their place, and what a rollback needs is kept. -/
structure Complete (o : Options) (r : Release) (m : Machine) (fault : Option (Command × Fault))
    (w : World) : Prop where
  saved : faultAt fault .askStatus = none → Saved o m w
  init : w.init = some r.initFile
  running : o.root = true → w.running = m.running
  config : (if w.newConfig then none else w.config) = m.config

/-- The machine is complete once its files are replaced. -/
theorem complete_replaced {told : Bool} (hnoted : Noted o m fault told) :
    Complete o r m fault (replaced o r m told) := by
  have hsaved (hask : faultAt fault .askStatus = none) : Saved o m (exchanged o r m told) :=
    saved_exchanged hnoted hask
  rw [replaced]
  split
  next hnone =>
    have hconfig : m.config = none := Option.isNone_iff_eq_none.mp hnone
    refine ⟨fun hask => ?_, rfl, running_of_root, hconfig.symm⟩
    have hconfigured := (hsaved hask).configured hconfig
    exact hconfigured.effect (r := r) (c := .setNewConfig) (by decide)
  · exact ⟨hsaved, rfl, running_of_root, rfl⟩

/-- The commands of the new service leave it complete. -/
theorem Complete.effect {w : World} (h : Complete o r m fault w) {c : Command}
    (hc : c ∈ [.start, .sleep, .checkStatus, .enable])
    (hstart : c = .start → o.noStart = false) :
    Complete o r m fault (Installer.effect r c w) := by
  cases c
  all_goals first
    | exact h
    | exact absurd hc (by decide)
    | skip
  refine ⟨fun hask => (h.saved hask).effect (by decide), h.init, fun hroot => ?_,
    h.config⟩
  cases (hstart rfl).symm.trans (o.staged hroot)

/-- What one of them leaves when it fails. -/
theorem Complete.verdict {stop : Stop Command World} (h : Complete o r m fault stop.world)
    (hc : stop.command ∈ [.start, .sleep, .checkStatus, .enable])
    (hfault : faultAt fault stop.command = some stop.fault)
    (hafter : AfterInit o m stop.command stop.fault) : Verdict o r m stop := by
  have hask : stop.command ≠ .askStatus := by
    intro heq
    rw [heq] at hc
    exact absurd hc (by decide)
  refine (h.saved (faultAt_unique hfault hask.symm)).verdict_new h.init h.running hafter
    (iff_of_true h.config ?_)
  rintro (⟨heq, -⟩ | heq)
  · rw [heq] at hc
    exact absurd hc (by decide)
  · rw [heq] at hc
    exact absurd hc (by decide)

/-- The world with the new service started, unless it is not to be. -/
def activated (o : Options) (r : Release) (m : Machine) (told : Bool) : World :=
  if o.noStart then replaced o r m told else { replaced o r m told with running := true }

private theorem safe_of_not_afterInit {c : Command}
    (hc : c ∈ [.start, .sleep, .checkStatus, .enable])
    {f : Fault} (hafter : ¬AfterInit o m c f) : Safe o r m c f := by
  refine safe_of_harmless ?_ ?_ hafter ?_
  · rintro rfl
    exact absurd hc (by decide)
  · rintro (⟨rfl, -⟩ | rfl)
    · exact absurd hc (by decide)
    · exact absurd hc (by decide)
  · intro h
    cases c
    all_goals first
      | exact h.elim
      | exact absurd hc (by decide)

private theorem afterInit_start {c : Command} (hc : c ∈ [.start, .sleep, .checkStatus])
    (f : Fault) :
    AfterInit o m c f ↔ o.noStart = false := by
  cases c
  all_goals first
    | exact Iff.rfl
    | exact absurd hc (by decide)

/-- Starting the new service, unless that was not wanted. -/
theorem triple_start {told : Bool} (hnoted : Noted o m fault told) :
    Script.Triple (effect r) (faultAt fault) (· = replaced o r m told)
      (.all (if o.noStart then [] else [.start, .sleep, .checkStatus]))
      (fun w => (w = activated o r m told ∧ Complete o r m fault w) ∧
        ∀ c ∈ [.start, .sleep, .checkStatus], Survives o r m fault c) (Verdict o r m) := by
  have hcomplete := complete_replaced (r := r) hnoted
  cases hstart : o.noStart with
  | true =>
    refine .skip ?_
    rintro w rfl
    refine ⟨⟨(if_pos hstart).symm, hcomplete⟩, fun c hc f _ => ?_⟩
    refine safe_of_not_afterInit (List.mem_append_left [Command.enable] hc) ?_
    rw [afterInit_start hc, hstart]
    exact nofun
  | false =>
    change Script.Triple (effect r) (faultAt fault) _ (.all [.start, .sleep, .checkStatus]) _ _
    have hkeep : ∀ c ∈ [.start, .sleep, .checkStatus], ∀ w, Complete o r m fault w →
        Complete o r m fault (effect r c w) :=
      fun c hc w hw => hw.effect (List.mem_append_left [Command.enable] hc) fun _ => hstart
    refine .all (I := Complete o r m fault) ?_ hkeep ?_ ?_
    · rintro w rfl
      exact hcomplete
    · rintro w rfl hnone
      refine ⟨⟨(if_neg ?_).symm, ?_⟩, fun c hc => survives_of_none (hnone c hc)⟩
      · rw [hstart]
        exact Bool.false_ne_true
      · exact hkeep .start (by decide) _ hcomplete
    · intro stop hc hfault hw
      exact hw.verdict (List.mem_append_left [Command.enable] hc) hfault
        ((afterInit_start hc _).mpr hstart)

/-- Enabling it on OpenWrt. -/
theorem triple_enable {told : Bool} : Script.Triple (effect r) (faultAt fault)
    (fun w => w = activated o r m told ∧ Complete o r m fault w)
    (.all (if o.openwrt && !o.root then [.enable] else []))
    (fun w => w = activated o r m told ∧ Survives o r m fault .enable) (Verdict o r m) := by
  cases henable : o.openwrt && !o.root with
  | false =>
    refine .skip ?_
    rintro w ⟨hw, -⟩
    refine ⟨hw, fun f _ => safe_of_not_afterInit (by decide) ?_⟩
    rintro ⟨hopenwrt, hroot⟩
    rw [hopenwrt, hroot] at henable
    cases henable
  | true =>
    rw [Bool.and_eq_true, Bool.not_eq_true'] at henable
    change Script.Triple (effect r) (faultAt fault) _ (.all [.enable]) _ _
    refine .all (I := Complete o r m fault) (fun w hw => hw.2) ?_ ?_ ?_
    · intro c hc w hw
      rw [List.mem_singleton.mp hc]
      exact hw
    · rintro w ⟨rfl, -⟩ hnone
      exact ⟨rfl, survives_of_none (hnone _ (List.mem_singleton_self _))⟩
    · intro stop hc hfault hw
      refine hw.verdict (List.mem_append_right [Command.start, .sleep, .checkStatus] hc) hfault ?_
      rw [List.mem_singleton.mp hc]
      exact henable

/-- Both, one after the other. -/
theorem triple_activate {told : Bool} (hnoted : Noted o m fault told) :
    Script.Triple (effect r) (faultAt fault) (· = replaced o r m told) (activate o)
      (fun w => w = activated o r m told ∧
        ∀ c ∈ [.start, .sleep, .checkStatus, .enable], Survives o r m fault c)
      (Verdict o r m) := by
  refine .seq (triple_start hnoted) (.given fun hstart => triple_enable.mono ?_)
  rintro w ⟨hw, henable⟩
  exact ⟨hw, List.forall_mem_append.mpr ⟨hstart, List.forall_mem_singleton.mpr henable⟩⟩

/-! ## The end -/

/-- The machine with the release in its place, and the new service started or the old stopped. -/
theorem activated_toMachine (told : Bool) : (activated o r m told).toMachine =
    { bin := some r.binaryFile
      init := some r.initFile
      config := if m.config.isNone then some ⟨r.config, 0o600⟩ else m.config
      running := if o.noStart then !serviced o m && m.running else true } := by
  rw [activated, replaced]
  split <;> split <;> rfl

/-- An activated machine has the release. -/
theorem installed_activated (told : Bool) : Installed r m (activated o r m told).toMachine := by
  rw [activated_toMachine]
  refine ⟨rfl, rfl, fun file hfile => ?_⟩
  rw [hfile]
  rfl

/-- An activation changes nothing just on a machine that has the release already. -/
theorem activated_eq_iff (told : Bool) :
    (activated o r m told).toMachine = m ↔ Current o r m := by
  rw [activated_toMachine]
  constructor
  · intro h
    have hinit : m.init = some r.initFile := (congrArg Machine.init h).symm
    have hconfig : (if m.config.isNone then some ⟨r.config, 0o600⟩ else m.config) = m.config :=
      congrArg Machine.config h
    have hrunning : (if o.noStart then !serviced o m && m.running else true) = m.running :=
      congrArg Machine.running h
    refine ⟨(congrArg Machine.bin h).symm, hinit, ?_, fun hstart => ?_, fun hstart hroot => ?_⟩
    · cases hm : m.config with
      | none =>
        rw [hm] at hconfig
        cases hconfig
      | some file => rfl
    · rw [hstart] at hrunning
      exact hrunning.symm
    · have hserviced : serviced o m = true := by
        rw [serviced, hroot, hinit, isExecutable_initFile]
        rfl
      rw [hstart, hserviced] at hrunning
      exact hrunning.symm
  · intro h
    have hconfig : m.config.isNone = false := by
      rw [← Option.not_isSome, h.config]
      rfl
    have hrunning : (if o.noStart then !serviced o m && m.running else true) = m.running := by
      cases hstart : o.noStart with
      | false => exact (h.started hstart).symm
      | true =>
        cases hroot : o.root with
        | true => exact running_of_root hroot
        | false =>
          rw [h.stopped hstart hroot]
          exact Bool.and_false _
    rw [hconfig, hrunning, ← h.bin, ← h.init]
    rfl

private theorem safe_late {c : Command} {f : Fault} (h : Late c f) :
    Safe o r m c f ↔ Current o r m := by
  refine ⟨fun hs => hs.late h, fun hcurrent =>
    ⟨?_, ?_, fun hafter => absurd h hafter.not_late, fun _ => hcurrent⟩⟩
  · rintro rfl
    exact h.elim
  · rintro (⟨rfl, -⟩ | rfl)
    · exact h.elim
    · exact h.elim

/-- What is said at the end changes nothing. -/
theorem triple_finish {told : Bool} : Script.Triple (effect r) (faultAt fault)
    (· = activated o r m told) finish
    (fun w => (w.toMachine = (activated o r m told).toMachine ∧ w.changed = false) ∧
      ∀ c ∈ [.clearChanged, .sayInstalled, .sayConfig, .sayService, .sayPanel, .sayLink],
        Survives o r m fault c) (Verdict o r m) := by
  have hverdict {c : Command} {f : Fault} {w : World} (hlate : Late c f)
      (hw : w.toMachine = (activated o r m told).toMachine ∧ w.changed = false) :
      Verdict o r m ⟨c, f, w⟩ := by
    rw [Verdict, conclude_of_not_changed hw.2, hw.1, activated_eq_iff, safe_late hlate]
  refine .seq (R := fun w => (w.toMachine = (activated o r m told).toMachine ∧ w.changed = false) ∧
    Survives o r m fault .clearChanged) (.assign ?_ ?_) (.given fun hclear => .all
      (I := fun w => w.toMachine = (activated o r m told).toMachine ∧ w.changed = false)
      (fun _ hw => hw) ?_ ?_ ?_)
  · rintro w rfl hquiet
    refine ⟨⟨rfl, rfl⟩, fun f hf => safe_of_harmless (by decide) ?_ False.elim fun h => ?_⟩
    · rintro (⟨h, -⟩ | h) <;> cases h
    · cases (hquiet f hf).symm.trans h
  · rintro w f rfl - hsignal
    exact hverdict hsignal ⟨rfl, rfl⟩
  · intro c hc w hw
    cases c
    all_goals first
      | exact hw
      | exact absurd hc (by decide)
  · intro w hw hnone
    refine ⟨hw, List.forall_mem_cons.mpr ⟨hclear, fun c hc => survives_of_none (hnone c hc)⟩⟩
  · rintro ⟨c, f, w⟩ hc - hw
    refine hverdict ?_ hw
    cases c <;> trivial

/-- A whole run: its normal end installs the release and its fault, if it has one, is safe; where it
stops it is atomic exactly when its fault is safe. -/
theorem triple_script : Script.Triple (effect r) (faultAt fault) (· = { toMachine := m }) (script o)
    (fun w => Installed r m (conclude o w).toMachine ∧
      ∀ c f, faultAt fault c = some f → Safe o r m c f) (Verdict o r m) := by
  refine .seq triple_prepare (.seq triple_check (.seq triple_backup (.seq triple_halt
    (.exists fun told => .given fun ⟨hnoted, hstop⟩ => .seq (triple_replace hnoted)
      (.given fun hreplace => .seq (triple_activate hnoted) (.given fun hactivate => ?_))))))
  refine triple_finish.mono ?_
  rintro w ⟨⟨hmachine, hchanged⟩, hfinish⟩
  constructor
  · rw [conclude_of_not_changed hchanged, hmachine]
    exact installed_activated told
  · have hrisky : ∀ c ∈ risky, Survives o r m fault c :=
      List.forall_mem_cons.mpr ⟨hstop, List.forall_mem_append.mpr
        ⟨hreplace, List.forall_mem_append.mpr ⟨hactivate, hfinish⟩⟩⟩
    intro c f hf
    by_cases hc : c ∈ risky
    · exact hrisky c hc f hf
    · exact safe_of_calm hc f

private theorem faultAt_eq_some {fault : Option (Command × Fault)} {c : Command} {f : Fault} :
    faultAt fault c = some f ↔ fault = some (c, f) := by
  rw [faultAt, Option.map_eq_some_iff]
  constructor
  · rintro ⟨⟨c', f'⟩, hfilter, rfl⟩
    obtain ⟨hfault, hc⟩ := Option.filter_eq_some_iff.mp hfilter
    obtain rfl : c' = c := of_decide_eq_true hc
    exact hfault
  · rintro rfl
    exact ⟨(c, f), by simp, rfl⟩

/-- A run leaves the release installed or the machine as it was exactly when what goes wrong in it,
if anything does, is safe. -/
theorem installAtomic (o : Options) (r : Release) (m : Machine)
    (fault : Option (Command × Fault)) :
    Atomic r m (install o r fault m) ↔ ∀ c f, fault = some (c, f) → Safe o r m c f := by
  rw [install]
  cases hexec : (script o).exec (effect r) (faultAt fault) { toMachine := m } with
  | ok w =>
    obtain ⟨hinstalled, hsafe⟩ := triple_script.ok rfl hexec
    exact iff_of_true hinstalled fun c f hfault => hsafe c f (faultAt_eq_some.mpr hfault)
  | error stop =>
    have hverdict : Verdict o r m stop := triple_script.error rfl hexec
    have hfault : fault = some (stop.command, stop.fault) :=
      faultAt_eq_some.mp (Script.fault_of_error _ _ hexec)
    refine hverdict.trans ⟨fun hsafe c f h => ?_, fun h => h _ _ hfault⟩
    cases hfault.symm.trans h
    exact hsafe

/-- `TERM` is handled behind `"$INIT" stop`, before `CHANGED=1`: the service stays stopped. -/
theorem install_stopped : ¬∀ (o : Options) (r : Release) (m : Machine)
    (fault : Option (Command × Fault)), Atomic r m (install o r fault m) := by
  intro h
  let o : Options := ⟨false, false, false, false, false, false, nofun⟩
  let r : Release := ⟨[1], [2], [3]⟩
  let m : Machine := ⟨some ⟨[4], 0o755⟩, some ⟨[5], 0o755⟩, some ⟨[6], 0o600⟩, true⟩
  have hrun : install o r (some (.stop, ⟨true, true⟩)) m = ⟨true, { m with running := false }⟩ := by
    decide
  have hatomic := h o r m (some (.stop, ⟨true, true⟩))
  rw [hrun] at hatomic
  exact Bool.false_ne_true (congrArg Machine.running hatomic)

end TgWsProxy.Installer
