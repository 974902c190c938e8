import TgWsProxy.SavedConfig

/-!
# Changing the configuration

`RuntimeOverrides`, `apply` and the loop of `serve` from `main.rs`: a change comes from the
panel and is saved, or from the file and is not. Starting a proxy and writing the file may
fail; between two changes anybody may edit the file.
-/

namespace TgWsProxy

open TgWsProxy.Core

/-- `RuntimeOverrides`. -/
structure RuntimeOverrides where
  dcRedirects : Option (Std.ExtTreeMap Int String) := none
  noSecure : Bool := false
  noH2 : Bool := false

/-- `RuntimeOverrides::apply`. -/
def RuntimeOverrides.apply (overrides : RuntimeOverrides) (cfg : Config) : Config :=
  { cfg with
    dcRedirects := overrides.dcRedirects.getD cfg.dcRedirects
    disableSecure := cfg.disableSecure || overrides.noSecure
    cfproxyH2Media := cfg.cfproxyH2Media && !overrides.noH2 }

/-- The failures of a change: of starting the new proxy, of writing the file, and of either
when the change is taken back. -/
structure Failures where
  start : Option IoError := none
  save : Option IoError := none
  rollback : Option IoError := none
  restore : Option IoError := none

/-- At most one step fails. -/
def Failures.AtMostOne (failures : Failures) : Prop :=
  [failures.start, failures.save, failures.rollback, failures.restore].countP (·.isSome) ≤ 1

instance (failures : Failures) : Decidable failures.AtMostOne :=
  inferInstanceAs (Decidable (_ ≤ _))

/-- The configuration file. -/
structure Disk where
  file : Option Bytes
  /-- What has been written to it, the latest first. -/
  written : List Bytes := []

/-- What a change works on. -/
structure Machine where
  /-- The configuration of the proxy that runs. -/
  running : Option Config
  disk : Disk

/-- `Proxy::start`, as the configuration it runs with. -/
def startProxy (cfg : Config) : Option IoError → Except IoError Config
  | some e => .error e
  | none => .ok cfg

/-- The file after these bytes are written. -/
def Disk.put (disk : Disk) (bytes : Bytes) : Disk := ⟨some bytes, bytes :: disk.written⟩

section

variable (serde : SerdeJson)

/-- `save`: the file is replaced as a whole, or stays. -/
def Disk.save (disk : Disk) (cfg : Config) (failure : Option IoError) :
    Except IoError Unit × Disk :=
  match cfg.save serde with
  | .error e => (.error e, disk)
  | .ok bytes =>
    match failure with
    | some e => (.error e, disk)
    | none => (.ok (), disk.put bytes)

/-- Save one of the configurations of a change that is persisted. -/
def Disk.persist (disk : Disk) (cfg : Option Config) (failure : Option IoError) :
    Except IoError Unit × Disk :=
  match cfg with
  | some cfg => disk.save serde cfg failure
  | none => (.ok (), disk)

/-- The failed start of `apply` on the same port: the previous configuration is saved and
started again. -/
def Machine.rollBack (m : Machine) (old : Config) (previous : Option Config) (failures : Failures)
    (error : IoError) : Except IoError Unit × Machine :=
  let (restore, disk) := m.disk.persist serde previous failures.restore
  match startProxy old failures.rollback with
  | .error e =>
    (.error ⟨.other, s!"start failed: {error.message}; rollback failed: {e.message}"⟩,
      { m with disk })
  | .ok old =>
    match restore with
    | .error e => (.error e, ⟨some old, disk⟩)
    | .ok () => (.error error, ⟨some old, disk⟩)

/-- `apply`. -/
def Machine.apply (m : Machine) (old new : Config) (persistence : Option (Config × Config))
    (failures : Failures) : Except IoError Unit × Machine :=
  match new.validate with
  | .error e => (.error e, m)
  | .ok () =>
    if (old.webHost, old.webPort) ≠ (new.webHost, new.webPort) then
      (.error (Config.invalid
        "To change the panel address, edit the config file and restart the service"), m)
    else if old.port ≠ new.port then
      match startProxy new failures.start with
      | .error e => (.error e, m)
      | .ok replacement =>
        match m.disk.persist serde (persistence.map (·.2)) failures.save with
        | (.error e, disk) => (.error e, { m with disk })
        | (.ok (), disk) => (.ok (), ⟨some replacement, disk⟩)
    else
      match m.disk.persist serde (persistence.map (·.2)) failures.save with
      | (.error e, disk) => (.error e, { m with disk })
      | (.ok (), disk) =>
        match startProxy new failures.start with
        | .ok replacement => (.ok (), ⟨some replacement, disk⟩)
        | .error e =>
          -- the proxy of the previous configuration is down by now
          Machine.rollBack serde ⟨none, disk⟩ old (persistence.map (·.1)) failures e

end

/-- The variables of `serve`. -/
structure Service where
  machine : Machine
  current : Config
  currentSaved : Config
  /-- What the panel reads. -/
  shared : Config

/-- What happens to a service. -/
inductive ServiceAction
  /-- A change from the panel. -/
  | panel (config : Config) (failures : Failures)
  /-- `SIGHUP`. -/
  | reload (failures : Failures)
  /-- The file is edited or removed from outside. -/
  | edit (file : Option Bytes)

section

variable (serde : SerdeJson) (overrides : RuntimeOverrides)

/-- A pass of the loop of `serve` with a change. -/
def Service.change (s : Service) (config : Config) (persist : Bool) (failures : Failures) :
    Except IoError Unit × Service :=
  let persistence := if persist then some (s.currentSaved, config) else none
  match s.machine.apply serde s.current (overrides.apply config) persistence failures with
  | (.ok (), machine) => (.ok (), ⟨machine, overrides.apply config, config, config⟩)
  | (.error e, machine) => (.error e, { s with machine })

/-- The effect of one step. -/
def Service.step (s : Service) : ServiceAction → Option Service
  | .panel config failures => some (s.change serde overrides config true failures).2
  | .reload failures =>
    match s.machine.disk.file with
    | none => some s
    | some bytes =>
      match Config.load serde bytes with
      | .error _ => some s
      | .ok config => some (s.change serde overrides config false failures).2
  | .edit file =>
    some { s with machine := { s.machine with disk := { s.machine.disk with file } } }

/-- A service from the start of its proxy on. -/
def serviceSystem : System Service ServiceAction where
  start s := ∃ bytes cfg, Config.load serde bytes = .ok cfg ∧
    (overrides.apply cfg).validate = .ok () ∧
    s = ⟨⟨some (overrides.apply cfg), ⟨some bytes, []⟩⟩, overrides.apply cfg, cfg, cfg⟩
  step := Service.step serde overrides

end

/-- A change has one failure at most. -/
def ServiceAction.OneFailure : ServiceAction → Prop
  | .panel _ failures | .reload failures => failures.AtMostOne
  | .edit _ => True

instance : DecidablePred ServiceAction.OneFailure := fun
  | .panel _ _ | .reload _ => inferInstanceAs (Decidable (Failures.AtMostOne _))
  | .edit _ => inferInstanceAs (Decidable True)

/-! ## The steps of a change -/

section

variable {serde : SerdeJson}

/-- What a change that is to be persisted has written when it succeeds. -/
def Disk.Persisted (serde : SerdeJson) (disk : Disk) (cfg : Option Config) (disk' : Disk) : Prop :=
  match cfg with
  | none => disk' = disk
  | some cfg => ∃ bytes, cfg.save serde = .ok bytes ∧ disk' = disk.put bytes

variable (serde) in
/-- A file is written whole or not at all. -/
theorem Disk.persist_cases (disk : Disk) (cfg : Option Config) (failure : Option IoError) :
    (∃ disk', disk.Persisted serde cfg disk' ∧
      disk.persist serde cfg failure = (.ok (), disk')) ∨
    ∃ e, disk.persist serde cfg failure = (.error e, disk) := by
  cases cfg with
  | none => exact .inl ⟨disk, rfl, rfl⟩
  | some cfg =>
    rw [Disk.persist]
    delta Disk.save
    cases hsave : cfg.save serde with
    | error e => exact .inr ⟨e, rfl⟩
    | ok bytes =>
      cases failure with
      | none => exact .inl ⟨_, ⟨bytes, hsave, rfl⟩, rfl⟩
      | some e => exact .inr ⟨e, rfl⟩

private theorem Config.save_of_valid {cfg : Config} (hvalid : cfg.validate = .ok ()) :
    cfg.save serde = .ok (serde.toPretty cfg ++ [10]) := by
  rw [Config.save, hvalid]
  rfl

/-- Nothing but a failure keeps a valid configuration from being saved. -/
theorem Disk.persist_some (disk : Disk) {cfg : Config} (hvalid : cfg.validate = .ok ()) :
    disk.persist serde (some cfg) none = (.ok (), disk.put (serde.toPretty cfg ++ [10])) := by
  rw [Disk.persist]
  delta Disk.save
  rw [Config.save_of_valid hvalid]

variable (serde) in
/-- Without a failure a valid configuration is written. -/
theorem Disk.persist_valid (disk : Disk) {cfg : Option Config}
    (hvalid : ∀ c ∈ cfg, c.validate = .ok ()) :
    ∃ disk', disk.Persisted serde cfg disk' ∧ disk.persist serde cfg none = (.ok (), disk') := by
  cases cfg with
  | none => exact ⟨disk, rfl, rfl⟩
  | some cfg =>
    exact ⟨_, ⟨_, Config.save_of_valid (hvalid cfg rfl), rfl⟩, disk.persist_some (hvalid cfg rfl)⟩

/-- With no further failure the old proxy runs again, and the file holds the previous
configuration. -/
theorem Machine.rollBack_eq (m : Machine) (old : Config) {previous : Option Config}
    (hvalid : ∀ c ∈ previous, c.validate = .ok ()) {failures : Failures}
    (hrollback : failures.rollback = none) (hrestore : failures.restore = none) (error : IoError) :
    ∃ disk, m.disk.Persisted serde previous disk ∧
      m.rollBack serde old previous failures error = (.error error, ⟨some old, disk⟩) := by
  obtain ⟨disk, hdisk, heq⟩ := m.disk.persist_valid serde hvalid
  refine ⟨disk, hdisk, ?_⟩
  rw [Machine.rollBack, hrestore, heq, hrollback, startProxy]

variable (serde) in
/-- The ends of a change with one failure at most: done, refused, or taken back. -/
theorem Machine.apply_cases (m : Machine) (old new : Config)
    {persistence : Option (Config × Config)} {failures : Failures}
    (hvalid : ∀ p ∈ persistence, p.1.validate = .ok ()) (hone : failures.AtMostOne) :
    (new.validate = .ok () ∧ ∃ disk, m.disk.Persisted serde (persistence.map (·.2)) disk ∧
      m.apply serde old new persistence failures = (.ok (), ⟨some new, disk⟩)) ∨
    (∃ e, m.apply serde old new persistence failures = (.error e, m)) ∨
    (old.port = new.port ∧ ∃ e, failures.start = some e ∧
      ∃ disk disk', m.disk.Persisted serde (persistence.map (·.2)) disk ∧
        disk.Persisted serde (persistence.map (·.1)) disk' ∧
        m.apply serde old new persistence failures = (.error e, ⟨some old, disk'⟩)) := by
  delta Machine.apply
  cases hnew : new.validate with
  | error e => exact .inr (.inl ⟨e, rfl⟩)
  | ok =>
    dsimp only
    by_cases haddress : (old.webHost, old.webPort) ≠ (new.webHost, new.webPort)
    · rw [if_pos haddress]
      exact .inr (.inl ⟨_, rfl⟩)
    rw [if_neg haddress]
    have hpersist := m.disk.persist_cases serde (persistence.map (·.2)) failures.save
    by_cases hport : old.port ≠ new.port
    · rw [if_pos hport]
      cases hstart : failures.start with
      | some e => exact .inr (.inl ⟨e, rfl⟩)
      | none =>
        obtain ⟨disk, hdisk, heq⟩ | ⟨e, heq⟩ := hpersist
        · rw [heq]
          exact .inl ⟨rfl, disk, hdisk, rfl⟩
        · rw [heq]
          exact .inr (.inl ⟨e, rfl⟩)
    · rw [if_neg hport]
      obtain ⟨disk, hdisk, heq⟩ | ⟨e, heq⟩ := hpersist
      · rw [heq]
        cases hstart : failures.start with
        | none => exact .inl ⟨rfl, disk, hdisk, rfl⟩
        | some e =>
          -- this is the failure of the change: the others do not happen
          have hothers : failures.rollback = none ∧ failures.restore = none := by
            rw [Failures.AtMostOne, hstart] at hone
            constructor <;> by_contra hsome <;>
              simp [List.countP_cons, Option.isSome_iff_ne_none, hsome] at hone
          have hvalid' : ∀ c ∈ persistence.map (·.1), c.validate = .ok () := by
            intro c hc
            obtain ⟨p, hp, rfl⟩ := Option.map_eq_some_iff.mp hc
            exact hvalid p hp
          obtain ⟨disk', hdisk', hback⟩ := Machine.rollBack_eq ⟨none, disk⟩ old hvalid'
            hothers.1 hothers.2 e
          exact .inr (.inr ⟨not_not.mp hport, e, rfl, disk, disk', hdisk, hdisk', hback⟩)
      · rw [heq]
        exact .inr (.inl ⟨e, rfl⟩)

/-! ## The steps of a service -/

variable {overrides : RuntimeOverrides}

/-- The saved configuration is valid and the proxy runs what the overrides make of it. -/
structure Service.Settled (overrides : RuntimeOverrides) (s : Service) : Prop where
  valid : s.currentSaved.validate = .ok ()
  current : s.current = overrides.apply s.currentSaved
  currentValid : s.current.validate = .ok ()
  running : s.machine.running = some s.current
  shared : s.shared = s.currentSaved

variable (serde) in
/-- A pass of the loop is done, refused, or taken back. -/
theorem Service.change_cases {s : Service} (hs : s.Settled overrides) (config : Config)
    (persist : Bool) {failures : Failures} (hone : failures.AtMostOne) :
    ((overrides.apply config).validate = .ok () ∧
      ∃ disk, s.machine.disk.Persisted serde (if persist then some config else none) disk ∧
        s.change serde overrides config persist failures =
          (.ok (), ⟨⟨some (overrides.apply config), disk⟩, overrides.apply config, config,
            config⟩)) ∨
    (∃ e, s.change serde overrides config persist failures = (.error e, s)) ∨
    (s.current.port = config.port ∧ ∃ e, failures.start = some e ∧ ∃ disk disk',
      s.machine.disk.Persisted serde (if persist then some config else none) disk ∧
        disk.Persisted serde (if persist then some s.currentSaved else none) disk' ∧
        s.change serde overrides config persist failures =
          (.error e, { s with machine := ⟨some s.current, disk'⟩ })) := by
  have hvalid : ∀ p ∈ (if persist then some (s.currentSaved, config) else none),
      p.1.validate = .ok () := by
    intro p hp
    obtain ⟨-, hp⟩ := Option.ite_none_right_eq_some.mp hp
    rw [← Option.some.inj hp]
    exact hs.valid
  have hcases :=
    s.machine.apply_cases serde s.current (overrides.apply config) hvalid hone
  have hmap {α β : Type} (f : α → β) (a : α) :
      (if persist then some a else none).map f = if persist then some (f a) else none := by
    cases persist <;> rfl
  rw [hmap, hmap] at hcases
  delta Service.change
  dsimp only
  obtain ⟨hnew, disk, hdisk, heq⟩ | ⟨e, heq⟩ |
    ⟨hport, e, hstart, disk, disk', hdisk, hdisk', heq⟩ := hcases
  · refine .inl ⟨hnew, disk, hdisk, ?_⟩
    rw [heq]
  · refine .inr (.inl ⟨e, ?_⟩)
    rw [heq]
  · refine .inr (.inr ⟨hport, e, hstart, disk, disk', hdisk, hdisk', ?_⟩)
    rw [heq]

/-- The overrides are valid or not whatever they are applied to. -/
theorem validate_apply {cfg cfg' : Config} (h : cfg.validate = .ok ())
    (h' : (overrides.apply cfg').validate = .ok ()) : (overrides.apply cfg).validate = .ok () := by
  rw [Config.validate] at h h' ⊢
  simp only [bind_eq_ok] at h h' ⊢
  obtain ⟨u₁, host, u₂, webHost, u₃, ports, bytes, secret, u₅, bufferSize, u₆, poolSize, u₇, limit,
    u₈, timeouts, ⟨⟩, redirects, rest⟩ := h
  obtain ⟨-, -, -, -, -, -, -, -, -, -, -, -, -, -, -, -, ⟨⟩, redirects', -⟩ := h'
  have hredirects : (overrides.apply cfg).dcRedirects = cfg.dcRedirects ∨
      (overrides.apply cfg).dcRedirects = (overrides.apply cfg').dcRedirects := by
    cases hover : overrides.dcRedirects with
    | none => exact .inl (by simp [RuntimeOverrides.apply, hover])
    | some map => exact .inr (by simp [RuntimeOverrides.apply, hover])
  refine ⟨u₁, host, u₂, webHost, u₃, ports, bytes, secret, u₅, bufferSize, u₆, poolSize, u₇, limit,
    u₈, timeouts, (), ?_, rest⟩
  rcases hredirects with heq | heq <;> rw [heq]
  · exact redirects
  · exact redirects'

private theorem load_valid {data : Bytes} {cfg : Config} (h : Config.load serde data = .ok cfg) :
    cfg.validate = .ok () := by
  rw [Config.load] at h
  split at h
  · cases h
  · cases hparse : serde.fromSlice data with
    | error e => simp [hparse] at h
    | ok value =>
      simp only [hparse] at h
      obtain ⟨-, -, -, -, -, hvalid⟩ := Config.fromValue_eq_ok.mp h
      exact hvalid

/-- A service starts settled. -/
theorem Service.Settled.start {s : Service} (h : (serviceSystem serde overrides).start s) :
    s.Settled overrides := by
  obtain ⟨bytes, cfg, hload, hvalid, rfl⟩ := h
  exact ⟨load_valid hload, rfl, hvalid, rfl, rfl⟩

/-- A change with one failure at most leaves the service settled. -/
theorem Service.Settled.change {s : Service} (hs : s.Settled overrides) {config : Config}
    {persist : Bool} (hconfig : persist = false → config.validate = .ok ()) {failures : Failures}
    (hone : failures.AtMostOne) :
    (s.change serde overrides config persist failures).2.Settled overrides := by
  obtain ⟨hnew, disk, hdisk, heq⟩ | ⟨e, heq⟩ | ⟨-, e, -, disk, disk', -, -, heq⟩ :=
    s.change_cases serde hs config persist hone
  · rw [heq]
    refine ⟨?_, rfl, hnew, rfl, rfl⟩
    cases persist with
    | false => exact hconfig rfl
    | true =>
      obtain ⟨bytes, hsave, -⟩ := hdisk
      obtain ⟨⟨⟩, hvalid, -⟩ := map_eq_ok.mp hsave
      exact hvalid
  · rwa [heq]
  · rw [heq]
    exact ⟨hs.valid, hs.current, hs.currentValid, rfl, hs.shared⟩

/-- Every step with one failure at most leaves the service settled. -/
theorem Service.Settled.step {s t : Service} {action : ServiceAction} (hs : s.Settled overrides)
    (hone : action.OneFailure) (h : s.step serde overrides action = some t) :
    t.Settled overrides := by
  cases action with
  | panel config failures =>
    rw [← Option.some.inj h]
    exact hs.change (fun h => by cases h) hone
  | reload failures =>
    rw [Service.step] at h
    cases hfile : s.machine.disk.file with
    | none =>
      simp only [hfile, Option.some.injEq] at h
      rwa [← h]
    | some bytes =>
      cases hload : Config.load serde bytes with
      | error e =>
        simp only [hfile, hload, Option.some.injEq] at h
        rwa [← h]
      | ok config =>
        simp only [hfile, hload, Option.some.injEq] at h
        rw [← h]
        exact hs.change (fun _ => load_valid hload) hone
  | edit file =>
    rw [← Option.some.inj h]
    exact ⟨hs.valid, hs.current, hs.currentValid, hs.running, hs.shared⟩

/-! ## Overrides stay out of the file -/

variable (serde) in
/-- A change of valid configurations depends on their addresses and ports alone. -/
theorem Machine.apply_congr {m m' : Machine} (old old' : Config) {new new' : Config}
    (hdisk : m.disk = m'.disk) (hnew : new.validate = .ok ()) (hnew' : new'.validate = .ok ())
    (haddress : (old.webHost, old.webPort) ≠ (new.webHost, new.webPort) ↔
      (old'.webHost, old'.webPort) ≠ (new'.webHost, new'.webPort))
    (hport : old.port ≠ new.port ↔ old'.port ≠ new'.port)
    (persistence : Option (Config × Config)) (failures : Failures) :
    (m.apply serde old new persistence failures).1 =
        (m'.apply serde old' new' persistence failures).1 ∧
      (m.apply serde old new persistence failures).2.disk =
        (m'.apply serde old' new' persistence failures).2.disk := by
  delta Machine.apply
  rw [hnew, hnew']
  dsimp only
  by_cases h : (old.webHost, old.webPort) ≠ (new.webHost, new.webPort)
  · rw [if_pos h, if_pos (haddress.mp h)]
    exact ⟨rfl, hdisk⟩
  rw [if_neg h, if_neg (haddress.not.mp h), hdisk]
  generalize m'.disk.persist serde (persistence.map (·.2)) failures.save = result
  obtain ⟨persisted, disk⟩ := result
  by_cases h : old.port ≠ new.port
  · rw [if_pos h, if_pos (hport.mp h)]
    cases failures.start with
    | some e => exact ⟨rfl, hdisk⟩
    | none => cases persisted <;> exact ⟨rfl, rfl⟩
  · rw [if_neg h, if_neg (hport.not.mp h)]
    cases persisted with
    | error e => exact ⟨rfl, rfl⟩
    | ok =>
      cases failures.start with
      | none => exact ⟨rfl, rfl⟩
      | some e =>
        dsimp only [startProxy, Machine.rollBack]
        cases failures.rollback with
        | some e => exact ⟨rfl, rfl⟩
        | none =>
          generalize disk.persist serde (persistence.map (·.1)) failures.restore = result
          obtain ⟨restore, disk⟩ := result
          cases restore <;> exact ⟨rfl, rfl⟩

/-- Two services, with overrides of their own, that agree on what is saved. -/
structure Service.Agree (overrides overrides' : RuntimeOverrides) (s s' : Service) : Prop where
  left : s.Settled overrides
  right : s'.Settled overrides'
  disk : s.machine.disk = s'.machine.disk
  saved : s.currentSaved = s'.currentSaved

variable {overrides' : RuntimeOverrides}

/-- An invalid configuration is refused before anything is written. -/
theorem Service.change_invalid {s : Service} (hs : s.Settled overrides) {config : Config}
    (hconfig : config.validate ≠ .ok ()) {failures : Failures} (hone : failures.AtMostOne) :
    (s.change serde overrides config true failures).2 = s := by
  have hunsaved {disk disk' : Disk} : ¬disk.Persisted serde (some config) disk' := by
    rintro ⟨bytes, hsave, -⟩
    obtain ⟨⟨⟩, hvalid, -⟩ := map_eq_ok.mp hsave
    exact hconfig hvalid
  obtain ⟨-, disk, hdisk, -⟩ | ⟨e, heq⟩ | ⟨-, e, -, disk, disk', hdisk, -, -⟩ :=
    s.change_cases serde hs config true hone
  · exact absurd hdisk hunsaved
  · rw [heq]
  · exact absurd hdisk hunsaved

/-- A change keeps two services that differ in their overrides in agreement. -/
theorem Service.Agree.change {s s' : Service} (h : s.Agree overrides overrides' s')
    {config : Config} {persist : Bool} (hconfig : persist = false → config.validate = .ok ())
    {failures : Failures} (hone : failures.AtMostOne) :
    Service.Agree overrides overrides' (s.change serde overrides config persist failures).2
      (s'.change serde overrides' config persist failures).2 := by
  by_cases hvalid : config.validate = .ok ()
  · suffices hsame : (s.change serde overrides config persist failures).2.machine.disk =
          (s'.change serde overrides' config persist failures).2.machine.disk ∧
        (s.change serde overrides config persist failures).2.currentSaved =
          (s'.change serde overrides' config persist failures).2.currentSaved from
      ⟨h.left.change hconfig hone, h.right.change hconfig hone, hsame.1, hsame.2⟩
    obtain ⟨hanswer, hdisk⟩ := Machine.apply_congr serde s.current s'.current h.disk
      (validate_apply hvalid (h.left.current ▸ h.left.currentValid))
      (validate_apply hvalid (h.right.current ▸ h.right.currentValid))
      (by rw [h.left.current, h.right.current, h.saved]; rfl)
      (by rw [h.left.current, h.right.current, h.saved]; rfl)
      (if persist then some (s.currentSaved, config) else none) failures
    delta Service.change
    dsimp only
    rw [← h.saved]
    generalize s.machine.apply serde s.current (overrides.apply config) _ failures = result at *
    generalize s'.machine.apply serde s'.current (overrides'.apply config) _ failures = result' at *
    obtain ⟨answer, machine⟩ := result
    obtain ⟨answer', machine'⟩ := result'
    obtain rfl : answer = answer' := hanswer
    cases answer with
    | ok => exact ⟨hdisk, rfl⟩
    | error e => exact ⟨hdisk, rfl⟩
  · cases persist with
    | false => exact absurd (hconfig rfl) hvalid
    | true =>
      rw [Service.change_invalid h.left hvalid hone, Service.change_invalid h.right hvalid hone]
      exact h

/-- Every step does. -/
theorem Service.Agree.step {s s' t : Service} {action : ServiceAction}
    (h : s.Agree overrides overrides' s') (hone : action.OneFailure)
    (hstep : s.step serde overrides action = some t) :
    ∃ t', s'.step serde overrides' action = some t' ∧ t.Agree overrides overrides' t' := by
  cases action with
  | panel config failures =>
    refine ⟨_, rfl, ?_⟩
    rw [← Option.some.inj hstep]
    exact h.change (fun h => by cases h) hone
  | reload failures =>
    rw [Service.step] at hstep ⊢
    rw [← h.disk]
    cases hfile : s.machine.disk.file with
    | none =>
      simp only [hfile, Option.some.injEq] at hstep
      exact ⟨s', rfl, hstep ▸ h⟩
    | some bytes =>
      cases hload : Config.load serde bytes with
      | error e =>
        simp only [hfile, hload, Option.some.injEq] at hstep
        exact ⟨s', by simp only [hload], hstep ▸ h⟩
      | ok config =>
        simp only [hfile, hload, Option.some.injEq] at hstep
        exact ⟨_, by simp only [hload], hstep ▸ h.change (fun _ => load_valid hload) hone⟩
  | edit file =>
    refine ⟨_, rfl, ?_⟩
    rw [← Option.some.inj hstep]
    refine ⟨⟨h.left.valid, h.left.current, h.left.currentValid, h.left.running, h.left.shared⟩,
      ⟨h.right.valid, h.right.current, h.right.currentValid, h.right.running, h.right.shared⟩,
      ?_, h.saved⟩
    rw [h.disk]

/-- Runs with the same changes and failures agree all along. -/
theorem Service.Agree.run {s s' t : Service} {actions : List ServiceAction}
    (h : s.Agree overrides overrides' s') (hone : ∀ action ∈ actions, action.OneFailure)
    (hrun : (serviceSystem serde overrides).run s actions = some t) :
    ∃ t', (serviceSystem serde overrides').run s' actions = some t' ∧
      t.Agree overrides overrides' t' := by
  induction actions generalizing s s' with
  | nil => exact ⟨s', rfl, Option.some.inj hrun ▸ h⟩
  | cons action actions ih =>
    obtain ⟨u, hu, ht⟩ := Option.bind_eq_some_iff.mp hrun
    obtain ⟨u', hu', hagree⟩ := h.step (hone action (List.mem_cons_self ..)) hu
    obtain ⟨t', ht', hagree'⟩ :=
      ih hagree (fun a ha => hone a (List.mem_cons_of_mem _ ha)) ht
    refine ⟨t', ?_, hagree'⟩
    rw [System.run_cons]
    exact Option.bind_eq_some_iff.mpr ⟨u', hu', ht'⟩

/-! ## Changes are transactional -/

/-- A change that succeeds is in effect as a whole, and one that fails leaves everything as it
was, up to the form of the saved configuration in the file. -/
structure Service.Transactional (serde : SerdeJson) (overrides : RuntimeOverrides) (s : Service) :
    Prop where
  running : s.machine.running = some (overrides.apply s.currentSaved)
  current : s.current = overrides.apply s.currentSaved
  shared : s.shared = s.currentSaved
  success : ∀ config persist failures t, failures.AtMostOne →
    s.change serde overrides config persist failures = (.ok (), t) →
    t.machine.running = some (overrides.apply config) ∧ t.current = overrides.apply config ∧
      t.currentSaved = config ∧ t.shared = config ∧
      if persist then ∃ bytes, config.save serde = .ok bytes ∧ t.machine.disk.file = some bytes
      else t.machine.disk = s.machine.disk
  failure : ∀ config persist failures e t, failures.AtMostOne →
    s.change serde overrides config persist failures = (.error e, t) →
    t.machine.running = s.machine.running ∧ t.current = s.current ∧
      t.currentSaved = s.currentSaved ∧ t.shared = s.shared ∧
      (t.machine.disk = s.machine.disk ∨
        persist = true ∧ s.current.port = config.port ∧ failures.start = some e ∧
          ∃ bytes, s.currentSaved.save serde = .ok bytes ∧ t.machine.disk.file = some bytes)

/-- A settled service takes a change over or keeps all that it had. -/
theorem Service.Settled.transactional {s : Service} (hs : s.Settled overrides) :
    s.Transactional serde overrides := by
  refine ⟨hs.current ▸ hs.running, hs.current, hs.shared, ?_, ?_⟩
  · intro config persist failures t hone h
    obtain ⟨-, disk, hdisk, heq⟩ | ⟨e, heq⟩ | ⟨-, e, -, disk, disk', -, -, heq⟩ :=
      s.change_cases serde hs config persist hone
    · obtain rfl := (Prod.mk.inj (heq.symm.trans h)).2
      refine ⟨rfl, rfl, rfl, rfl, ?_⟩
      cases persist with
      | false => exact hdisk
      | true =>
        obtain ⟨bytes, hsave, rfl⟩ := hdisk
        exact ⟨bytes, hsave, rfl⟩
    · cases heq.symm.trans h
    · cases heq.symm.trans h
  · intro config persist failures e t hone h
    obtain ⟨-, disk, -, heq⟩ | ⟨e', heq⟩ | ⟨hport, e', hstart, disk, disk', hdisk, hdisk', heq⟩ :=
      s.change_cases serde hs config persist hone
    · cases heq.symm.trans h
    · obtain rfl := (Prod.mk.inj (heq.symm.trans h)).2
      exact ⟨rfl, rfl, rfl, rfl, .inl rfl⟩
    · obtain ⟨he, rfl⟩ := Prod.mk.inj (heq.symm.trans h)
      refine ⟨hs.running.symm, rfl, rfl, rfl, ?_⟩
      cases persist with
      | false => exact .inl (Eq.trans hdisk' hdisk)
      | true =>
        obtain ⟨bytes, hsave, rfl⟩ := hdisk'
        exact .inr ⟨rfl, hport, hstart.trans (congrArg some (Except.error.inj he)), bytes, hsave,
          rfl⟩

/-- Every run of changes, with one failure each at most, is transactional, and any other
overrides write the same to the file. -/
theorem configTransactional {s t : Service} {actions : List ServiceAction}
    (hstart : (serviceSystem serde overrides).start s)
    (hone : ∀ action ∈ actions, action.OneFailure)
    (hrun : (serviceSystem serde overrides).run s actions = some t) :
    t.Transactional serde overrides ∧
      ∀ overrides' s', (serviceSystem serde overrides').start s' →
        s'.machine.disk = s.machine.disk →
        ∃ t', (serviceSystem serde overrides').run s' actions = some t' ∧
          t'.machine.disk = t.machine.disk := by
  constructor
  · have hagree : s.Agree overrides overrides s := ⟨.start hstart, .start hstart, rfl, rfl⟩
    obtain ⟨t', -, hagree'⟩ := hagree.run hone hrun
    exact hagree'.left.transactional
  · intro overrides' s' hstart' hdisk
    have hsaved : s.currentSaved = s'.currentSaved := by
      obtain ⟨bytes, cfg, hload, -, rfl⟩ := hstart
      obtain ⟨bytes', cfg', hload', -, rfl⟩ := hstart'
      obtain rfl : bytes' = bytes := by
        have hfile := congrArg Disk.file hdisk
        exact Option.some.inj hfile
      exact Except.ok.inj (hload.symm.trans hload')
    have hagree : s.Agree overrides overrides' s' := ⟨.start hstart, .start hstart', hdisk.symm,
      hsaved⟩
    obtain ⟨t', hrun', hagree'⟩ := hagree.run hone hrun
    exact ⟨t', hrun', hagree'.disk.symm⟩

variable (serde) in
/-- A valid change on the same port that does not start leaves the saved form in the file,
whatever the file held. -/
theorem Service.change_rolledBack {s : Service} (hs : s.Settled overrides) {config : Config}
    (hconfig : config.validate = .ok ())
    (haddress : (s.currentSaved.webHost, s.currentSaved.webPort) = (config.webHost, config.webPort))
    (hport : s.currentSaved.port = config.port) (e : IoError) :
    ∃ t, s.change serde overrides config true { start := some e } = (.error e, t) ∧
      t.machine.disk.file = some (serde.toPretty s.currentSaved ++ [10]) := by
  have haddress' : ¬((s.current.webHost, s.current.webPort) ≠
      ((overrides.apply config).webHost, (overrides.apply config).webPort)) := by
    rw [hs.current]
    exact not_not.mpr haddress
  have hport' : ¬s.current.port ≠ (overrides.apply config).port := by
    rw [hs.current]
    exact not_not.mpr hport
  have happly (m : Machine) : ∃ disk : Disk, m.apply serde s.current (overrides.apply config)
      (some (s.currentSaved, config)) { start := some e } = (.error e, ⟨some s.current, disk⟩) ∧
        disk.file = some (serde.toPretty s.currentSaved ++ [10]) := by
    delta Machine.apply
    rw [validate_apply hconfig (hs.current ▸ hs.currentValid)]
    dsimp only
    rw [if_neg haddress', if_neg hport', Option.map_some, Disk.persist_some _ hconfig]
    dsimp only [startProxy, Machine.rollBack]
    rw [Option.map_some, Disk.persist_some _ hs.valid]
    exact ⟨_, rfl, rfl⟩
  obtain ⟨disk, heq, hfile⟩ := happly s.machine
  refine ⟨{ s with machine := ⟨some s.current, disk⟩ }, ?_, hfile⟩
  delta Service.change
  dsimp only
  rw [if_pos rfl, heq]

private theorem exists_run (serde : SerdeJson) (overrides : RuntimeOverrides) (s : Service)
    (actions : List ServiceAction) :
    ∃ t, (serviceSystem serde overrides).run s actions = some t := by
  induction actions generalizing s with
  | nil => exact ⟨s, rfl⟩
  | cons action actions ih =>
    obtain ⟨u, hu⟩ : ∃ u, s.step serde overrides action = some u := by
      cases action with
      | panel config failures => exact ⟨_, rfl⟩
      | reload failures =>
        rw [Service.step]
        split
        · exact ⟨s, rfl⟩
        · split <;> exact ⟨_, rfl⟩
      | edit file => exact ⟨_, rfl⟩
    obtain ⟨t, ht⟩ := ih u
    exact ⟨t, Option.bind_eq_some_iff.mpr ⟨u, hu, ht⟩⟩

end

/-! ## A proxy that does not start -/

/-- The service of a file with nothing but a secret. -/
def secretService (overrides : RuntimeOverrides) : Service where
  machine := ⟨some (overrides.apply secretConfig), ⟨some secretText, []⟩⟩
  current := overrides.apply secretConfig
  currentSaved := secretConfig
  shared := secretConfig

/-- The port is taken. -/
def addressInUse : IoError := ⟨.other, "Address already in use (os error 98)"⟩

private theorem start_secretService :
    (serviceSystem (zerosSerde 1) { noSecure := true }).start
      (secretService { noSecure := true }) :=
  ⟨secretText, secretConfig, load_secretText 1, validate_secretConfig,
    rfl⟩

/-- A run with two changes that fail, and an edit of the file between them. -/
theorem configTransactional_run :
    ∃ t, (serviceSystem (zerosSerde 1) { noSecure := true }).run
        (secretService { noSecure := true })
        [.panel secretConfig { start := some addressInUse }, .edit (some secretText),
          .reload { save := some addressInUse }] = some t ∧
      t.Transactional (zerosSerde 1) { noSecure := true } := by
  obtain ⟨t, ht⟩ := exists_run (zerosSerde 1) { noSecure := true }
    (secretService { noSecure := true })
    [.panel secretConfig { start := some addressInUse }, .edit (some secretText),
      .reload { save := some addressInUse }]
  exact ⟨t, ht, (configTransactional start_secretService (by decide) ht).1⟩

/-- The file with another address of the panel, for the next start. -/
def editedText : Bytes :=
  utf8 "\x7b\"secret\":\"00112233445566778899aabbccddeeff\",\"web_port\":1500\x7d"

/-- A rollback does not bring the file back as it was, edited or not. -/
theorem configTransactional_rewrites :
    (serviceSystem (zerosSerde 1) { noSecure := true }).start
        (secretService { noSecure := true }) ∧
      (∃ t, (secretService { noSecure := true }).change (zerosSerde 1) { noSecure := true }
          secretConfig true { start := some addressInUse } = (.error addressInUse, t) ∧
        t.machine.disk.file ≠ (secretService { noSecure := true }).machine.disk.file) ∧
      ∃ s t, (serviceSystem (zerosSerde 1) { noSecure := true }).run
          (secretService { noSecure := true }) [.edit (some editedText)] = some s ∧
        s.change (zerosSerde 1) { noSecure := true } secretConfig true
          { start := some addressInUse } = (.error addressInUse, t) ∧
        t.machine.disk.file ≠ s.machine.disk.file := by
  have hpretty {text : Bytes} (htext : text[1]? = some 34) :
      some ((zerosSerde 1).toPretty secretConfig ++ [10]) ≠ some text := by
    intro h
    rw [← Option.some.inj h, List.getElem?_append_left] at htext
    · cases htext.symm.trans (prettyText_second secretConfig)
    · exact (List.getElem?_eq_some_iff.mp (prettyText_second secretConfig)).1
  have hs := Service.Settled.start start_secretService
  refine ⟨start_secretService, ?_, ?_⟩
  · obtain ⟨t, heq, hfile⟩ := Service.change_rolledBack (zerosSerde 1) hs
      validate_secretConfig rfl rfl addressInUse
    refine ⟨t, heq, fun hsame => ?_⟩
    exact hpretty (by decide +kernel : secretText[1]? = some 34) (hfile.symm.trans hsame)
  · have hedit : Service.step (zerosSerde 1) { noSecure := true }
        (secretService { noSecure := true }) (.edit (some editedText)) = some _ := rfl
    have hs' := hs.step (by trivial) hedit
    obtain ⟨t, heq, hfile⟩ := Service.change_rolledBack (zerosSerde 1) hs'
      validate_secretConfig rfl rfl addressInUse
    refine ⟨_, t, rfl, heq, fun hsame => ?_⟩
    exact hpretty (by decide +kernel : editedText[1]? = some 34) (hfile.symm.trans hsame)

end TgWsProxy
