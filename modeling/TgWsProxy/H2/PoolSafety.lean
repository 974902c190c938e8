import TgWsProxy.H2.PoolSteps

/-!
# Safety of the lane pool

What `open` returns, where and when, in every run of the pool; and what holds of it once it is
closed.
-/

namespace TgWsProxy.H2

open TgWsProxy.Core

namespace CfH2Pool

variable {s t : CfH2Pool} {l c : Nat}

/-! ## What is returned, and when -/

/-- When an action may return an event: a cold success comes from the cache section, a warm one
before `close` is called or from a call that held `setup_lock` already. -/
def Emits (s : CfH2Pool) (a : PoolAction) : PoolEvent → Prop
  | .opened true c => ∃ victim host l, a = .evict victim ∧ s.setup = some (.caching host l c)
  | .opened false _ => s.closed = false ∨ ∃ host, s.setup = some (.looking host)
  | .closed => ∃ held, s.setup = some (.closing held [])
  | .unavailable | .refused _ => True

/-- An action returns at most one event. -/
def Logs (s : CfH2Pool) (a : PoolAction) (t : CfH2Pool) : Prop :=
  t.log = s.log ∨ ∃ event, t.log = event :: s.log ∧ s.Emits a event

/-- A step that logs the one event it may emit. -/
theorem Logs.event {a : PoolAction} (event : PoolEvent) (hlog : t.log = event :: s.log)
    (hemits : s.Emits a event) : s.Logs a t :=
  Or.inr ⟨event, hlog, hemits⟩

/-- Opening on a cached lane logs a warm channel. -/
theorem logs_openCached {a : PoolAction} (s' : CfH2Pool) (hlog : s'.log = s.log)
    (hwarm : ∀ c, s.Emits a (.opened false c)) : s.Logs a (s'.openCached l) := by
  have hcons : ∀ event, event :: s'.log = event :: s.log := fun event => by rw [hlog]
  rw [openCached]
  split
  · exact .event _ (hcons _) (hwarm _)
  · exact .event .unavailable (hcons .unavailable) trivial

/-- A new lane logs nothing before its preflight. -/
theorem logs_openLane {a : PoolAction} (s' : CfH2Pool) (hlog : s'.log = s.log) (host : String) :
    s.Logs a (s'.openLane host) := by
  rw [openLane]
  split
  · exact .event (.refused poolClosed) (congrArg (PoolEvent.refused poolClosed :: ·) hlog) trivial
  · rw [trackLane_eq]
    exact Or.inl hlog

private theorem foldl_startClose_log (held : List Nat) (s : CfH2Pool) :
    (held.foldl startClose s).log = s.log := by
  induction held generalizing s with
  | nil => rfl
  | cons l held ih => exact ih (s.startClose l)

/-- Going on behind an await logs what it may. -/
theorem Sound.logs_resume (h : Sound [] s) {a : PoolAction} {stage : Setup}
    (hsetup : s.setup = some stage) (hstep : s.resume stage = some t) : s.Logs a t := by
  cases stage with
  | looking host =>
    simp only [CfH2Pool.resume] at hstep
    split at hstep
    · obtain rfl := Option.some.inj hstep
      exact logs_openCached _ rfl fun c => Or.inr ⟨host, hsetup⟩
    · obtain rfl := Option.some.inj hstep
      split
      · apply logs_openLane
        rfl
      · exact Or.inl rfl
  | draining host e =>
    obtain rfl := Option.some.inj hstep
    dsimp only
    split
    · apply logs_openLane
      rfl
    · exact .event .unavailable rfl trivial
  | taking =>
    obtain rfl := Option.some.inj hstep
    exact Or.inl (foldl_startClose_log _ _)
  | closing held todo =>
    cases todo with
    | nil =>
      obtain rfl := Option.some.inj hstep
      exact .event .closed rfl ⟨held, hsetup⟩
    | cons l todo =>
      obtain rfl := Option.some.inj hstep
      exact Or.inl rfl
  | settling host e =>
    obtain rfl := Option.some.inj hstep
    exact Or.inl rfl
  | cacheSettling _ _ _ | cacheDraining _ _ _ => exact (h.proper _ hsetup).elim
  | evicting _ | preflight _ _ _ | caching _ _ _ => cases hstep

/-- An eviction logs what it may. -/
theorem Sound.logs_evict (h : Sound [] s) {victim : Option (String × Nat)} {stage : Setup}
    (hsetup : s.setup = some stage) (hstep : s.evict victim stage = some t) :
    s.Logs (.evict victim) t := by
  cases stage with
  | evicting host =>
    simp only [CfH2Pool.evict] at hstep
    split at hstep
    · obtain rfl := Option.some.inj hstep
      cases victim with
      | none => exact .event .unavailable rfl trivial
      | some victim => exact Or.inl rfl
    · cases hstep
  | caching host l c =>
    rw [h.evict_caching hsetup hstep]
    exact .event (.opened true c) rfl ⟨victim, host, l, rfl, hsetup⟩
  | looking _ | settling _ _ | draining _ _ | preflight _ _ _ | cacheSettling _ _ _
  | cacheDraining _ _ _ | taking | closing _ _ => cases hstep

/-- The end of a preflight logs what it may. -/
theorem logs_preflighted {a : PoolAction} {outcome : PreflightOutcome} {stage : Setup}
    (hstep : s.preflighted outcome stage = some t) : s.Logs a t := by
  cases stage with
  | preflight host l deadline =>
    cases outcome with
    | failure error =>
      obtain rfl := Option.some.inj hstep
      exact .event (.refused error) rfl trivial
    | timeout =>
      simp only [CfH2Pool.preflighted] at hstep
      split at hstep
      · obtain rfl := Option.some.inj hstep
        exact .event (.refused _) rfl trivial
      · cases hstep
    | success =>
      simp only [CfH2Pool.preflighted] at hstep
      split at hstep
      · obtain rfl := Option.some.inj hstep
        exact .event (.refused _) rfl trivial
      · obtain rfl := Option.some.inj hstep
        exact Or.inl rfl
  | looking _ | evicting _ | settling _ _ | draining _ _ | caching _ _ _ | cacheSettling _ _ _
  | cacheDraining _ _ _ | taking | closing _ _ => cases hstep

/-- Each action of the lock's holder logs what it may. -/
theorem Sound.logs_act (h : Sound [] s) {a : PoolAction} (hstep : s.act a = some t) :
    s.Logs a t := by
  cases a with
  | openCalled host =>
    obtain rfl := Option.some.inj hstep
    rw [CfH2Pool.openCall]
    split
    · exact .event (.refused _) rfl trivial
    · dsimp only
      split
      · exact .event .unavailable rfl trivial
      · exact Or.inl rfl
  | look call =>
    simp only [CfH2Pool.act] at hstep
    split at hstep
    · obtain rfl := Option.some.inj hstep
      rw [CfH2Pool.look]
      split
      · exact .event (.refused _) rfl trivial
      · next hopen =>
        split
        · exact logs_openCached _ rfl fun c => Or.inl (by simpa using hopen)
        · exact Or.inl rfl
    · cases hstep
  | lock call =>
    simp only [CfH2Pool.act] at hstep
    split at hstep
    · cases hstep
    · obtain ⟨w, -, hlock⟩ := Option.bind_eq_some_iff.mp hstep
      cases w with
      | warm host => cases hlock
      | cold host =>
        obtain rfl := Option.some.inj hlock
        split
        · exact .event (.refused _) rfl trivial
        · exact Or.inl rfl
      | closing =>
        obtain rfl := Option.some.inj hlock
        exact Or.inl rfl
  | resume =>
    obtain ⟨stage, hset, hresume⟩ := Option.bind_eq_some_iff.mp hstep
    exact h.logs_resume hset hresume
  | evict victim =>
    obtain ⟨stage, hset, hevict⟩ := Option.bind_eq_some_iff.mp hstep
    exact h.logs_evict hset hevict
  | preflighted outcome =>
    obtain ⟨stage, -, hended⟩ := Option.bind_eq_some_iff.mp hstep
    exact logs_preflighted hended
  | cancel =>
    obtain ⟨stage, -, rfl⟩ := Option.map_eq_some_iff.mp hstep
    cases stage <;> exact Or.inl rfl
  | tick _ | closeCalled | taskFinished _ | laneCloneDropped _ | channelCloneDropped _ =>
    obtain rfl := Option.some.inj hstep
    exact Or.inl rfl
  | abandon _ | taskSpawned _ | laneCloned _ | coolDown _ | handleDropped _ | channelCloned _
  | channelFailed _ _ =>
    simp only [CfH2Pool.act] at hstep
    split at hstep
    · obtain rfl := Option.some.inj hstep
      exact Or.inl rfl
    · cases hstep

/-- The stages of `close`. -/
def closes : Setup → Bool
  | .taking | .closing _ _ => true
  | _ => false

/-- The pool is shut and no `open` holds `setup_lock`: it stays shut for good. -/
structure Sealed (s : CfH2Pool) : Prop where
  shut : s.Shut
  setup : ∀ stage, s.setup = some stage → closes stage = true

/-- A closed pool without cache and without an open setup is sealed. -/
theorem sealed_of_sound (h : Sound [] s) (hclosed : s.closed = true) (hcache : s.cache = [])
    (hsetup : ∀ stage, s.setup = some stage → closes stage = true) : s.Sealed := by
  refine ⟨h.shut hclosed hcache ?_, hsetup⟩
  cases hst : s.setup with
  | none => rfl
  | some stage =>
    have hcloses := hsetup stage hst
    cases stage <;> first | rfl | cases hcloses

/-- What a sealed pool does keeps it closed, empty and without a setup. -/
theorem Sealed.act (h : s.Sealed) {a : PoolAction} (hstep : s.act a = some t) :
    t.closed = true ∧ t.cache = [] ∧ ∀ stage, t.setup = some stage → closes stage = true := by
  obtain ⟨⟨hclosed, hcache, -, -⟩, hsetup⟩ := h
  cases a with
  | openCalled host =>
    obtain rfl := Option.some.inj hstep
    rw [openCall, if_pos hclosed]
    exact ⟨hclosed, hcache, hsetup⟩
  | look call =>
    simp only [CfH2Pool.act] at hstep
    split at hstep
    · obtain rfl := Option.some.inj hstep
      rw [CfH2Pool.look, if_pos hclosed]
      exact ⟨hclosed, hcache, hsetup⟩
    · cases hstep
  | lock call =>
    simp only [CfH2Pool.act] at hstep
    split at hstep
    · cases hstep
    · obtain ⟨w, -, hlock⟩ := Option.bind_eq_some_iff.mp hstep
      cases w with
      | warm host => cases hlock
      | cold host =>
        obtain rfl := Option.some.inj hlock
        rw [if_pos hclosed]
        exact ⟨hclosed, hcache, hsetup⟩
      | closing =>
        obtain rfl := Option.some.inj hlock
        refine ⟨hclosed, hcache, fun stage hst => ?_⟩
        rw [← Option.some.inj hst]
        rfl
  | resume =>
    obtain ⟨stage, hset, hresume⟩ := Option.bind_eq_some_iff.mp hstep
    have hcloses := hsetup stage hset
    cases stage with
    | taking =>
      obtain rfl := Option.some.inj hresume
      let held := s.cache.map (·.2) ++ s.allLanes.filter (· ∉ s.cache.map (·.2))
      obtain ⟨hcache', hclosed', hsetup', -⟩ := foldl_startClose_frame held
        { s with cache := [], allLanes := [], setup := some (.closing held held) }
      refine ⟨hclosed'.trans hclosed, hcache', fun stage hst => ?_⟩
      rw [← Option.some.inj (hsetup'.symm.trans hst)]
      rfl
    | closing held todo =>
      cases todo with
      | nil =>
        obtain rfl := Option.some.inj hresume
        exact ⟨hclosed, hcache, fun stage hst => by cases hst⟩
      | cons l todo =>
        obtain rfl := Option.some.inj hresume
        refine ⟨hclosed, hcache, fun stage hst => ?_⟩
        rw [← Option.some.inj hst]
        rfl
    | looking _ | evicting _ | settling _ _ | draining _ _ | preflight _ _ _ | caching _ _ _
    | cacheSettling _ _ _ | cacheDraining _ _ _ => cases hcloses
  | evict victim =>
    obtain ⟨stage, hset, hevict⟩ := Option.bind_eq_some_iff.mp hstep
    have hcloses := hsetup stage hset
    cases stage with
    | evicting _ | caching _ _ _ => cases hcloses
    | looking _ | settling _ _ | draining _ _ | preflight _ _ _ | cacheSettling _ _ _
    | cacheDraining _ _ _ | taking | closing _ _ => cases hevict
  | preflighted outcome =>
    obtain ⟨stage, hset, hended⟩ := Option.bind_eq_some_iff.mp hstep
    have hcloses := hsetup stage hset
    cases stage with
    | preflight _ _ _ => cases hcloses
    | looking _ | evicting _ | settling _ _ | draining _ _ | caching _ _ _ | cacheSettling _ _ _
    | cacheDraining _ _ _ | taking | closing _ _ => cases hended
  | cancel =>
    obtain ⟨stage, hset, rfl⟩ := Option.map_eq_some_iff.mp hstep
    have hcloses := hsetup stage hset
    cases stage with
    | taking | closing _ _ => exact ⟨hclosed, hcache, fun stage hst => by cases hst⟩
    | looking _ | evicting _ | settling _ _ | draining _ _ | preflight _ _ _ | caching _ _ _
    | cacheSettling _ _ _ | cacheDraining _ _ _ => cases hcloses
  | closeCalled =>
    obtain rfl := Option.some.inj hstep
    exact ⟨rfl, hcache, hsetup⟩
  | tick _ | taskFinished _ | laneCloneDropped _ | channelCloneDropped _ =>
    obtain rfl := Option.some.inj hstep
    exact ⟨hclosed, hcache, hsetup⟩
  | abandon _ | taskSpawned _ | laneCloned _ | coolDown _ | handleDropped _ | channelCloned _
  | channelFailed _ _ =>
    simp only [CfH2Pool.act] at hstep
    split at hstep
    · obtain rfl := Option.some.inj hstep
      exact ⟨hclosed, hcache, hsetup⟩
    · cases hstep

/-- A sealed pool stays sealed. -/
theorem Sealed.step (h : s.Sealed) (hsound : Sound [] s) {a : PoolAction}
    (hstep : s.step a = some t) : t.Sealed := by
  obtain ⟨u, hact, rfl⟩ := Option.map_eq_some_iff.mp hstep
  obtain ⟨hclosed, hcache, hsetup⟩ := h.act hact
  exact sealed_of_sound (hsound.act hact).dropLanes hclosed hcache hsetup

/-- A sealed pool returns no channel. -/
theorem Sealed.not_emits (h : s.Sealed) {a : PoolAction} {cold : Bool} {c : Nat} :
    ¬s.Emits a (.opened cold c) := by
  intro hemits
  cases cold with
  | true =>
    obtain ⟨victim, host, l, -, hset⟩ := hemits
    cases h.setup _ hset
  | false =>
    rcases hemits with hopen | ⟨host, hset⟩
    · rw [h.shut.closed] at hopen
      cases hopen
    · cases h.setup _ hset

/-- Every step keeps the invariant. -/
theorem Sound.step (h : Sound [] s) {a : PoolAction} (hstep : s.step a = some t) : Sound [] t := by
  obtain ⟨u, hact, rfl⟩ := Option.map_eq_some_iff.mp hstep
  exact (h.act hact).dropLanes

/-- Every step logs what it may. -/
theorem Sound.logs_step (h : Sound [] s) {a : PoolAction} (hstep : s.step a = some t) :
    s.Logs a t := by
  obtain ⟨u, hact, rfl⟩ := Option.map_eq_some_iff.mp hstep
  have hlogs : s.Logs a u := h.logs_act hact
  exact hlogs

/-- The invariant holds in every run. -/
theorem sound_of_reachable (h : poolSystem.Reachable s) : Sound [] s :=
  h.invariant (fun _ hs => hs ▸ Sound.initial) fun _ _ _ hsound hstep => hsound.step hstep

/-- Once `close` has returned the pool is sealed, and nothing is opened from then on. -/
structure Ended (s : CfH2Pool) : Prop where
  sealed : .closed ∈ s.log → s.Sealed
  quiet : ∀ later earlier, s.log = later ++ .closed :: earlier →
    ∀ cold c, .opened cold c ∉ later

/-- What has ended stays so. -/
theorem Ended.step (h : s.Ended) (hsound : Sound [] s) {a : PoolAction}
    (hstep : s.step a = some t) : t.Ended := by
  rcases hsound.logs_step hstep with hlog | ⟨event, hlog, hemits⟩
  · refine ⟨fun hmem => ?_, fun later earlier hsplit => h.quiet later earlier (hlog ▸ hsplit)⟩
    exact (h.sealed (hlog ▸ hmem)).step hsound hstep
  · constructor
    · intro hmem
      rw [hlog] at hmem
      rcases List.mem_cons.mp hmem with rfl | hmem
      · obtain ⟨held, hset⟩ := hemits
        have hseal : s.Sealed := by
          refine ⟨hsound.proper _ hset, fun stage hst => ?_⟩
          rw [← Option.some.inj (hset.symm.trans hst)]
          rfl
        exact hseal.step hsound hstep
      · exact (h.sealed hmem).step hsound hstep
    · intro later earlier hsplit cold c hmem
      rw [hlog] at hsplit
      cases later with
      | nil => cases hmem
      | cons first later =>
        obtain ⟨rfl, htail⟩ := List.cons.inj hsplit
        rcases List.mem_cons.mp hmem with rfl | hmem
        · have hended : PoolEvent.closed ∈ s.log := by
            rw [htail]
            exact List.mem_append_right _ (List.mem_cons_self ..)
          exact (h.sealed hended).not_emits hemits
        · exact h.quiet later earlier htail cold c hmem

/-- In every run nothing is opened behind a `close` that has returned. -/
theorem ended_of_reachable (h : poolSystem.Reachable s) : s.Ended := by
  apply h.strengthen (fun s => sound_of_reachable)
  · rintro s rfl
    refine ⟨(fun hmem => nomatch hmem), fun later earlier hsplit => ?_⟩
    cases later <;> cases hsplit
  · intro s a t hsound hended hstep
    exact hended.step hsound hstep

/-- A cold success returns with its lane in the cache. -/
theorem Sound.cached_of_cold (h : Sound [] s) {a : PoolAction} (hstep : s.step a = some t)
    (hlog : t.log = .opened true c :: s.log) :
    ∃ host, (host, (t.channel c).lane) ∈ t.cache := by
  rcases h.logs_step hstep with hsame | ⟨event, hlog', hemits⟩
  · have hlen := congrArg List.length (hsame.symm.trans hlog)
    simp at hlen
  · obtain ⟨rfl, -⟩ := List.cons.inj (hlog'.symm.trans hlog)
    obtain ⟨victim, host, l, rfl, hset⟩ := hemits
    obtain ⟨u, hact, rfl⟩ := Option.map_eq_some_iff.mp hstep
    obtain ⟨stage, hset', hevict⟩ := Option.bind_eq_some_iff.mp hact
    obtain rfl := Option.some.inj (hset'.symm.trans hset)
    have hu := h.evict_caching hset hevict
    have hlane : (s.channel c).lane = l := (h.proper _ hset).2.2.2.2.2
    have hkept : (u.dropLanes.channel c).lane = l := by
      rw [hu]
      exact hlane
    refine ⟨host, ?_⟩
    rw [hkept, hu]
    exact List.mem_cons_self ..

/-- An eviction closes no lane with a live channel. -/
theorem Sound.evict_spares (h : Sound [] s) {victim : Option (String × Nat)}
    (hstep : s.step (.evict victim) = some t) (hopen : (s.lane l).closed = false)
    (hclosed : (t.lane l).closed = true) (halive : (s.channel c).alive = true) :
    (s.channel c).lane ≠ l := by
  rintro rfl
  obtain ⟨u, hact, rfl⟩ := Option.map_eq_some_iff.mp hstep
  obtain ⟨stage, hset, hevict⟩ := Option.bind_eq_some_iff.mp hact
  have hu : (u.lane (s.channel c).lane).closed = true := by
    rw [lane_dropLanes] at hclosed
    exact hclosed
  have hregistered := h.registered c halive hopen
  have hlive : s.hasLiveChannels (s.channel c).lane = true :=
    List.any_eq_true.mpr ⟨c, hregistered, halive⟩
  cases stage with
  | evicting host =>
    simp only [CfH2Pool.evict] at hevict
    split at hevict
    · next hmay =>
      obtain rfl := Option.some.inj hevict
      cases victim with
      | none =>
        have hsame : (s.lane (s.channel c).lane).closed = true := hu
        rw [hopen] at hsame
        cases hsame
      | some victim =>
        obtain ⟨-, hidle⟩ := evictable_of_mayEvict hmay
        have hne : victim.2 ≠ (s.channel c).lane := by
          intro heq
          rw [heq, hlive] at hidle
          cases hidle
        rw [lane_startClose, closed_abort_of_ne hne] at hu
        have hsame : (s.lane (s.channel c).lane).closed = true := hu
        rw [hopen] at hsame
        cases hsame
    · cases hevict
  | caching host l c' =>
    rw [h.evict_caching hset hevict] at hu
    have hsame : (s.lane (s.channel c).lane).closed = true := hu
    rw [hopen] at hsame
    cases hsame
  | looking _ | settling _ _ | draining _ _ | preflight _ _ _ | cacheSettling _ _ _
  | cacheDraining _ _ _ | taking | closing _ _ => cases hevict

end CfH2Pool

open CfH2Pool

/-- What the pool guarantees in a state. -/
structure PoolSafe (s : CfH2Pool) : Prop where
  slots : s.slots ≤ maxLiveLanes
  cached : ∀ host l, (host, l) ∈ s.cache →
    l ∈ s.allLanes ∧ (s.lane l).slot = true ∧ (s.closed = false → (s.lane l).closed = false)
  coldCached : ∀ a t c, s.step a = some t → t.log = .opened true c :: s.log →
    ∃ host, (host, (t.channel c).lane) ∈ t.cache
  spared : ∀ victim t l c, s.step (.evict victim) = some t → (s.lane l).closed = false →
    (t.lane l).closed = true → (s.channel c).alive = true → (s.channel c).lane ≠ l
  placed : ∀ l, (s.lane l).slot = true → (∃ host, (host, l) ∈ s.cache) ∨
    s.setup.bind Setup.guarded = some l ∨ (s.lane l).closed = true
  failed : .closed ∈ s.log → ∀ cold c, .opened cold c ∈ s.log →
    (s.channel c).terminal.isSome = true
  refused : ∀ later earlier, s.log = later ++ .closed :: earlier →
    ∀ cold c, .opened cold c ∉ later

/-- The lane pool is safe in every run of its calls, tasks and channels. -/
theorem poolSafe {s : CfH2Pool} (h : poolSystem.Reachable s) : PoolSafe s := by
  have hsound := sound_of_reachable h
  have hended := ended_of_reachable h
  refine ⟨?_, fun host l hl => ?_, fun a t c hstep hlog => hsound.cached_of_cold hstep hlog,
    fun victim t l c hstep hopen hclosed halive => hsound.evict_spares hstep hopen hclosed halive,
    fun l hl => ?_, fun hclosed _ c _ => (hended.sealed hclosed).shut.channels c, hended.quiet⟩
  · have hslots := hsound.slots
    omega
  · have hmem : l ∈ s.cache.map (·.2) := List.mem_map_of_mem hl
    obtain ⟨htracked, hopen⟩ := hsound.cached l hmem
    exact ⟨htracked, hsound.tracked l htracked, fun _ => hopen⟩
  · rcases hsound.placed l hl with hclosed | hmem | hguarded | hloose
    · exact Or.inr (Or.inr hclosed)
    · obtain ⟨⟨host, l'⟩, hentry, rfl⟩ := List.mem_map.mp hmem
      exact Or.inl ⟨host, hentry⟩
    · exact Or.inr (Or.inl hguarded)
    · cases hloose

/-- Eight cold opens, an eviction for a ninth, and a `close` that returns. -/
def lifetimeActions : List PoolAction :=
  ((List.range 8).flatMap fun i =>
    [.openCalled (toString i), .look 0, .lock 0, .resume, .preflighted .success, .evict none]) ++
  [.handleDropped 3, .openCalled "8", .look 0, .lock 0, .resume, .evict (some ("3", 3)), .resume,
    .resume, .preflighted .success, .evict none, .closeCalled, .lock 0] ++
  List.replicate 10 .resume

def lifetimeCheck (s : CfH2Pool) : Bool :=
  s.log.head? = some .closed && s.log.length = 10 && s.channels.all (·.terminal.isSome)

/-- A run through the life of a pool, from the first channel to `close`. -/
theorem poolSafe_lifetime : ∃ s, poolSystem.run {} lifetimeActions = some s ∧
    lifetimeCheck s = true ∧ PoolSafe s := by
  obtain ⟨s, hrun, hcheck⟩ := poolSystem.exists_of_run {} lifetimeActions lifetimeCheck
    (by decide +kernel)
  exact ⟨s, hrun, hcheck, poolSafe ((System.Reachable.start rfl).run hrun)⟩

end TgWsProxy.H2
