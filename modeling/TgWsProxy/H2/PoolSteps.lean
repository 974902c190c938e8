import TgWsProxy.H2.PoolSections

/-!
# The steps of the lane pool

Every step is made of sections, and keeps the invariant from one await to the next.
-/

namespace TgWsProxy.H2

open TgWsProxy.Core

namespace CfH2Pool

variable {s t : CfH2Pool} {l c : Nat} {loose : List Nat}

@[simp] theorem slot_available (now : Nat) (lane : PooledLane) :
    (lane.available now).2.slot = lane.slot := by
  unfold PooledLane.available
  split <;> rfl

@[simp] theorem closed_available (now : Nat) (lane : PooledLane) :
    (lane.available now).2.closed = lane.closed := by
  unfold PooledLane.available
  split <;> rfl

@[simp] theorem channels_available (now : Nat) (lane : PooledLane) :
    (lane.available now).2.channels = lane.channels := by
  unfold PooledLane.available
  split <;> rfl

@[simp] theorem clones_available (now : Nat) (lane : PooledLane) :
    (lane.available now).2.clones = lane.clones := by
  unfold PooledLane.available
  split <;> rfl

private theorem mem_of_cached? {host : String} (h : s.cached? host = some l) :
    (host, l) ∈ s.cache := by
  obtain ⟨⟨host', l'⟩, hfind, rfl⟩ := Option.map_eq_some_iff.mp h
  have hhost : host' = host := by simpa using List.find?_some hfind
  exact hhost ▸ List.mem_of_find?_eq_some hfind

private theorem notMem_of_cached? {host : String} (h : s.cached? host = none) :
    host ∉ s.cache.map (·.1) := by
  intro hmem
  obtain ⟨x, hx, rfl⟩ := List.mem_map.mp hmem
  have hfind := List.find?_eq_none.mp (Option.map_eq_none_iff.mp h) x hx
  simp at hfind

/-- An event keeps the invariant. -/
theorem Sound.emit (h : Sound loose s) (event : PoolEvent) : Sound loose (s.emit event) :=
  h.congr id rfl rfl rfl rfl rfl rfl Or.inl

/-- A channel on a cached lane keeps the invariant. -/
theorem Sound.openCached (h : Sound loose s) (hl : l ∈ s.cache.map (·.2))
    (hpool : s.setup = none ∨ s.closed = false) : Sound loose (s.openCached l) := by
  have hchecked : Sound loose (s.modifyLane l fun lane => (lane.available s.now).2) :=
    h.modifyLane (by simp) (by simp) (by simp) fun hclones => h.cloned l (by simpa using hclones)
  rw [CfH2Pool.openCached]
  split
  · apply Sound.emit
    apply hchecked.openChannel _ _ hpool
    · exact hchecked.cached_slot hl
    · exact (hchecked.cached l hl).2
  · exact hchecked.emit _

/-- Other waiting calls and cool-downs, without a new call of `close`. -/
theorem Sound.requeue (h : Sound loose s) {waiting : List Waiting} (failed : List (String × Nat))
    (hwaiting : .closing ∈ waiting → .closing ∈ s.waiting) :
    Sound loose { s with waiting := waiting, failedUntil := failed } :=
  h.congr id rfl rfl rfl rfl rfl rfl fun hw => Or.inl (hwaiting hw)

/-- A call that begins keeps the invariant. -/
theorem Sound.openCall (h : Sound loose s) (host : String) : Sound loose (s.openCall host) := by
  rw [CfH2Pool.openCall]
  split
  · exact h.emit _
  · dsimp only
    split
    · exact (h.requeue _ id).emit _
    · apply h.requeue
      intro hmem
      exact (List.mem_append.mp hmem).resolve_right (by simp)

/-- Looking into the cache keeps the invariant. -/
theorem Sound.look (h : Sound loose s) (call : Nat) (host : String) :
    Sound loose (s.look call host) := by
  have hreturned : Sound loose { s with waiting := s.waiting.eraseIdx call } :=
    h.requeue _ fun hmem => List.mem_of_mem_eraseIdx hmem
  rw [CfH2Pool.look]
  split
  · exact hreturned.emit _
  · next hopen =>
    split
    · next l hl =>
      apply hreturned.openCached
      · exact List.mem_map_of_mem (mem_of_cached? hl)
      · exact Or.inr (by simpa using hopen)
    · apply h.requeue
      intro hmem
      exact (List.mem_or_eq_of_mem_set hmem).resolve_right (by simp)

/-- Taking the lock keeps the invariant. -/
theorem Sound.lock (h : Sound loose s) {call : Nat} {w : Waiting} (hsetup : s.setup = none)
    (hcall : s.waiting[call]? = some w) (hstep : s.lock call w = some t) : Sound loose t := by
  have herase : ∀ failed,
      Sound loose { s with waiting := s.waiting.eraseIdx call, failedUntil := failed } :=
    fun failed => h.requeue failed fun hmem => List.mem_of_mem_eraseIdx hmem
  have hguarded : ∀ k, s.setup.bind Setup.guarded ≠ some k := by simp [hsetup]
  cases w with
  | warm host => cases hstep
  | cold host =>
    obtain rfl := Option.some.inj hstep
    split
    · exact (herase _).emit _
    · apply (herase s.failedUntil).withSetup (List.forall_mem_nil _)
      · intro l hl
        exact Or.inr (hl.resolve_left (hguarded l))
      · rintro _ ⟨⟩
        trivial
  | closing =>
    obtain rfl := Option.some.inj hstep
    apply (herase []).withSetup (List.forall_mem_nil _)
    · intro l hl
      exact Or.inr (hl.resolve_left (hguarded l))
    · rintro _ ⟨⟩
      exact h.announced (List.mem_of_getElem? hcall)

/-- What the choice of a victim says of it. -/
theorem evictable_of_mayEvict {victim : String × Nat} (h : s.mayEvict (some victim) = true) :
    victim ∈ s.cache ∧ s.hasLiveChannels victim.2 = false := by
  simp only [mayEvict, evictable, Bool.and_eq_true, decide_eq_true_eq, Bool.not_eq_true'] at h
  exact ⟨h.1.1, h.1.2.2⟩

private theorem closed_startClose (h : (s.lane l).slot = true) :
    ((s.startClose l).lane l).closed = true :=
  (lane_startClose s l l).trans (closed_abort h)

/-- With a lane in setup there is room in the cache, so `cache_lane` never evicts. -/
theorem Sound.length_cache_lt (h : Sound loose s) (hvalue : l ∉ s.cache.map (·.2))
    (hslot : (s.lane l).slot = true) : s.cache.length < maxCachedLanes := by
  have hle := h.length_le_slots (List.nodup_cons.mpr ⟨hvalue, h.lanes⟩) fun k hk => by
    rcases List.mem_cons.mp hk with rfl | hk
    · exact hslot
    · exact h.cached_slot hk
  rw [List.length_cons, List.length_map] at hle
  exact hle

/-- The section of `cache_lane` puts the new lane into the cache and `open` returns. -/
theorem Sound.evict_caching (h : Sound loose s) {host : String} {l c : Nat}
    {victim : Option (String × Nat)} (hsetup : s.setup = some (.caching host l c))
    (hstep : s.evict victim (.caching host l c) = some t) :
    t = (s.insertCached host l).leave (.opened true c) := by
  have hp := h.proper _ hsetup
  have hslot : (s.lane l).slot = true := h.held l (by simp [hsetup, Setup.arcs])
  have hroom := h.length_cache_lt hp.2.1 hslot
  cases victim with
  | none =>
    simp only [CfH2Pool.evict, Option.elim_none, Option.isNone_none, not_le.mpr hroom, if_false,
      if_true, hroom] at hstep
    exact (Option.some.inj hstep).symm
  | some victim => simp [CfH2Pool.evict, not_le.mpr hroom] at hstep

/-- An eviction closes its victim and keeps the invariant. -/
theorem Sound.evict (h : Sound [] s) {victim : Option (String × Nat)} {stage : Setup}
    (hsetup : s.setup = some stage) (hstep : s.evict victim stage = some t) : Sound [] t := by
  cases stage with
  | evicting host =>
    have hp := h.proper _ hsetup
    have hguarded : s.setup.bind Setup.guarded = none := by
      rw [hsetup]
      rfl
    simp only [CfH2Pool.evict] at hstep
    split at hstep
    · next hmay =>
      obtain rfl := Option.some.inj hstep
      cases victim with
      | none => exact h.leave hguarded _
      | some victim =>
        obtain ⟨hmem, -⟩ := evictable_of_mayEvict hmay
        have hslot : (s.lane victim.2).slot = true := h.cached_slot (List.mem_map_of_mem hmem)
        have hclose : Sound [] ((s.uncache victim.1).startClose victim.2) := by
          apply (h.uncache hmem).startClose (h.lane_notMem_uncache hmem)
          have hset : (s.uncache victim.1).setup = s.setup := rfl
          simp [hset, hguarded]
        apply hclose.withSetup
        · intro k hk
          have hk' : k ∈ [victim.2] := hk
          rw [slot_startClose, List.mem_singleton.mp hk']
          exact hslot
        · intro k hk
          have hset : ((s.uncache victim.1).startClose victim.2).setup = s.setup := rfl
          rw [hset, hguarded] at hk
          exact Or.inr (hk.resolve_left (by simp))
        · rintro _ ⟨⟩
          refine ⟨fun hkey => hp ?_, ?_⟩
          · exact ((s.uncache_sublist victim.1).map (·.1)).subset hkey
          · exact closed_startClose (s := s.uncache victim.1) hslot
    · cases hstep
  | caching host l c =>
    have hp := h.proper _ hsetup
    rw [h.evict_caching hsetup hstep]
    have hfree := h.unguard (l := l) (by rw [hsetup]; rfl)
    have hcached : Sound [] ({ s with setup := none }.insertCached host l) :=
      hfree.insertCached rfl hp.1 hp.2.1 hp.2.2.1 hp.2.2.2.1
    exact hcached.emit _
  | looking _ | settling _ _ | draining _ _ | preflight _ _ _ | cacheSettling _ _ _
  | cacheDraining _ _ _ | taking | closing _ _ => cases hstep

/-- The guarded lane is closed when its setup ends without success. -/
theorem Sound.closeGuarded (h : Sound [] s) (hguarded : s.setup.bind Setup.guarded = some l)
    (hvalue : l ∉ s.cache.map (·.2)) : Sound [] ({ s with setup := none }.abort l) := by
  apply (h.unguard hguarded).abort hvalue
  simp

/-- The end of a preflight keeps the invariant. -/
theorem Sound.preflighted (h : Sound [] s) {outcome : PreflightOutcome} {stage : Setup}
    (hsetup : s.setup = some stage) (hstep : s.preflighted outcome stage = some t) :
    Sound [] t := by
  cases stage with
  | preflight host l deadline =>
    obtain ⟨hhost, hvalue, htracked, hopen⟩ := h.proper _ hsetup
    have hguarded : s.setup.bind Setup.guarded = some l := by
      rw [hsetup]
      rfl
    have hgiven := h.closeGuarded hguarded hvalue
    have hcooled : ∀ error,
        Sound [] (((s.abort l).coolDownHost host).leave (.refused error)) := fun error =>
      hgiven.congr id rfl rfl rfl rfl rfl rfl Or.inl
    cases outcome with
    | failure error =>
      obtain rfl := Option.some.inj hstep
      exact hcooled error
    | timeout =>
      simp only [CfH2Pool.preflighted] at hstep
      split at hstep
      · obtain rfl := Option.some.inj hstep
        exact hcooled _
      · cases hstep
    | success =>
      simp only [CfH2Pool.preflighted] at hstep
      split at hstep
      · obtain rfl := Option.some.inj hstep
        exact hgiven.congr id rfl rfl rfl rfl rfl rfl Or.inl
      · next hpool =>
        obtain rfl := Option.some.inj hstep
        have hslot : (s.lane l).slot = true := h.tracked l htracked
        have hsame : Sound [] { s with failedUntil := s.failedUntil.filter (·.1 ≠ host) } :=
          h.congr id rfl rfl rfl rfl rfl rfl Or.inl
        have hchannel := hsame.openChannel hslot hopen (Or.inr (by simpa using hpool))
        apply hchannel.withSetup
        · intro k hk
          exact hchannel.held k (by simpa [CfH2Pool.openChannel, CfH2Pool.modifyLane, hsetup,
            Setup.arcs] using hk)
        · intro k hk
          have hset : ({ s with failedUntil := s.failedUntil.filter (·.1 ≠ host) }.openChannel
            l).setup = s.setup := rfl
          rw [hset, hguarded] at hk
          exact hk
        · rintro _ ⟨⟩
          refine ⟨hhost, hvalue, htracked, ?_, ?_, ?_⟩
          · rw [lane_openChannel]
            split <;> exact hopen
          · simp [CfH2Pool.openChannel, CfH2Pool.modifyLane]
          · rw [channel_openChannel, if_pos rfl]
  | looking _ | evicting _ | settling _ _ | draining _ _ | caching _ _ _ | cacheSettling _ _ _
  | cacheDraining _ _ _ | taking | closing _ _ => cases hstep

/-- Going on behind an await keeps the invariant. -/
theorem Sound.resume (h : Sound [] s) {stage : Setup} (hsetup : s.setup = some stage)
    (hstep : s.resume stage = some t) : Sound [] t := by
  have hp := h.proper _ hsetup
  have hnone : stage.guarded = none → s.setup.bind Setup.guarded = none := by
    intro hg
    rw [hsetup]
    exact hg
  cases stage with
  | looking host =>
    simp only [CfH2Pool.resume] at hstep
    split at hstep
    · next l hl =>
      obtain rfl := Option.some.inj hstep
      have hfree := (h.leave (hnone rfl) .unavailable)
      have hfree' : Sound [] { s with setup := none } :=
        hfree.congr id rfl rfl rfl rfl rfl rfl Or.inl
      exact hfree'.openCached (List.mem_map_of_mem (mem_of_cached? hl)) (Or.inl rfl)
    · next hmiss =>
      obtain rfl := Option.some.inj hstep
      have hdrop := h.pruneTrackedLanes.dropLanes
      have hhost : host ∉ s.pruneTrackedLanes.dropLanes.cache.map (·.1) := notMem_of_cached? hmiss
      have hset : s.pruneTrackedLanes.dropLanes.setup = some (.looking host) := hsetup
      split
      · next hslots => exact hdrop.openLane hslots (by simp [hset]) hhost
      · apply hdrop.withSetup (List.forall_mem_nil _)
        · intro k hk
          rw [hset] at hk
          exact Or.inr (hk.resolve_left (by simp [Setup.guarded]))
        · rintro _ ⟨⟩
          exact hhost
  | settling host e =>
    obtain rfl := Option.some.inj hstep
    have hslot : (s.lane e).slot = true := h.held e (by simp [hsetup, Setup.arcs])
    have hvalue : e ∉ s.cache.map (·.2) := by
      intro hmem
      have hopen := (h.cached e hmem).2
      rw [hp.2] at hopen
      cases hopen
    have hclose : Sound [] (s.startClose e) := by
      apply (h.mono (List.nil_subset [e])).startClose hvalue
      rw [hnone rfl]
      simp
    apply hclose.withSetup
    · intro k hk
      have hk' : k ∈ [e] := hk
      rw [slot_startClose, List.mem_singleton.mp hk']
      exact hslot
    · intro k hk
      have hset : (s.startClose e).setup = s.setup := rfl
      rw [hset, hnone rfl] at hk
      exact Or.inr (hk.resolve_left (by simp))
    · rintro _ ⟨⟩
      exact ⟨hp.1, closed_startClose hslot⟩
  | draining host e =>
    obtain rfl := Option.some.inj hstep
    have hfree : Sound [] { s.pruneTrackedLanes with setup := none } :=
      (h.pruneTrackedLanes.leave (hnone rfl) .unavailable).congr id rfl rfl rfl rfl rfl rfl Or.inl
    dsimp only
    split
    · next hslots => exact hfree.dropLanes.openLane hslots trivial hp.1
    · exact hfree.dropLanes.leave rfl _
  | taking =>
    obtain rfl := Option.some.inj hstep
    exact h.takeLanes hsetup hp
  | closing held todo =>
    cases todo with
    | nil =>
      obtain rfl := Option.some.inj hstep
      exact h.leave (hnone rfl) _
    | cons l todo =>
      obtain rfl := Option.some.inj hstep
      have hclose : Sound [] (s.startClose l) := by
        apply (h.mono (List.nil_subset [l])).startClose
        · simp [hp.cache]
        · rw [hnone rfl]
          simp
      have hset : (s.startClose l).setup = some (.closing held (l :: todo)) := hsetup
      have hshut : (s.startClose l).Shut := hclose.proper _ hset
      apply hclose.withSetup
      · intro k hk
        exact hclose.held k (by rw [hset]; exact hk)
      · intro k hk
        rw [hset] at hk
        exact Or.inr (hk.resolve_left (by simp [Setup.guarded]))
      · rintro _ ⟨⟩
        exact hshut
  | cacheSettling _ _ _ | cacheDraining _ _ _ => exact hp.elim
  | evicting _ | preflight _ _ _ | caching _ _ _ => cases hstep

/-- A handle that is dropped keeps the invariant. -/
theorem Sound.dropHandle (h : Sound loose s) (c : Nat) : Sound loose (s.dropHandle c) := by
  apply h.modifyChannel
  · intro ch
    rfl
  · intro halive
    simp only [PooledChannel.alive, Bool.or_eq_true] at halive ⊢
    exact Or.inr (halive.resolve_left (by simp))
  · intro ch _
    exact isSome_terminal_fail ..
  · intro ch _ _
    exact isSome_terminal_fail ..

/-- A call that is cancelled under the lock keeps the invariant. -/
theorem Sound.cancel (h : Sound [] s) {stage : Setup} (hsetup : s.setup = some stage) :
    Sound [] (s.cancel stage) := by
  have hp := h.proper _ hsetup
  have hfree : stage.guarded = none → Sound [] { s with setup := none } := by
    intro hg
    have hleave := h.leave (by rw [hsetup]; exact hg) .unavailable
    exact hleave.congr id rfl rfl rfl rfl rfl rfl Or.inl
  cases stage with
  | preflight host l deadline =>
    exact h.closeGuarded (by rw [hsetup]; rfl) hp.2.1
  | caching host l c =>
    have hloose := (h.unguard (l := l) (by rw [hsetup]; rfl)).dropHandle c
    apply hloose.abort hp.2.1
    have hset : ({ s with setup := none }.dropHandle c).setup = none := rfl
    simp [hset]
  | cacheSettling _ _ _ | cacheDraining _ _ _ => exact hp.elim
  | looking _ | evicting _ | settling _ _ | draining _ _ | taking | closing _ _ =>
    exact hfree rfl

/-- An action keeps the invariant. -/
theorem Sound.act (h : Sound [] s) {a : PoolAction} (hstep : s.act a = some t) : Sound [] t := by
  cases a with
  | tick elapsed =>
    obtain rfl := Option.some.inj hstep
    exact h.congr id rfl rfl rfl rfl rfl rfl Or.inl
  | openCalled host =>
    obtain rfl := Option.some.inj hstep
    exact h.openCall host
  | look call =>
    simp only [CfH2Pool.act] at hstep
    split at hstep
    · obtain rfl := Option.some.inj hstep
      exact h.look call _
    · cases hstep
  | lock call =>
    simp only [CfH2Pool.act] at hstep
    split at hstep
    · cases hstep
    · next hfree =>
      obtain ⟨w, hw, hlock⟩ := Option.bind_eq_some_iff.mp hstep
      exact h.lock (by simpa using hfree) hw hlock
  | abandon call =>
    simp only [CfH2Pool.act] at hstep
    split at hstep
    · obtain rfl := Option.some.inj hstep
      exact h.requeue s.failedUntil fun hmem => List.mem_of_mem_eraseIdx hmem
    · cases hstep
  | closeCalled =>
    obtain rfl := Option.some.inj hstep
    exact h.congr (fun _ => rfl) rfl rfl rfl rfl rfl rfl fun _ => Or.inr rfl
  | resume =>
    obtain ⟨stage, hset, hresume⟩ := Option.bind_eq_some_iff.mp hstep
    exact h.resume hset hresume
  | evict victim =>
    obtain ⟨stage, hset, hevict⟩ := Option.bind_eq_some_iff.mp hstep
    exact h.evict hset hevict
  | preflighted outcome =>
    obtain ⟨stage, hset, hended⟩ := Option.bind_eq_some_iff.mp hstep
    exact h.preflighted hset hended
  | cancel =>
    obtain ⟨stage, hset, rfl⟩ := Option.map_eq_some_iff.mp hstep
    exact h.cancel hset
  | taskSpawned l =>
    simp only [CfH2Pool.act] at hstep
    split at hstep
    · obtain rfl := Option.some.inj hstep
      exact h.modifyLane (fun _ => rfl) (fun _ => rfl) (fun _ _ => rfl) (h.cloned l)
    · cases hstep
  | taskFinished l =>
    obtain rfl := Option.some.inj hstep
    exact h.modifyLane (fun _ => rfl) (fun _ => rfl) (fun _ _ => rfl) (h.cloned l)
  | laneCloned l =>
    simp only [CfH2Pool.act] at hstep
    split at hstep
    · next hslot =>
      obtain rfl := Option.some.inj hstep
      exact h.modifyLane (fun _ => rfl) (fun _ => rfl) (fun _ _ => rfl) fun _ => hslot
    · cases hstep
  | laneCloneDropped l =>
    obtain rfl := Option.some.inj hstep
    exact h.modifyLane (fun _ => rfl) (fun _ => rfl) (fun _ _ => rfl) fun hpos =>
      h.cloned l (lt_of_lt_of_le hpos (Nat.sub_le _ _))
  | coolDown l =>
    simp only [CfH2Pool.act] at hstep
    split at hstep
    · obtain rfl := Option.some.inj hstep
      exact h.modifyLane (fun _ => rfl) (fun _ => rfl) (fun _ _ => rfl) (h.cloned l)
    · cases hstep
  | handleDropped c =>
    simp only [CfH2Pool.act] at hstep
    split at hstep
    · obtain rfl := Option.some.inj hstep
      exact h.dropHandle c
    · cases hstep
  | channelCloned c =>
    simp only [CfH2Pool.act] at hstep
    split at hstep
    · next halive =>
      obtain rfl := Option.some.inj hstep
      apply h.modifyChannel
      · intro ch
        rfl
      · intro _
        exact halive
      · intro ch hch
        exact hch
      · intro ch hnot howned
        exact absurd howned (by simpa using hnot)
    · cases hstep
  | channelCloneDropped c =>
    obtain rfl := Option.some.inj hstep
    apply h.modifyChannel
    · intro ch
      rfl
    · intro halive
      simp only [PooledChannel.alive, Bool.or_eq_true, decide_eq_true_eq] at halive ⊢
      exact halive.imp_right fun hpos => lt_of_lt_of_le hpos (Nat.sub_le _ _)
    · intro ch hch
      exact hch
    · intro ch hnot howned
      exact absurd howned (by simpa using hnot)
  | channelFailed c terminal =>
    simp only [CfH2Pool.act] at hstep
    split at hstep
    · obtain rfl := Option.some.inj hstep
      apply h.modifyChannel
      · intro ch
        rfl
      · intro halive
        exact halive
      · intro ch _
        exact isSome_terminal_fail ..
      · intro ch _ _
        exact isSome_terminal_fail ..
    · cases hstep

end CfH2Pool

end TgWsProxy.H2
