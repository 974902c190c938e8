import TgWsProxy.H2.PoolInvariant

/-!
# The sections of the lane pool

What opens, prunes, drops, caches, tracks and takes the lanes keeps the invariant.
-/

namespace TgWsProxy.H2

open TgWsProxy.Core

namespace CfH2Pool

variable {s : CfH2Pool} {l c : Nat} {loose : List Nat}

/-- A channel that opens is registered with its lane. -/
theorem lane_openChannel (s : CfH2Pool) (l k : Nat) :
    (s.openChannel l).lane k = if l = k ∧ k < s.lanes.length then
      { s.lane k with
        channels := (s.lane k).channels ++ [s.channels.length], lastUsed := s.now }
      else s.lane k :=
  lane_modifyLane _ l k _

/-- A channel that opens is a new one; the others stay. -/
theorem channel_openChannel (s : CfH2Pool) (l c : Nat) :
    (s.openChannel l).channel c =
      if c = s.channels.length then ⟨l, true, 0, none⟩ else s.channel c := by
  have happend : ∀ x : PooledChannel, (s.channels ++ [x])[c]? =
      if c = s.channels.length then some x else s.channels[c]? := by
    intro x
    rw [List.getElem?_append]
    split
    · next hlt => rw [if_neg (Nat.ne_of_lt hlt)]
    · next hge =>
      by_cases hc : c = s.channels.length
      · simp [hc]
      · have hgt : s.channels.length < c := by omega
        rw [if_neg hc, List.getElem?_eq_none (by simp; omega), List.getElem?_eq_none hgt.le]
  rw [channel, openChannel, modifyLane, happend]
  split <;> rfl

/-- A channel opens on a lane that is not closed, while the pool is not being closed. -/
theorem Sound.openChannel (h : Sound loose s) (hslot : (s.lane l).slot = true)
    (hopen : (s.lane l).closed = false) (hpool : s.setup = none ∨ s.closed = false) :
    Sound loose (s.openChannel l) := by
  have hlane : ∀ k, (s.openChannel l).lane k =
      { s.lane k with
        channels := ((s.openChannel l).lane k).channels
        lastUsed := ((s.openChannel l).lane k).lastUsed } := by
    intro k
    rw [lane_openChannel]
    split <;> rfl
  have hs : ∀ k, ((s.openChannel l).lane k).slot = (s.lane k).slot := fun k => by rw [hlane]
  have hc : ∀ k, ((s.openChannel l).lane k).closed = (s.lane k).closed := fun k => by rw [hlane]
  refine ⟨?_, h.hosts, h.lanes, fun k hk => ?_, fun k hk => ?_, fun k hk => ?_, fun k hk => ?_,
    fun k hk => ?_, fun c ha => ?_, fun c ha ho => ?_, fun c ha ho => ?_, fun c ha => ?_,
    h.announced, fun stage hst => ?_⟩
  · have hkept : (s.openChannel l).slots = s.slots := slots_modifyLane _ l fun _ => rfl
    rw [hkept]
    exact h.slots
  · rw [hc]
    exact h.cached k hk
  · rw [hs]
    exact h.tracked k hk
  · rw [hs]
    exact h.held k hk
  · rw [hlane] at hk
    rw [hs]
    exact h.cloned k hk
  · rw [hs] at hk
    rw [hc]
    exact h.placed k hk
  · rw [channel_openChannel] at ha ⊢
    rw [hs]
    split at ha
    · next heq => simpa [heq] using hslot
    · next hne => simpa [hne] using h.live c ha
  · rw [hc] at ho
    rw [channel_openChannel] at ha ho ⊢
    split at ha
    · next heq =>
      rw [if_pos heq, lane_openChannel, if_pos ⟨rfl, lt_of_slot hslot⟩, heq]
      exact List.mem_append_right _ (List.mem_singleton_self _)
    · next hne =>
      rw [if_neg hne] at ho ⊢
      have hmem := h.registered c ha ho
      rw [lane_openChannel]
      split
      · exact List.mem_append_left _ hmem
      · exact hmem
  · rw [hc] at ho
    rw [channel_openChannel] at ha ho ⊢
    split at ha
    · next heq =>
      rw [if_pos heq, hopen] at ho
      exact absurd ho (by simp)
    · next hne =>
      rw [if_neg hne] at ho ⊢
      exact h.failed c ha ho
  · rw [channel_openChannel] at ha ⊢
    split at ha
    · exact absurd ha (by simp)
    · next hne =>
      rw [if_neg hne]
      exact h.disowned c ha
  · have hsetup : s.setup = some stage := hst
    have hpool' : s.closed = false := hpool.resolve_left (by simp [hsetup])
    have hp := h.proper stage hsetup
    cases stage with
    | settling _ e | draining _ e => exact ⟨hp.1, (hc e).trans hp.2⟩
    | preflight _ k _ => exact ⟨hp.1, hp.2.1, hp.2.2.1, (hc k).trans hp.2.2.2⟩
    | caching _ k ch =>
      obtain ⟨hhost, hvalue, htracked, hkopen, hch, hkept⟩ := hp
      refine ⟨hhost, hvalue, htracked, (hc k).trans hkopen, ?_, ?_⟩
      · simp only [CfH2Pool.openChannel, CfH2Pool.modifyLane, List.length_append]
        omega
      · rw [channel_openChannel, if_neg hch.ne]
        exact hkept
    | closing _ _ =>
      have hclosed := hp.closed
      rw [hpool'] at hclosed
      exact absurd hclosed (by simp)
    | taking =>
      simp only [Proper] at hp
      rw [hpool'] at hp
      exact absurd hp (by simp)
    | looking _ | evicting _ | cacheSettling _ _ _ | cacheDraining _ _ _ => exact hp

/-- Pruning keeps every lane that is not closed. -/
theorem mem_pruneTrackedLanes (hl : l ∈ s.allLanes) (hopen : (s.lane l).closed = false) :
    l ∈ s.pruneTrackedLanes.allLanes := by
  rw [pruneTrackedLanes, List.mem_filter]
  exact ⟨hl, by simp [reapIfQuiescent, hopen]⟩

/-- Pruning keeps the invariant. -/
theorem Sound.pruneTrackedLanes (h : Sound loose s) : Sound loose s.pruneTrackedLanes := by
  refine ⟨h.slots, h.hosts, h.lanes, fun l hl => ?_, fun l hl => ?_, h.held, h.cloned, h.placed,
    h.live, h.registered, h.failed, h.disowned, h.announced, fun stage hst => ?_⟩
  · obtain ⟨hmem, hopen⟩ := h.cached l hl
    exact ⟨mem_pruneTrackedLanes hmem hopen, hopen⟩
  · exact h.tracked l (List.mem_of_mem_filter hl)
  · have hp := h.proper stage hst
    cases stage with
    | preflight _ k _ =>
      exact ⟨hp.1, hp.2.1, mem_pruneTrackedLanes hp.2.2.1 hp.2.2.2, hp.2.2.2⟩
    | caching _ k _ =>
      obtain ⟨hhost, hvalue, htracked, hopen, hrest⟩ := hp
      exact ⟨hhost, hvalue, mem_pruneTrackedLanes htracked hopen, hopen, hrest⟩
    | closing _ _ => exact ⟨hp.closed, hp.cache, hp.lanes, hp.channels⟩
    | looking _ | evicting _ | settling _ _ | draining _ _ | cacheSettling _ _ _
    | cacheDraining _ _ _ | taking => exact hp

/-- A lane with a slot and a reference is not dropped. -/
theorem slot_dropLanes (hslot : (s.lane l).slot = true) (href : 0 < s.strongCount l) :
    (s.dropLanes.lane l).slot = true := by
  simp [lane_dropLanes, hslot, href]

/-- Dropping what nothing refers to keeps the invariant. -/
theorem Sound.dropLanes (h : Sound loose s) : Sound loose s.dropLanes := by
  have hlane : ∀ k, s.dropLanes.lane k = { s.lane k with slot := (s.dropLanes.lane k).slot } := by
    intro k
    rw [lane_dropLanes]
  have hc : ∀ k, (s.dropLanes.lane k).closed = (s.lane k).closed := fun k => by rw [hlane]
  have hs : ∀ k, (s.dropLanes.lane k).slot = true → (s.lane k).slot = true := by
    intro k hk
    simp only [lane_dropLanes, Bool.and_eq_true] at hk
    exact hk.1
  refine ⟨?_, h.hosts, h.lanes, fun k hk => ?_, fun k hk => ?_, fun k hk => ?_, fun k hk => ?_,
    fun k hk => ?_, fun c ha => ?_, fun c ha ho => ?_, fun c ha ho => ?_, h.disowned,
    h.announced, fun stage hst => ?_⟩
  · rw [laneSlots_dropLanes]
    exact h.slots
  · rw [hc]
    exact h.cached k hk
  · exact slot_dropLanes (h.tracked k hk) (strongCount_pos.mpr (Or.inr (Or.inl hk)))
  · exact slot_dropLanes (h.held k hk) (strongCount_pos.mpr (Or.inr (Or.inr (Or.inl hk))))
  · rw [hlane] at hk
    exact slot_dropLanes (h.cloned k hk)
      (strongCount_pos.mpr (Or.inr (Or.inr (Or.inr (Or.inr hk)))))
  · rw [hc]
    exact h.placed k (hs k hk)
  · exact slot_dropLanes (h.live c ha)
      (strongCount_pos.mpr (Or.inr (Or.inr (Or.inr (Or.inl ⟨c, ha, rfl⟩)))))
  · rw [hlane] at ho ⊢
    exact h.registered c ha ho
  · rw [hlane] at ho
    exact h.failed c ha ho
  · have hp := h.proper stage hst
    cases stage with
    | settling _ _ | draining _ _ | preflight _ _ _ | caching _ _ _ =>
      simp only [Proper, hc] at hp ⊢
      exact hp
    | closing _ _ =>
      refine ⟨hp.closed, hp.cache, fun k hk => ?_, hp.channels⟩
      rw [hc]
      exact hp.lanes k (hs k hk)
    | looking _ | evicting _ | cacheSettling _ _ _ | cacheDraining _ _ _ | taking => exact hp

/-- The lane under a cached host stands in the cache only there. -/
theorem Sound.lane_notMem_uncache (h : Sound loose s) {host : String} {e : Nat}
    (he : (host, e) ∈ s.cache) : e ∉ (s.uncache host).cache.map (·.2) := by
  intro hmem
  obtain ⟨x, hx, rfl⟩ := List.mem_map.mp hmem
  obtain ⟨hx, hne⟩ := List.mem_filter.mp hx
  have hhost := congrArg Prod.fst (List.inj_on_of_nodup_map h.lanes hx he rfl)
  simp only [decide_eq_true_eq] at hne
  exact hne hhost

/-- Uncaching only removes entries. -/
theorem uncache_sublist (s : CfH2Pool) (host : String) : (s.uncache host).cache.Sublist s.cache :=
  List.filter_sublist

/-- Removing a lane from the cache leaves it loose. -/
theorem Sound.uncache (h : Sound loose s) {host : String} {e : Nat}
    (he : (host, e) ∈ s.cache) : Sound (e :: loose) (s.uncache host) := by
  have hsub := s.uncache_sublist host
  have hkeys := hsub.map (·.1)
  have hvalues := hsub.map (·.2)
  refine ⟨h.slots, hkeys.nodup h.hosts, hvalues.nodup h.lanes,
    fun l hl => h.cached l (hvalues.subset hl), h.tracked, h.held, h.cloned, fun l hl => ?_,
    h.live, h.registered, h.failed, h.disowned, h.announced, fun stage hst => ?_⟩
  · rcases h.placed l hl with hclosed | hvalue | hguarded | hloose
    · exact Or.inl hclosed
    · obtain ⟨x, hx, rfl⟩ := List.mem_map.mp hvalue
      by_cases hhost : x.1 = host
      · have heq := List.inj_on_of_nodup_map h.hosts hx he hhost
        exact Or.inr (Or.inr (Or.inr (by simp [heq])))
      · have hkept : x ∈ (s.uncache host).cache := List.mem_filter.mpr ⟨hx, by simp [hhost]⟩
        exact Or.inr (Or.inl (List.mem_map_of_mem hkept))
    · exact Or.inr (Or.inr (Or.inl hguarded))
    · exact Or.inr (Or.inr (Or.inr (List.mem_cons_of_mem _ hloose)))
  · have hp := h.proper stage hst
    cases stage with
    | evicting _ => exact fun hmem => hp (hkeys.subset hmem)
    | settling _ _ | draining _ _ => exact ⟨fun hmem => hp.1 (hkeys.subset hmem), hp.2⟩
    | preflight _ _ _ | caching _ _ _ =>
      exact ⟨fun hmem => hp.1 (hkeys.subset hmem), fun hmem => hp.2.1 (hvalues.subset hmem),
        hp.2.2⟩
    | closing _ _ =>
      rw [hp.cache] at he
      cases he
    | looking _ | cacheSettling _ _ _ | cacheDraining _ _ _ | taking => exact hp

/-- A tracked open lane goes into the cache under a new host. -/
theorem Sound.insertCached (h : Sound (l :: loose) s) {host : String} (hsetup : s.setup = none)
    (hhost : host ∉ s.cache.map (·.1)) (hvalue : l ∉ s.cache.map (·.2)) (htracked : l ∈ s.allLanes)
    (hopen : (s.lane l).closed = false) : Sound loose (s.insertCached host l) := by
  have hcache : (s.insertCached host l).cache = (host, l) :: s.cache := by
    have hkept : s.cache.filter (·.1 ≠ host) = s.cache := by
      rw [List.filter_eq_self]
      intro x hx
      have hne : x.1 ≠ host := fun heq => hhost (heq ▸ List.mem_map_of_mem hx)
      simpa using hne
    rw [CfH2Pool.insertCached, hkept]
  have hvalues : (s.insertCached host l).cache.map (·.2) = l :: s.cache.map (·.2) := by
    rw [hcache, List.map_cons]
  refine ⟨h.slots, ?_, ?_, fun k hk => ?_, h.tracked, h.held, h.cloned, fun k hk => ?_,
    h.live, h.registered, h.failed, h.disowned, h.announced, fun stage hst => ?_⟩
  · rw [hcache, List.map_cons]
    exact List.nodup_cons.mpr ⟨hhost, h.hosts⟩
  · rw [hvalues]
    exact List.nodup_cons.mpr ⟨hvalue, h.lanes⟩
  · rw [hvalues] at hk
    rcases List.mem_cons.mp hk with rfl | hk
    · exact ⟨htracked, hopen⟩
    · exact h.cached k hk
  · rw [hvalues]
    rcases h.placed k hk with hclosed | hmem | hguarded | hloose
    · exact Or.inl hclosed
    · exact Or.inr (Or.inl (List.mem_cons_of_mem _ hmem))
    · exact Or.inr (Or.inr (Or.inl hguarded))
    · rcases List.mem_cons.mp hloose with rfl | hloose
      · exact Or.inr (Or.inl (List.mem_cons_self ..))
      · exact Or.inr (Or.inr (Or.inr hloose))
  · have hst' : s.setup = some stage := hst
    rw [hsetup] at hst'
    cases hst'

/-- Cached lanes hold slots. -/
theorem Sound.cached_slot (h : Sound loose s) (hl : l ∈ s.cache.map (·.2)) :
    (s.lane l).slot = true := h.tracked l (h.cached l hl).1

/-- Lanes with slots are no more than slots. -/
theorem Sound.length_le_slots (h : Sound loose s) {ls : List Nat} (hnodup : ls.Nodup)
    (hslot : ∀ l ∈ ls, (s.lane l).slot = true) : ls.length ≤ maxLiveLanes := by
  have hsub : ls ⊆ (List.range s.lanes.length).filter fun l => (s.lane l).slot := by
    intro l hl
    rw [List.mem_filter, List.mem_range]
    exact ⟨lt_of_slot (hslot l hl), hslot l hl⟩
  have hcount : ((List.range s.lanes.length).filter fun l => (s.lane l).slot).length =
      s.slots := by
    have hlanes : s.lanes = (List.range s.lanes.length).map s.lane := by
      apply List.ext_getElem (by simp)
      intro i hi _
      simp [lane, hi]
    rw [CfH2Pool.slots, ← List.countP_eq_length_filter]
    conv_rhs => rw [hlanes, List.countP_map]
    rfl
  have hle := (List.subperm_of_subset hnodup hsub).length_le
  have hslots := h.slots
  omega

/-- A lane that is added is a new one; the others stay. -/
theorem lane_addLane (s : CfH2Pool) (host : String) (k : Nat) :
    (s.addLane host).lane k =
      if k = s.lanes.length then { host, slot := true, lastUsed := s.now } else s.lane k := by
  rcases lt_trichotomy k s.lanes.length with hlt | heq | hgt
  · simp [lane, addLane, List.getElem?_append_left hlt, hlt.ne]
  · simp [lane, addLane, heq]
  · have hnone : s.lanes[k]? = none := List.getElem?_eq_none hgt.le
    have hnone' : (s.lanes ++ [({ host, slot := true, lastUsed := s.now } : PooledLane)])[k]? =
        none := List.getElem?_eq_none (by simp; omega)
    rw [lane, lane, addLane, hnone, hnone', if_neg hgt.ne']

/-- A new lane is loose until it is guarded. -/
theorem Sound.addLane (h : Sound loose s) {host : String} (hfree : 0 < s.laneSlots)
    (hsetup : s.setup.elim True fun stage => stage = .looking host) :
    Sound (s.lanes.length :: loose) (s.addLane host) := by
  have hkeep : ∀ k, (s.lane k).slot = true → (s.addLane host).lane k = s.lane k := by
    intro k hk
    rw [lane_addLane, if_neg (lt_of_slot hk).ne]
  refine ⟨?_, h.hosts, h.lanes, fun k hk => ?_, fun k hk => ?_, fun k hk => ?_, fun k hk => ?_,
    fun k hk => ?_, fun c ha => ?_, fun c ha ho => ?_, fun c ha ho => ?_, h.disowned,
    h.announced, fun stage hst => ?_⟩
  · have hslots : (s.addLane host).slots = s.slots + 1 := by
      simp [CfH2Pool.slots, CfH2Pool.addLane]
    have hle := h.slots
    have hlane : (s.addLane host).laneSlots = s.laneSlots - 1 := rfl
    omega
  · rw [hkeep k (h.cached_slot hk)]
    exact h.cached k hk
  · rw [hkeep k (h.tracked k hk)]
    exact h.tracked k hk
  · have hslot := h.held k hk
    rw [hkeep k hslot]
    exact hslot
  · rw [lane_addLane] at hk ⊢
    split at hk
    · exact absurd hk (Nat.lt_irrefl 0)
    · next hne =>
      rw [if_neg hne]
      exact h.cloned k hk
  · rw [lane_addLane] at hk ⊢
    split at hk
    · next heq => exact Or.inr (Or.inr (Or.inr (heq ▸ List.mem_cons_self ..)))
    · next hne =>
      rw [if_neg hne]
      exact (h.placed k hk).imp_right (Or.imp_right (Or.imp_right (List.mem_cons_of_mem _)))
  · have hslot := h.live c ha
    exact (congrArg PooledLane.slot (hkeep _ hslot)).trans hslot
  · have hlane := hkeep _ (h.live c ha)
    have hopen := (congrArg PooledLane.closed hlane).symm.trans ho
    have hmem := h.registered c ha hopen
    exact (congrArg PooledLane.channels hlane) ▸ hmem
  · have hlane := hkeep _ (h.live c ha)
    exact h.failed c ha ((congrArg PooledLane.closed hlane).symm.trans ho)
  · have hst' : s.setup = some stage := hst
    rw [hst'] at hsetup
    have hlooking : stage = .looking host := hsetup
    rw [hlooking]
    trivial

/-- Tracking changes the list of all lanes only. -/
theorem trackLane_eq (s : CfH2Pool) (l : Nat) :
    s.trackLane l = { s with allLanes := (s.trackLane l).allLanes } := by
  rw [trackLane]
  split <;> rfl

/-- After `track_lane` the lane is tracked, and so is every lane that is not closed. -/
theorem Sound.trackLane (h : Sound loose s) (hslot : (s.lane l).slot = true) :
    Sound loose (s.trackLane l) ∧ l ∈ (s.trackLane l).allLanes := by
  have hprune := h.pruneTrackedLanes
  rw [CfH2Pool.trackLane]
  split
  · next hl => exact ⟨hprune, hl⟩
  · refine ⟨⟨hprune.slots, hprune.hosts, hprune.lanes, fun k hk => ?_, fun k hk => ?_, hprune.held,
      hprune.cloned, hprune.placed, hprune.live, hprune.registered, hprune.failed,
      hprune.disowned, hprune.announced, fun stage hst => ?_⟩,
        List.mem_append_right _ (List.mem_singleton_self l)⟩
    · obtain ⟨hmem, hopen⟩ := hprune.cached k hk
      exact ⟨List.mem_append_left _ hmem, hopen⟩
    · rcases List.mem_append.mp hk with hk | hk
      · exact hprune.tracked k hk
      · rw [List.mem_singleton.mp hk]
        exact hslot
    · have hp := hprune.proper stage hst
      cases stage with
      | preflight _ _ _ | caching _ _ _ =>
        exact ⟨hp.1, hp.2.1, List.mem_append_left _ hp.2.2.1, hp.2.2.2⟩
      | closing _ _ => exact ⟨hp.closed, hp.cache, hp.lanes, hp.channels⟩
      | looking _ | evicting _ | settling _ _ | draining _ _ | cacheSettling _ _ _
      | cacheDraining _ _ _ | taking => exact hp

/-- A call that leaves the lock keeps the invariant. -/
theorem Sound.leave (h : Sound loose s) (hguarded : s.setup.bind Setup.guarded = none)
    (event : PoolEvent) : Sound loose (s.leave event) := by
  have hfree : Sound loose { s with setup := none } := by
    apply h.withSetup (List.forall_mem_nil _)
    · intro l hl
      rw [hguarded] at hl
      exact hl
    · intro stage hst
      cases hst
  exact hfree.congr id rfl rfl rfl rfl rfl rfl Or.inl

/-- The guarded lane is loose once the holder has returned. -/
theorem Sound.unguard (h : Sound loose s) (hguarded : s.setup.bind Setup.guarded = some l) :
    Sound (l :: loose) { s with setup := none } := by
  apply h.withSetup (List.forall_mem_nil _)
  · intro k hk
    rw [hguarded] at hk
    refine Or.inr (hk.elim (fun heq => ?_) (List.mem_cons_of_mem _))
    rw [← Option.some.inj heq]
    exact List.mem_cons_self ..
  · intro stage hst
    cases hst

/-- A lane that opens takes a free slot. -/
theorem Sound.openLane (h : Sound [] s) {host : String} (hfree : 0 < s.laneSlots)
    (hsetup : s.setup.elim True fun stage => stage = .looking host)
    (hhost : host ∉ s.cache.map (·.1)) : Sound [] (s.openLane host) := by
  have hguarded : s.setup.bind Setup.guarded = none := by
    cases hst : s.setup with
    | none => rfl
    | some stage =>
      rw [hst] at hsetup
      have hlooking : stage = .looking host := hsetup
      rw [hlooking]
      rfl
  rw [CfH2Pool.openLane]
  split
  · exact h.leave hguarded _
  · have hslot : ((s.addLane host).lane s.lanes.length).slot = true := by
      rw [lane_addLane, if_pos rfl]
    have hopen : ((s.addLane host).lane s.lanes.length).closed = false := by
      rw [lane_addLane, if_pos rfl]
    obtain ⟨htracked, hmem⟩ := (h.addLane hfree hsetup).trackLane hslot
    have hlane : ∀ k, ((s.addLane host).trackLane s.lanes.length).lane k =
        (s.addLane host).lane k := fun k => by rw [trackLane_eq]; rfl
    have hcache : ((s.addLane host).trackLane s.lanes.length).cache = s.cache := by
      rw [trackLane_eq]
      rfl
    apply htracked.withSetup
    · intro k hk
      have hk' : k = s.lanes.length := by simpa [Setup.arcs] using hk
      rw [hlane, hk']
      exact hslot
    · intro k hk
      have hsame : ((s.addLane host).trackLane s.lanes.length).setup = s.setup := by
        rw [trackLane_eq]
        rfl
      rw [hsame, hguarded] at hk
      have hk' : k = s.lanes.length := by simpa using hk
      exact Or.inl (congrArg some hk'.symm)
    · intro stage hst
      cases hst
      refine ⟨by rwa [hcache], fun hvalue => ?_, hmem, (hlane _).symm ▸ hopen⟩
      rw [hcache] at hvalue
      exact Nat.lt_irrefl _ (lt_of_slot (h.cached_slot hvalue))

/-- With nothing cached, guarded or loose, closing the pool shuts everything. -/
theorem Sound.shut (h : Sound [] s) (hclosed : s.closed = true) (hcache : s.cache = [])
    (hguarded : s.setup.bind Setup.guarded = none) : s.Shut := by
  have hlanes : ∀ l, (s.lane l).slot = true → (s.lane l).closed = true := by
    intro l hl
    rcases h.placed l hl with hclosed | hvalue | hset | hloose
    · exact hclosed
    · rw [hcache] at hvalue
      cases hvalue
    · rw [hguarded] at hset
      cases hset
    · cases hloose
  refine ⟨hclosed, hcache, hlanes, fun c => ?_⟩
  by_cases ha : (s.channel c).alive = true
  · exact h.failed c ha (hlanes _ (h.live c ha))
  · apply h.disowned c
    by_contra howned
    rw [Bool.not_eq_false] at howned
    exact ha (by simp [PooledChannel.alive, howned])

/-- `start_close` gives back no slot. -/
theorem slot_startClose (s : CfH2Pool) (l k : Nat) :
    ((s.startClose l).lane k).slot = (s.lane k).slot := by
  have habort : ((s.abort l).lane k).slot = (s.lane k).slot := by rw [lane_abort_eq]
  rw [startClose, lane_modifyLane]
  split <;> exact habort

/-- Closing the lanes of a list with nothing cached or in setup. -/
theorem Sound.foldl_startClose {held : List Nat} (h : Sound (held ++ loose) s)
    (hcache : s.cache = []) (hsetup : s.setup = none) :
    Sound loose (held.foldl CfH2Pool.startClose s) := by
  induction held generalizing s with
  | nil => exact h
  | cons l held ih =>
    have hclose : Sound (held ++ loose) (s.startClose l) := by
      apply h.startClose
      · simp [hcache]
      · simp [hsetup]
    exact ih hclose hcache hsetup

private theorem foldl_startClose_eq (held : List Nat) (s : CfH2Pool) (setup : Option Setup) :
    held.foldl startClose { s with setup := setup } =
      { held.foldl startClose s with setup := setup } := by
  induction held generalizing s with
  | nil => rfl
  | cons l held ih => exact ih (s.startClose l)

/-- Closing lanes touches neither cache, setup nor slots. -/
theorem foldl_startClose_frame (held : List Nat) (s : CfH2Pool) :
    (held.foldl startClose s).cache = s.cache ∧ (held.foldl startClose s).closed = s.closed ∧
      (held.foldl startClose s).setup = s.setup ∧
      ∀ k, ((held.foldl startClose s).lane k).slot = (s.lane k).slot := by
  induction held generalizing s with
  | nil => exact ⟨rfl, rfl, rfl, fun _ => rfl⟩
  | cons l held ih =>
    obtain ⟨hcache, hclosed, hsetup, hslot⟩ := ih (s.startClose l)
    exact ⟨hcache, hclosed, hsetup, fun k => (hslot k).trans (slot_startClose s l k)⟩

/-- The locked section of `close` shuts the pool. -/
theorem Sound.takeLanes (h : Sound [] s) (hsetup : s.setup = some .taking)
    (hclosed : s.closed = true) : Sound [] s.takeLanes := by
  let held := s.cache.map (·.2) ++ s.allLanes.filter (· ∉ s.cache.map (·.2))
  let emptied : CfH2Pool := { s with cache := [], allLanes := [], setup := none }
  have hempty : Sound (held ++ []) emptied := by
    refine ⟨h.slots, List.nodup_nil, List.nodup_nil, List.forall_mem_nil _, List.forall_mem_nil _,
      List.forall_mem_nil _, h.cloned, fun l hl => ?_, h.live, h.registered, h.failed,
      h.disowned, h.announced, fun stage hst => nomatch hst⟩
    rcases h.placed l hl with hc | hvalue | hguarded | hloose
    · exact Or.inl hc
    · have hmem : l ∈ held := List.mem_append_left _ hvalue
      exact Or.inr (Or.inr (Or.inr (List.mem_append_left _ hmem)))
    · rw [hsetup] at hguarded
      cases hguarded
    · cases hloose
  have hheld : ∀ l ∈ held, (s.lane l).slot = true := by
    intro l hl
    rcases List.mem_append.mp hl with hl | hl
    · exact h.cached_slot hl
    · exact h.tracked l (List.mem_of_mem_filter hl)
  obtain ⟨hcache', hclosed', hsetup', hslot'⟩ := foldl_startClose_frame held emptied
  have hsound : Sound [] (held.foldl CfH2Pool.startClose emptied) := hempty.foldl_startClose rfl rfl
  have hshut : (held.foldl CfH2Pool.startClose emptied).Shut := by
    apply hsound.shut (hclosed'.trans hclosed) hcache'
    rw [hsetup']
    rfl
  have heq : s.takeLanes =
      { held.foldl CfH2Pool.startClose emptied with setup := some (.closing held held) } :=
    foldl_startClose_eq held emptied _
  rw [heq]
  apply hsound.withSetup
  · intro l hl
    rw [hslot']
    exact hheld l hl
  · intro l hl
    rw [hsetup'] at hl
    exact Or.inr (hl.resolve_left (by simp [emptied]))
  · intro stage hst
    cases hst
    exact hshut

end CfH2Pool

end TgWsProxy.H2
