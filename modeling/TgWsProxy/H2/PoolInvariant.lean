import Mathlib.Data.List.Perm.Subperm
import TgWsProxy.H2.Pool

/-!
# The invariant of the lane pool

One invariant, `Sound`, ties slots, cache, tracked list, references and channels
together. Between the sections of one step a lane may be neither cached nor guarded
although it is open; such lanes are listed as `loose`, and closing one removes it.
-/

namespace TgWsProxy.H2

open TgWsProxy.Core

namespace CfH2Pool

variable {s t : CfH2Pool} {l c : Nat} {loose : List Nat}

/-! ## Looking up lanes and channels -/

/-- Changing one lane leaves the others. -/
theorem lane_modifyLane (s : CfH2Pool) (l k : Nat) (f : PooledLane → PooledLane) :
    (s.modifyLane l f).lane k =
      if l = k ∧ k < s.lanes.length then f (s.lane k) else s.lane k := by
  simp only [lane, modifyLane, List.getElem?_modify]
  by_cases hlk : l = k
  · by_cases hk : k < s.lanes.length
    · simp [hlk, hk]
    · simp [hk]
  · simp [hlk]

/-- Changing one channel leaves the others. -/
theorem channel_modifyChannel (s : CfH2Pool) (c k : Nat) (f : PooledChannel → PooledChannel) :
    (s.modifyChannel c f).channel k =
      if c = k ∧ k < s.channels.length then f (s.channel k) else s.channel k := by
  simp only [channel, modifyChannel, List.getElem?_modify]
  by_cases hck : c = k
  · by_cases hk : k < s.channels.length
    · simp [hck, hk]
    · simp [hk]
  · simp [hck]

/-- A lane that holds a slot is one of the pool. -/
theorem lt_of_slot (h : (s.lane l).slot = true) : l < s.lanes.length := by
  by_contra hl
  simp [lane, List.getElem?_eq_none (not_lt.mp hl)] at h

private theorem lt_of_alive (h : (s.channel c).alive = true) : c < s.channels.length := by
  by_contra hc
  simp [channel, List.getElem?_eq_none (not_lt.mp hc), PooledChannel.alive] at h

/-- An abort closes the one lane. -/
theorem lane_abort (s : CfH2Pool) (l k : Nat) :
    (s.abort l).lane k =
      if l = k ∧ k < s.lanes.length then { s.lane k with closed := true } else s.lane k :=
  s.lane_modifyLane l k _

/-- An abort fails the live channels of the lane. -/
theorem channel_abort (s : CfH2Pool) (l c : Nat) :
    (s.abort l).channel c =
      if (s.channel c).alive = true ∧ c ∈ (s.lane l).channels then
        (s.channel c).fail (.error .notConnected "H2 pool closed")
      else s.channel c := by
  by_cases hc : c < s.channels.length
  · simp [channel, abort, hc]
  · simp [channel, abort, hc, PooledChannel.alive]

/-- Aborting changes no more of a lane than that it is closed. -/
theorem lane_abort_eq (s : CfH2Pool) (l k : Nat) :
    (s.abort l).lane k = { s.lane k with closed := ((s.abort l).lane k).closed } := by
  rw [lane_abort]
  split <;> rfl

/-- A lane is closed once it is aborted. -/
theorem closed_abort (h : (s.lane l).slot = true) : ((s.abort l).lane l).closed = true := by
  rw [lane_abort, if_pos ⟨rfl, lt_of_slot h⟩]

/-- An abort closes no other lane. -/
theorem closed_abort_of_ne {k : Nat} (h : l ≠ k) :
    ((s.abort l).lane k).closed = (s.lane k).closed := by
  rw [lane_abort, if_neg fun hk => h hk.1]

@[simp] theorem alive_fail (ch : PooledChannel) (terminal : Terminal) :
    (ch.fail terminal).alive = ch.alive := rfl

@[simp] theorem isSome_terminal_fail (ch : PooledChannel) (terminal : Terminal) :
    (ch.fail terminal).terminal.isSome = true := by
  cases h : ch.terminal <;> simp [PooledChannel.fail, h]

/-- Aborting changes no more of a channel than its terminal. -/
theorem channel_abort_eq (s : CfH2Pool) (l c : Nat) :
    (s.abort l).channel c =
      { s.channel c with terminal := ((s.abort l).channel c).terminal } := by
  rw [channel_abort]
  split <;> rfl

/-- A channel that has failed has failed for good. -/
theorem failed_abort (h : (s.channel c).terminal.isSome = true) :
    ((s.abort l).channel c).terminal.isSome = true := by
  rw [channel_abort]
  split
  · exact isSome_terminal_fail ..
  · exact h

/-! ## References and slots -/

private theorem map_modify_eq {α β : Type*} (xs : List α) (i : Nat) (f : α → α) (g : α → β)
    (h : ∀ x, g (f x) = g x) : (xs.modify i f).map g = xs.map g := by
  apply List.ext_getElem?
  intro j
  rw [List.getElem?_map, List.getElem?_map, List.getElem?_modify]
  by_cases hj : i = j
  · cases xs[j]? <;> simp [hj, h]
  · simp [hj]

private theorem slots_eq_count (s : CfH2Pool) : s.slots = (s.lanes.map (·.slot)).count true := by
  rw [slots, List.count, List.countP_map]
  congr 1
  ext lane
  simp

/-- A change that keeps the slot of a lane keeps their number. -/
theorem slots_modifyLane (s : CfH2Pool) (l : Nat) {f : PooledLane → PooledLane}
    (h : ∀ lane, (f lane).slot = lane.slot) : (s.modifyLane l f).slots = s.slots := by
  rw [slots_eq_count, slots_eq_count, modifyLane, map_modify_eq _ _ _ _ h]

/-- A lane with a reference. -/
theorem strongCount_pos : 0 < s.strongCount l ↔
    l ∈ s.cache.map (·.2) ∨ l ∈ s.allLanes ∨ l ∈ s.setup.elim [] Setup.arcs ∨
      (∃ c, (s.channel c).alive = true ∧ (s.channel c).lane = l) ∨ 0 < (s.lane l).clones := by
  have hchannels : 0 < s.channels.countP (fun ch => ch.alive && ch.lane = l) ↔
      ∃ c, (s.channel c).alive = true ∧ (s.channel c).lane = l := by
    rw [List.countP_pos_iff]
    constructor
    · rintro ⟨ch, hmem, hch⟩
      obtain ⟨c, hc⟩ := List.mem_iff_getElem?.mp hmem
      exact ⟨c, by simpa [channel, hc] using hch⟩
    · rintro ⟨c, halive, hlane⟩
      have hc := lt_of_alive halive
      refine ⟨s.channels[c], List.getElem_mem hc, ?_⟩
      simpa [channel, hc] using And.intro halive hlane
  have hcache : 0 < s.cache.countP (·.2 = l) ↔ l ∈ s.cache.map (·.2) := by
    simp [List.countP_pos_iff]
  have htracked : 0 < s.allLanes.count l ↔ l ∈ s.allLanes := List.count_pos_iff
  have harcs : 0 < (s.setup.elim [] Setup.arcs).count l ↔ l ∈ s.setup.elim [] Setup.arcs :=
    List.count_pos_iff
  rw [← hchannels, ← hcache, ← htracked, ← harcs, strongCount]
  omega

/-- Dropping lanes takes the slot of those that nothing refers to. -/
theorem lane_dropLanes (s : CfH2Pool) (l : Nat) :
    s.dropLanes.lane l =
      { s.lane l with slot := (s.lane l).slot && decide (0 < s.strongCount l) } := by
  by_cases hl : l < s.lanes.length <;> simp [lane, dropLanes, hl]

/-- A slot is either given back or kept. -/
theorem countP_slot_split (q : Nat → Bool) (lanes : List PooledLane) (i : Nat) :
    (lanes.zipIdx i).countP (fun x => x.1.slot && !q x.2) +
      (lanes.zipIdx i).countP (fun x => x.1.slot && q x.2) = lanes.countP (·.slot) := by
  induction lanes generalizing i with
  | nil => rfl
  | cons lane lanes ih =>
    have htail := ih (i + 1)
    simp only [List.zipIdx_cons, List.countP_cons]
    cases lane.slot <;> cases q i <;> simp <;> omega

/-- A lane that is dropped gives back its slot. -/
theorem laneSlots_dropLanes (s : CfH2Pool) :
    s.dropLanes.laneSlots + s.dropLanes.slots = s.laneSlots + s.slots := by
  have hsplit := countP_slot_split (fun l => decide (0 < s.strongCount l)) s.lanes 0
  have hfree : ∀ l, decide (s.strongCount l = 0) = !decide (0 < s.strongCount l) := by
    intro l
    rw [← decide_not]
    exact decide_eq_decide.mpr (by omega)
  have hkept : s.dropLanes.slots =
      s.lanes.zipIdx.countP fun x => x.1.slot && decide (0 < s.strongCount x.2) := by
    rw [slots, dropLanes, List.mapIdx_eq_zipIdx_map, List.countP_map]
    rfl
  rw [hkept, slots, ← hsplit]
  simp only [dropLanes, hfree]
  omega

/-! ## The invariant -/

/-- Nothing is left open: every lane with a slot is closed and every channel has failed. -/
structure Shut (s : CfH2Pool) : Prop where
  closed : s.closed = true
  cache : s.cache = []
  lanes : ∀ l, (s.lane l).slot = true → (s.lane l).closed = true
  channels : ∀ c, (s.channel c).terminal.isSome = true

/-- What holds while the holder of `setup_lock` waits. The stages of `cache_lane` after an
eviction are never reached. -/
def Proper (s : CfH2Pool) : Setup → Prop
  | .looking _ => True
  | .evicting host => host ∉ s.cache.map (·.1)
  | .settling host e | .draining host e =>
    host ∉ s.cache.map (·.1) ∧ (s.lane e).closed = true
  | .preflight host l _ =>
    host ∉ s.cache.map (·.1) ∧ l ∉ s.cache.map (·.2) ∧ l ∈ s.allLanes ∧
      (s.lane l).closed = false
  | .caching host l c =>
    host ∉ s.cache.map (·.1) ∧ l ∉ s.cache.map (·.2) ∧ l ∈ s.allLanes ∧
      (s.lane l).closed = false ∧ c < s.channels.length ∧ (s.channel c).lane = l
  | .cacheSettling .. | .cacheDraining .. => False
  | .taking => s.closed = true
  | .closing _ _ => s.Shut

/-- The invariant of the pool, up to the loose lanes. -/
structure Sound (loose : List Nat) (s : CfH2Pool) : Prop where
  slots : s.laneSlots + s.slots = maxLiveLanes
  hosts : (s.cache.map (·.1)).Nodup
  lanes : (s.cache.map (·.2)).Nodup
  cached : ∀ l ∈ s.cache.map (·.2), l ∈ s.allLanes ∧ (s.lane l).closed = false
  tracked : ∀ l ∈ s.allLanes, (s.lane l).slot = true
  held : ∀ l ∈ s.setup.elim [] Setup.arcs, (s.lane l).slot = true
  cloned : ∀ l, 0 < (s.lane l).clones → (s.lane l).slot = true
  placed : ∀ l, (s.lane l).slot = true → (s.lane l).closed = true ∨ l ∈ s.cache.map (·.2) ∨
    s.setup.bind Setup.guarded = some l ∨ l ∈ loose
  live : ∀ c, (s.channel c).alive = true → (s.lane (s.channel c).lane).slot = true
  registered : ∀ c, (s.channel c).alive = true → (s.lane (s.channel c).lane).closed = false →
    c ∈ (s.lane (s.channel c).lane).channels
  failed : ∀ c, (s.channel c).alive = true → (s.lane (s.channel c).lane).closed = true →
    (s.channel c).terminal.isSome = true
  disowned : ∀ c, (s.channel c).owned = false → (s.channel c).terminal.isSome = true
  announced : .closing ∈ s.waiting → s.closed = true
  proper : ∀ stage, s.setup = some stage → s.Proper stage

/-- The invariant holds of an empty pool. -/
theorem Sound.initial : Sound [] ({} : CfH2Pool) where
  slots := rfl
  hosts := List.nodup_nil
  lanes := List.nodup_nil
  cached := List.forall_mem_nil _
  tracked := List.forall_mem_nil _
  held := List.forall_mem_nil _
  cloned := fun _ h => absurd h (Nat.lt_irrefl 0)
  placed := fun _ h => nomatch h
  live := fun _ h => nomatch h
  registered := fun _ h => nomatch h
  failed := fun _ h => nomatch h
  disowned := fun _ _ => rfl
  announced := fun h => nomatch h
  proper := fun _ h => nomatch h

/-- An update of a lane that keeps what the invariant reads. -/
theorem Sound.modifyLane (h : Sound loose s) {f : PooledLane → PooledLane}
    (hslot : ∀ lane, (f lane).slot = lane.slot) (hclosed : ∀ lane, (f lane).closed = lane.closed)
    (hchannels : (s.lane l).slot = true → (s.lane l).closed = false →
      (f (s.lane l)).channels = (s.lane l).channels)
    (hclones : 0 < (f (s.lane l)).clones → (s.lane l).slot = true) :
    Sound loose (s.modifyLane l f) := by
  have hs : ∀ k, ((s.modifyLane l f).lane k).slot = (s.lane k).slot := by
    intro k
    rw [lane_modifyLane]
    split <;> simp [hslot]
  have hc : ∀ k, ((s.modifyLane l f).lane k).closed = (s.lane k).closed := by
    intro k
    rw [lane_modifyLane]
    split <;> simp [hclosed]
  refine ⟨?_, h.hosts, h.lanes, fun k hk => ?_, fun k hk => ?_, fun k hk => ?_, fun k hk => ?_,
    fun k hk => ?_, fun c ha => ?_, fun c ha ho => ?_, fun c ha ho => ?_, h.disowned,
    h.announced, fun stage hst => ?_⟩
  · rw [slots_modifyLane _ _ hslot]
    exact h.slots
  · rw [hc]
    exact h.cached k hk
  · rw [hs]
    exact h.tracked k hk
  · rw [hs]
    exact h.held k hk
  · rw [lane_modifyLane] at hk
    rw [hs]
    split at hk
    · next hlk =>
      obtain ⟨rfl, -⟩ := hlk
      exact hclones hk
    · exact h.cloned k hk
  · rw [hs] at hk
    rw [hc]
    exact h.placed k hk
  · rw [hs]
    exact h.live c ha
  · rw [hc] at ho
    rw [lane_modifyLane]
    split
    · next hlk =>
      have hkept := hchannels (hlk.1 ▸ h.live c ha) (hlk.1 ▸ ho)
      rw [hlk.1] at hkept
      exact hkept ▸ h.registered c ha ho
    · exact h.registered c ha ho
  · rw [hc] at ho
    exact h.failed c ha ho
  · have hp := h.proper stage hst
    cases stage with
    | settling _ _ | draining _ _ | preflight _ _ _ | caching _ _ _ =>
      simp only [Proper, hc] at hp ⊢
      exact hp
    | closing _ _ =>
      refine ⟨hp.closed, hp.cache, fun k hk => ?_, hp.channels⟩
      rw [hs] at hk
      rw [hc]
      exact hp.lanes k hk
    | looking _ | evicting _ | cacheSettling _ _ _ | cacheDraining _ _ _ | taking => exact hp

/-- An update of a channel that neither revives it nor takes a failure back. -/
theorem Sound.modifyChannel (h : Sound loose s) {f : PooledChannel → PooledChannel}
    (hlane : ∀ ch, (f ch).lane = ch.lane)
    (halive : (f (s.channel c)).alive = true → (s.channel c).alive = true)
    (hfailed : ∀ ch, ch.terminal.isSome = true → (f ch).terminal.isSome = true)
    (howned : ∀ ch, (f ch).owned = false → ch.owned = true → (f ch).terminal.isSome = true) :
    Sound loose (s.modifyChannel c f) := by
  have hl : ∀ k, ((s.modifyChannel c f).channel k).lane = (s.channel k).lane := by
    intro k
    rw [channel_modifyChannel]
    split <;> simp [hlane]
  have ha : ∀ k, ((s.modifyChannel c f).channel k).alive = true → (s.channel k).alive = true := by
    intro k hk
    rw [channel_modifyChannel] at hk
    split at hk
    · next hck =>
      rw [← hck.1] at hk ⊢
      exact halive hk
    · exact hk
  have hf : ∀ k, (s.channel k).terminal.isSome = true →
      ((s.modifyChannel c f).channel k).terminal.isSome = true := by
    intro k hk
    rw [channel_modifyChannel]
    split
    · exact hfailed _ hk
    · exact hk
  refine ⟨h.slots, h.hosts, h.lanes, h.cached, h.tracked, h.held, h.cloned, h.placed,
    fun k hk => ?_, fun k hk ho => ?_, fun k hk ho => ?_, fun k hk => ?_, h.announced,
    fun stage hst => ?_⟩
  · rw [hl]
    exact h.live k (ha k hk)
  · rw [hl] at ho ⊢
    exact h.registered k (ha k hk) ho
  · rw [hl] at ho
    exact hf k (h.failed k (ha k hk) ho)
  · by_cases hown : (s.channel k).owned = false
    · exact hf k (h.disowned k hown)
    · rw [channel_modifyChannel] at hk ⊢
      split at hk
      · next hck =>
        rw [if_pos hck]
        exact howned _ hk (by simpa using hown)
      · exact absurd hk hown
  · have hp := h.proper stage hst
    cases stage with
    | caching host k ch =>
      obtain ⟨hhost, hvalue, htracked, hopen, hch, hkept⟩ := hp
      exact ⟨hhost, hvalue, htracked, hopen, by simpa [CfH2Pool.modifyChannel] using hch,
        (hl ch).trans hkept⟩
    | closing _ _ => exact ⟨hp.closed, hp.cache, hp.lanes, fun k => hf k (hp.channels k)⟩
    | looking _ | evicting _ | settling _ _ | draining _ _ | preflight _ _ _
    | cacheSettling _ _ _ | cacheDraining _ _ _ | taking => exact hp

/-- An abort gives back no slot. -/
theorem slots_abort (s : CfH2Pool) (l : Nat) : (s.abort l).slots = s.slots :=
  s.slots_modifyLane l fun _ => rfl

@[simp] theorem length_channels_abort (s : CfH2Pool) (l : Nat) :
    (s.abort l).channels.length = s.channels.length := by
  simp [abort]

/-- Closing a lane outside the cache and the setup: it is loose no longer. -/
theorem Sound.abort (h : Sound (l :: loose) s) (hcached : l ∉ s.cache.map (·.2))
    (hguarded : s.setup.bind Setup.guarded ≠ some l) : Sound loose (s.abort l) := by
  have hs : ∀ k, ((s.abort l).lane k).slot = (s.lane k).slot := fun k => by
    rw [lane_abort_eq]
  have hl : ∀ c, ((s.abort l).channel c).lane = (s.channel c).lane := fun c => by
    rw [channel_abort_eq]
  have ha : ∀ c, ((s.abort l).channel c).alive = (s.channel c).alive := fun c => by
    rw [channel_abort_eq]
    rfl
  refine ⟨?_, h.hosts, h.lanes, fun k hk => ?_, fun k hk => ?_, fun k hk => ?_, fun k hk => ?_,
    fun k hk => ?_, fun c hc => ?_, fun c hc ho => ?_, fun c hc ho => ?_, fun c hc => ?_,
    h.announced, fun stage hst => ?_⟩
  · rw [slots_abort]
    exact h.slots
  · have hne : l ≠ k := by
      rintro rfl
      exact hcached hk
    rw [closed_abort_of_ne hne]
    exact h.cached k hk
  · rw [hs]
    exact h.tracked k hk
  · rw [hs]
    exact h.held k hk
  · rw [lane_abort_eq] at hk
    rw [hs]
    exact h.cloned k hk
  · rw [hs] at hk
    by_cases hlk : l = k
    · subst hlk
      exact Or.inl (closed_abort hk)
    · rw [closed_abort_of_ne hlk]
      rcases h.placed k hk with hclosed | hvalue | hsetup | hloose
      · exact Or.inl hclosed
      · exact Or.inr (Or.inl hvalue)
      · exact Or.inr (Or.inr (Or.inl hsetup))
      · exact Or.inr (Or.inr (Or.inr ((List.mem_cons.mp hloose).resolve_left (Ne.symm hlk))))
  · rw [ha] at hc
    rw [hl, hs]
    exact h.live c hc
  · rw [ha] at hc
    rw [hl] at ho ⊢
    by_cases hlk : l = (s.channel c).lane
    · have hslot := h.live c hc
      rw [← hlk] at hslot ho
      rw [closed_abort hslot] at ho
      exact absurd ho (by simp)
    · rw [closed_abort_of_ne hlk] at ho
      rw [lane_abort_eq]
      exact h.registered c hc ho
  · rw [ha] at hc
    rw [hl] at ho
    cases hclosed : (s.lane (s.channel c).lane).closed with
    | true => exact failed_abort (h.failed c hc hclosed)
    | false =>
      by_cases hlk : l = (s.channel c).lane
      · have hmem := h.registered c hc hclosed
        rw [← hlk] at hmem
        rw [channel_abort, if_pos ⟨hc, hmem⟩]
        exact isSome_terminal_fail ..
      · rw [closed_abort_of_ne hlk, hclosed] at ho
        exact absurd ho (by simp)
  · have hown : (s.channel c).owned = false := by
      rw [channel_abort_eq] at hc
      exact hc
    exact failed_abort (h.disowned c hown)
  · have hp := h.proper stage hst
    have hsetup : s.setup = some stage := hst
    have hkeep : ∀ k, (s.lane k).closed = true → ((s.abort l).lane k).closed = true := by
      intro k hk
      rw [lane_abort]
      split
      · rfl
      · exact hk
    cases stage with
    | settling _ e | draining _ e => exact ⟨hp.1, hkeep e hp.2⟩
    | preflight _ k _ =>
      have hne : l ≠ k := by
        rintro rfl
        exact hguarded (by rw [hsetup]; rfl)
      exact ⟨hp.1, hp.2.1, hp.2.2.1, (closed_abort_of_ne hne).trans hp.2.2.2⟩
    | caching _ k ch =>
      obtain ⟨hhost, hvalue, htracked, hopen, hch, hlane⟩ := hp
      have hne : l ≠ k := by
        rintro rfl
        exact hguarded (by rw [hsetup]; rfl)
      exact ⟨hhost, hvalue, htracked, (closed_abort_of_ne hne).trans hopen,
        by simpa using hch, (hl ch).trans hlane⟩
    | closing _ _ =>
      refine ⟨hp.closed, hp.cache, fun k hk => ?_, fun c => failed_abort (hp.channels c)⟩
      rw [hs] at hk
      exact hkeep k (hp.lanes k hk)
    | looking _ | evicting _ | cacheSettling _ _ _ | cacheDraining _ _ _ | taking => exact hp

/-- What `start_close` closes is what `abort` closes. -/
theorem lane_startClose (s : CfH2Pool) (l k : Nat) :
    ((s.startClose l).lane k).closed = ((s.abort l).lane k).closed := by
  rw [startClose, lane_modifyLane]
  split <;> rfl

/-- `start_close` of a lane outside the cache and the setup. -/
theorem Sound.startClose (h : Sound (l :: loose) s) (hcached : l ∉ s.cache.map (·.2))
    (hguarded : s.setup.bind Setup.guarded ≠ some l) : Sound loose (s.startClose l) := by
  have habort := h.abort hcached hguarded
  refine habort.modifyLane (fun _ => rfl) (fun _ => rfl) (fun hslot hopen => ?_) (habort.cloned l)
  rw [lane_abort_eq] at hslot
  rw [closed_abort hslot] at hopen
  exact absurd hopen (by simp)

/-- What a waiting holder relies on is not touched by clocks, queues and logs. -/
theorem Proper.congr {stage : Setup} (h : s.Proper stage)
    (hclosed : s.closed = true → t.closed = true) (hcache : t.cache = s.cache)
    (htracked : t.allLanes = s.allLanes) (hlanes : t.lanes = s.lanes)
    (hchannels : t.channels = s.channels) : t.Proper stage := by
  have hl : ∀ l, t.lane l = s.lane l := fun l => by rw [lane, lane, hlanes]
  have hc : ∀ c, t.channel c = s.channel c := fun c => by rw [channel, channel, hchannels]
  cases stage with
  | closing _ _ =>
    exact ⟨hclosed h.closed, hcache.trans h.cache, fun l => by rw [hl]; exact h.lanes l,
      fun c => by rw [hc]; exact h.channels c⟩
  | taking => exact hclosed h
  | looking _ | cacheSettling _ _ _ | cacheDraining _ _ _ => exact h
  | evicting _ | settling _ _ | draining _ _ | preflight _ _ _ | caching _ _ _ =>
    simpa only [Proper, hl, hc, hcache, htracked, hchannels] using h

/-- The invariant depends on these fields only. -/
theorem Sound.congr (h : Sound loose s) (hclosed : s.closed = true → t.closed = true)
    (hcache : t.cache = s.cache) (htracked : t.allLanes = s.allLanes)
    (hslots : t.laneSlots = s.laneSlots) (hsetup : t.setup = s.setup) (hlanes : t.lanes = s.lanes)
    (hchannels : t.channels = s.channels)
    (hwaiting : .closing ∈ t.waiting → .closing ∈ s.waiting ∨ t.closed = true) :
    Sound loose t := by
  have hl : ∀ l, t.lane l = s.lane l := fun l => by rw [lane, lane, hlanes]
  have hc : ∀ c, t.channel c = s.channel c := fun c => by rw [channel, channel, hchannels]
  refine ⟨?_, ?_, ?_, ?_, ?_, ?_, ?_, ?_, ?_, ?_, ?_, ?_, fun hw => ?_, fun stage hst => ?_⟩
  · have hkept : t.slots = s.slots := by rw [CfH2Pool.slots, CfH2Pool.slots, hlanes]
    rw [hslots, hkept]
    exact h.slots
  · rw [hcache]
    exact h.hosts
  · rw [hcache]
    exact h.lanes
  · simpa only [hcache, htracked, hl] using h.cached
  · simpa only [htracked, hl] using h.tracked
  · simpa only [hsetup, hl] using h.held
  · simpa only [hl] using h.cloned
  · simpa only [hl, hcache, hsetup] using h.placed
  · simpa only [hl, hc] using h.live
  · simpa only [hl, hc] using h.registered
  · simpa only [hl, hc] using h.failed
  · simpa only [hc] using h.disowned
  · exact (hwaiting hw).elim (fun hs => hclosed (h.announced hs)) id
  · rw [hsetup] at hst
    exact (h.proper stage hst).congr hclosed hcache htracked hlanes hchannels

/-- Another stage for the holder of `setup_lock`. -/
theorem Sound.withSetup (h : Sound loose s) {loose' : List Nat} {setup : Option Setup}
    (hheld : ∀ l ∈ setup.elim [] Setup.arcs, (s.lane l).slot = true)
    (hguarded : ∀ l, s.setup.bind Setup.guarded = some l ∨ l ∈ loose →
      setup.bind Setup.guarded = some l ∨ l ∈ loose')
    (hproper : ∀ stage, setup = some stage → s.Proper stage) :
    Sound loose' { s with setup := setup } := by
  refine ⟨h.slots, h.hosts, h.lanes, h.cached, h.tracked, hheld, h.cloned, fun l hl => ?_,
    h.live, h.registered, h.failed, h.disowned, h.announced,
    fun stage hst => (hproper stage hst).congr id rfl rfl rfl rfl⟩
  rcases h.placed l hl with hclosed | hvalue | hopen
  · exact Or.inl hclosed
  · exact Or.inr (Or.inl hvalue)
  · exact Or.inr (Or.inr (hguarded l hopen))

/-- More loose lanes make the invariant weaker. -/
theorem Sound.mono (h : Sound loose s) {loose' : List Nat} (hsub : loose ⊆ loose') :
    Sound loose' s :=
  { h with placed := fun l hl => (h.placed l hl).imp_right (Or.imp_right (Or.imp_right (@hsub l))) }

end CfH2Pool

end TgWsProxy.H2
