import TgWsProxy.H2.Unmoved

/-!
# Requests, tasks and reservations

Which task serves which pending request, and which permits it holds. Most helpers do
not move any of this; `Unmoved` says so for one of them, and the steps that do move
requests are taken one at a time.
-/

namespace TgWsProxy.H2

open TgWsProxy.Core

variable {s s' : Process} {c d l i : Nat} {ch ch' : ChannelInner}
  {f : ChannelState → ChannelState}

/-! ## The invariant -/

/-- The permits of a request, one in each budget. -/
def requestPermits (channel lane bytes : Nat) : List BudgetPermit :=
  [⟨.channel channel, bytes⟩, ⟨.lane lane, bytes⟩, ⟨.requests, bytes⟩]

/-- A task is for a channel of its lane and holds the permits of its size. -/
structure RequestTask.Outfitted (s : Process) (t : RequestTask) : Prop where
  lane : t.lane < s.laneCount
  opened : t.guard.channel < s.channels.length
  same : ∀ ch, s.channel? t.guard.channel = some ch → ch.lane = t.lane
  permits : ∃ bytes, t.body.length ≤ bytes ∧
    t.guard.permits = requestPermits t.guard.channel t.lane bytes

/-- A reservation is for a live channel and holds the permits it has come to. -/
structure Reservation.Outfitted (s : Process) (r : Reservation) : Prop where
  permits : r.permits <+: requestPermits r.channel r.lane r.bytes
  alive : ∃ ch, s.channel? r.channel = some ch ∧ ch.lane = r.lane

/-- Channels, tasks, reservations and lanes belong together. -/
structure Wired (s : Process) : Prop where
  valid : ∀ c ch, s.channel? c = some ch → ch.state.Valid
  lane : ∀ c ch, s.channel? c = some ch → ch.lane < s.laneCount
  task : ∀ t ∈ s.tasks, t.Outfitted s
  reservation : ∀ r ∈ s.reservations, r.Outfitted s
  pending : ∀ c ch, s.channel? c = some ch → ∀ id, id ∈ ch.state.pending ↔
    ∃ t ∈ s.tasks, t.guard.channel = c ∧ t.guard.request = id
  distinct : s.tasks.Pairwise fun t u =>
    t.guard.channel = u.guard.channel → t.guard.request ≠ u.guard.request
  increasing : ∀ l, (s.lanes l).channels.Pairwise (· < ·)
  registered : ∀ l, ∀ c ∈ (s.lanes l).channels,
    c < s.channels.length ∧ ∀ ch, s.channel? c = some ch → ch.lane = l

/-- What a task is outfitted with depends on its order only. -/
theorem RequestTask.Outfitted.order {t u : RequestTask} (h : u.Outfitted s)
    (horder : u.order = t.order) : t.Outfitted s := by
  obtain ⟨lane, body, guard, stage, aborted, charge⟩ := t
  simp only [RequestTask.order, Prod.mk.injEq] at horder
  obtain ⟨rfl, rfl, rfl⟩ := horder
  exact ⟨h.lane, h.opened, h.same, h.permits⟩

/-- No channel, lane or reservation comes or goes, whatever happens to requests. -/
structure Steady (s s' : Process) : Prop where
  laneCount : s'.laneCount = s.laneCount
  registered : ∀ l, (s'.lanes l).channels = (s.lanes l).channels
  length : s'.channels.length = s.channels.length
  back : ∀ c ch', s'.channel? c = some ch' → ∃ ch, s.channel? c = some ch ∧ ch'.lane = ch.lane
  forth : ∀ c ch, s.channel? c = some ch → ∃ ch', s'.channel? c = some ch' ∧ ch'.lane = ch.lane
  reservations : s'.reservations = s.reservations

private theorem Unmoved.steady (h : Unmoved s s') : Steady s s' where
  laneCount := h.laneCount
  registered := h.registered
  length := h.length
  back c ch' hch' := by
    obtain ⟨ch, hch, hcalm⟩ := h.channel c ch' hch'
    exact ⟨ch, hch, hcalm.lane⟩
  forth c ch hch := by
    obtain ⟨ch', hch'⟩ := h.alive c ch hch
    obtain ⟨old, hold, hcalm⟩ := h.channel c ch' hch'
    obtain rfl := Option.some.inj (hch.symm.trans hold)
    exact ⟨ch', hch', hcalm.lane⟩
  reservations := h.reservations

/-- Writing a channel back keeps lanes and slots. -/
theorem Steady.setChannel (hch : s.channel? c = some ch) (hlane : ch'.lane = ch.lane) :
    Steady s (s.setChannel c ch') := by
  refine ⟨rfl, fun _ => rfl, Process.setChannel_length, fun d other h => ?_,
    fun d other h => ?_, rfl⟩
  · rw [Process.channel?_setChannel hch] at h
    split at h
    · next heq =>
      obtain rfl := Option.some.inj h
      exact ⟨ch, heq ▸ hch, hlane⟩
    · exact ⟨other, h, rfl⟩
  · rw [Process.channel?_setChannel hch]
    split
    · next heq =>
      obtain rfl := Option.some.inj ((heq ▸ hch).symm.trans h)
      exact ⟨ch', rfl, hlane⟩
    · exact ⟨other, h, rfl⟩

/-- Changing the state of a channel keeps lanes and slots. -/
theorem Steady.modifyState (s : Process) (c : Nat) (f : ChannelState → ChannelState) :
    Steady s (s.modifyState c f) := by
  cases hc : s.channel? c with
  | none =>
    rw [Process.modifyState_of_none hc]
    exact (Unmoved.refl s).steady
  | some ch =>
    rw [Process.modifyState_of_some hc]
    exact setChannel hc rfl

/-- Tasks stay outfitted. -/
theorem Steady.task {t : RequestTask} (h : Steady s s') (ht : t.Outfitted s) : t.Outfitted s' where
  lane := h.laneCount ▸ ht.lane
  opened := h.length ▸ ht.opened
  same ch' hch' := by
    obtain ⟨ch, hch, hlane⟩ := h.back _ ch' hch'
    exact hlane.trans (ht.same ch hch)
  permits := ht.permits

/-- Reservations stay outfitted. -/
theorem Steady.reservation {r : Reservation} (h : Steady s s') (hr : r.Outfitted s) :
    r.Outfitted s' where
  permits := hr.permits
  alive := by
    obtain ⟨ch, hch, hlane⟩ := hr.alive
    obtain ⟨ch', hch', hlane'⟩ := h.forth _ ch hch
    exact ⟨ch', hch', hlane'.trans hlane⟩

/-- With channels and lanes steady, what is left to see is the requests. -/
theorem Wired.steady (h : Wired s) (hs : Steady s s')
    (hvalid : ∀ c ch, s'.channel? c = some ch → ch.state.Valid)
    (htask : ∀ t ∈ s'.tasks, t.Outfitted s)
    (hpending : ∀ c ch, s'.channel? c = some ch → ∀ id, id ∈ ch.state.pending ↔
      ∃ t ∈ s'.tasks, t.guard.channel = c ∧ t.guard.request = id)
    (hdistinct : s'.tasks.Pairwise fun t u =>
      t.guard.channel = u.guard.channel → t.guard.request ≠ u.guard.request) : Wired s' where
  valid := hvalid
  lane c ch' hch' := by
    obtain ⟨ch, hch, hlane⟩ := hs.back c ch' hch'
    rw [hlane, hs.laneCount]
    exact h.lane c ch hch
  task t ht := hs.task (htask t ht)
  reservation r hr := hs.reservation (h.reservation r (hs.reservations ▸ hr))
  pending := hpending
  distinct := hdistinct
  increasing l := hs.registered l ▸ h.increasing l
  registered l c hc := by
    rw [hs.registered] at hc
    obtain ⟨hlt, hlane⟩ := h.registered l c hc
    refine ⟨hs.length ▸ hlt, fun ch' hch' => ?_⟩
    obtain ⟨ch, hch, hlane'⟩ := hs.back c ch' hch'
    exact hlane'.trans (hlane ch hch)

/-- What moves no request keeps everything together. -/
theorem Wired.unmoved (h : Wired s) (hu : Unmoved s s') : Wired s' := by
  have hback : ∀ t ∈ s'.tasks, ∃ u ∈ s.tasks, u.order = t.order := fun t ht =>
    List.mem_map.mp (hu.tasks ▸ List.mem_map_of_mem ht)
  have hforth : ∀ t ∈ s.tasks, ∃ u ∈ s'.tasks, u.order = t.order := fun t ht =>
    List.mem_map.mp (hu.tasks ▸ List.mem_map_of_mem ht)
  have hguard : ∀ {t u : RequestTask}, u.order = t.order → u.guard = t.guard := fun heq =>
    congrArg (fun order => order.2.2) heq
  refine h.steady hu.steady (fun c ch' hch' => ?_) (fun t ht => ?_) (fun c ch' hch' id => ?_) ?_
  · obtain ⟨ch, hch, hcalm⟩ := hu.channel c ch' hch'
    exact hcalm.valid (h.valid c ch hch)
  · obtain ⟨u, hmem, horder⟩ := hback t ht
    exact (h.task u hmem).order horder
  · obtain ⟨ch, hch, hcalm⟩ := hu.channel c ch' hch'
    rw [hcalm.pending, h.pending c ch hch]
    constructor
    · rintro ⟨t, ht, hc, hid⟩
      obtain ⟨u, hmem, horder⟩ := hforth t ht
      exact ⟨u, hmem, by rw [hguard horder, hc], by rw [hguard horder, hid]⟩
    · rintro ⟨t, ht, hc, hid⟩
      obtain ⟨u, hmem, horder⟩ := hback t ht
      exact ⟨u, hmem, by rw [hguard horder, hc], by rw [hguard horder, hid]⟩
  · have hdistinct : (s.tasks.map (·.order)).Pairwise fun a b =>
        a.2.2.channel = b.2.2.channel → a.2.2.request ≠ b.2.2.request :=
      List.pairwise_map.mpr h.distinct
    rw [← hu.tasks] at hdistinct
    exact List.pairwise_map.mp hdistinct

/-! ## Steps that move something -/

/-- Reservations come and go. -/
theorem Wired.withReservations (h : Wired s) {reservations : List Reservation}
    (hr : ∀ r ∈ reservations, r.Outfitted s) : Wired { s with reservations } where
  valid := h.valid
  lane := h.lane
  task t ht := ⟨(h.task t ht).lane, (h.task t ht).opened, (h.task t ht).same, (h.task t ht).permits⟩
  reservation r hmem := ⟨(hr r hmem).permits, (hr r hmem).alive⟩
  pending := h.pending
  distinct := h.distinct
  increasing := h.increasing
  registered := h.registered

/-- A request that is new on its channel is inserted with its task. -/
theorem Wired.spawn (h : Wired s) (hs : Steady s s') (hch : s.channel? c = some ch)
    {state : ChannelState} {t : RequestTask} {bytes : Nat} (htasks : s'.tasks = s.tasks ++ [t])
    (hget : ∀ d, s'.channel? d = if c = d then some { ch with state } else s.channel? d)
    (hvalid : state.Valid)
    (hpending : ∀ id, id ∈ state.pending ↔ t.guard.request = id ∨ id ∈ ch.state.pending)
    (hfresh : t.guard.request ∉ ch.state.pending) (hguard : t.guard.channel = c)
    (hlane : t.lane = ch.lane) (hbody : t.body.length ≤ bytes)
    (hpermits : t.guard.permits = requestPermits c ch.lane bytes) : Wired s' := by
  refine h.steady hs (fun d other hother => ?_) (fun u hu => ?_) (fun d other hother id => ?_) ?_
  · rw [hget] at hother
    split at hother
    · obtain rfl := Option.some.inj hother
      exact hvalid
    · exact h.valid d other hother
  · rw [htasks] at hu
    rcases List.mem_append.mp hu with hu | hu
    · exact h.task u hu
    · obtain rfl := List.mem_singleton.mp hu
      refine ⟨hlane ▸ h.lane c ch hch, hguard ▸ Process.channel?_lt hch, fun other hother => ?_,
        bytes, hbody, by rw [hpermits, hguard, hlane]⟩
      rw [hguard] at hother
      obtain rfl := Option.some.inj (hch.symm.trans hother)
      exact hlane.symm
  · rw [hget] at hother
    simp only [htasks, List.mem_append, List.mem_singleton, or_and_right, exists_or, exists_eq_left,
      hguard]
    split at hother
    · next heq =>
      obtain rfl := Option.some.inj hother
      subst heq
      rw [hpending, h.pending c ch hch]
      simp [or_comm]
    · next hne =>
      rw [h.pending d other hother]
      simp [hne]
  · rw [htasks]
    refine List.pairwise_append.mpr ⟨h.distinct, List.pairwise_singleton .., fun u hu v hv => ?_⟩
    obtain rfl := List.mem_singleton.mp hv
    intro hc heq
    exact hfresh ((h.pending c ch hch _).mpr ⟨u, hu, hc.trans hguard, heq⟩)

/-- A launch makes a request, its entry and its task at once. -/
theorem Wired.launch {body : Bytes} {capacity : RequestCapacity} {replaySequence : Option Nat}
    {bytes : Nat} (h : Wired s)
    (hcapacity : ∀ ch, s.channel? c = some ch →
      [capacity.channel, capacity.lane, capacity.global] = requestPermits c ch.lane bytes)
    (hbody : body.length ≤ bytes) : Wired (s.launch c body capacity replaySequence) := by
  have hrefused : ∀ budgets, Wired { s with budgets } := fun _ =>
    h.unmoved (.of_eq rfl rfl rfl rfl fun _ => rfl)
  simp only [Process.launch]
  split
  · exact hrefused _
  · next ch hch =>
    split
    · exact hrefused _
    · next request state budgets hlaunch =>
      have hvalid := h.valid c ch hch
      obtain ⟨-, -, rfl, p, hstate⟩ := ChannelState.launch_spec hlaunch
      have hsteady : Steady s (s.setChannel c { ch with state }) := .setChannel hch rfl
      refine h.spawn ⟨rfl, hsteady.registered, hsteady.length, hsteady.back, hsteady.forth, rfl⟩
        hch rfl
        (fun d => Process.channel?_setChannel hch d) (hvalid.launch hlaunch) (fun id => ?_)
        (fun hmem => ?_) rfl rfl hbody (hcapacity ch hch)
      · rw [hstate]
        simp [Std.TreeMap.mem_insert]
      · obtain ⟨q, hq⟩ := Option.isSome_iff_exists.mp (Std.TreeMap.mem_iff_isSome_getElem?.mp hmem)
        have := (hvalid.linked.requests _ q hq).1
        dsimp only at this
        omega

private theorem finishRequest_pending (st : ChannelState) (request id : Nat) :
    id ∈ (st.finishRequest request).pending ↔ request ≠ id ∧ id ∈ st.pending := by
  simp only [Std.TreeMap.mem_iff_isSome_getElem?, ChannelState.getElem?_finishRequest]
  split
  · next heq => simp [heq]
  · next hne => simp [hne]

/-- A task that is taken away leaves those of other requests. -/
theorem Wired.mem_eraseIdx (h : Wired s) {t u : RequestTask} (ht : s.tasks[i]? = some t) :
    u ∈ s.tasks.eraseIdx i ↔
      u ∈ s.tasks ∧ (u.guard.channel = t.guard.channel → u.guard.request ≠ t.guard.request) := by
  obtain ⟨hi, hti⟩ := List.getElem?_eq_some_iff.mp ht
  have hdistinct := List.pairwise_iff_getElem.mp h.distinct
  rw [List.mem_eraseIdx_iff_getElem]
  constructor
  · rintro ⟨j, hj, hne, rfl⟩
    refine ⟨List.getElem_mem hj, fun hc hr => ?_⟩
    rw [← hti] at hc hr
    rcases Nat.lt_or_gt_of_ne hne with hlt | hgt
    · exact hdistinct j i hj hi hlt hc hr
    · exact hdistinct i j hi hj hgt hc.symm hr.symm
  · rintro ⟨hu, hne⟩
    obtain ⟨j, hj, rfl⟩ := List.getElem_of_mem hu
    refine ⟨j, hj, ?_, rfl⟩
    rintro rfl
    exact hne (by rw [hti]) (by rw [hti])

/-- A dropped task takes its request with it. -/
theorem Wired.finishTask (h : Wired s) {t : RequestTask} (ht : s.tasks[i]? = some t) :
    Wired ({ s with tasks := s.tasks.eraseIdx i }.modifyState t.guard.channel
      fun st => st.finishRequest t.guard.request) := by
  have hmem := fun u => h.mem_eraseIdx (u := u) ht
  have hdistinct := h.distinct.sublist (List.eraseIdx_sublist s.tasks i)
  generalize s.tasks.eraseIdx i = tasks at *
  have hsteady := Steady.modifyState { s with tasks } t.guard.channel
    fun st => st.finishRequest t.guard.request
  have htasks : (Process.modifyState { s with tasks } t.guard.channel
      fun st => st.finishRequest t.guard.request).tasks = tasks := Process.modifyState_tasks ..
  have hget := fun d => Process.channel?_modifyState { s with tasks } t.guard.channel d
    fun st => st.finishRequest t.guard.request
  generalize Process.modifyState { s with tasks } t.guard.channel
    (fun st => st.finishRequest t.guard.request) = s' at *
  refine h.steady ⟨hsteady.laneCount, hsteady.registered, hsteady.length, hsteady.back,
    hsteady.forth, hsteady.reservations⟩ (fun d ch' hch' => ?_)
    (fun u hu => h.task u ((hmem u).mp (htasks ▸ hu)).1) (fun d ch' hch' id => ?_)
    (htasks ▸ hdistinct)
  all_goals
    obtain ⟨ch, hch, rfl⟩ := Option.map_eq_some_iff.mp ((hget d).symm.trans hch')
  · split
    · exact (h.valid d ch hch).finishRequest _
    · exact h.valid d ch hch
  · have hpending := h.pending d ch hch id
    simp only [htasks, hmem]
    split
    · next heq =>
      rw [finishRequest_pending, hpending]
      constructor
      · rintro ⟨hne, u, hu, hc, rfl⟩
        exact ⟨u, ⟨hu, fun _ => Ne.symm hne⟩, hc, rfl⟩
      · rintro ⟨u, ⟨hu, hne⟩, hc, rfl⟩
        exact ⟨Ne.symm (hne (hc.trans heq.symm)), u, hu, hc, rfl⟩
    · next hne =>
      rw [hpending]
      constructor
      · rintro ⟨u, hu, hc, hr⟩
        exact ⟨u, ⟨hu, fun heq => absurd (heq.symm.trans hc) hne⟩, hc, hr⟩
      · rintro ⟨u, ⟨hu, _⟩, hc, hr⟩
        exact ⟨u, hu, hc, hr⟩

/-- The budgets wire nothing. -/
theorem Wired.withBudgets (h : Wired s) (budgets : Budgets) : Wired { s with budgets } :=
  h.unmoved (.of_eq rfl rfl rfl rfl fun _ => rfl)

/-- A task that is dropped takes its request along. -/
theorem Wired.dropTask (h : Wired s) {t : RequestTask} (ht : s.tasks[i]? = some t) :
    Wired ({ s with tasks := s.tasks.eraseIdx i }.dropTask t) := by
  have hdiscard : Wired (s.discard t.charge) := h.unmoved (.discard s t.charge)
  have ht' : (s.discard t.charge).tasks[i]? = some t := by
    cases hcharge : t.charge <;> exact ht
  simp only [Process.dropTask]
  cases hcharge : t.charge <;> rw [hcharge] at hdiscard ht'
  all_goals exact (hdiscard.finishTask ht').withBudgets _

/-- A replay that is launched holds its permits. -/
theorem Wired.tryReplay {sequence : Nat} {body : Bytes} (h : Wired s)
    (hch : s.channel? c = some ch) : Wired (s.tryReplay c ch.lane sequence body) := by
  simp only [Process.tryReplay]
  split
  · exact h
  · next hchannel =>
    split
    · exact h.withBudgets _
    · next hlane =>
      split
      · exact h.withBudgets _
      · next hglobal =>
        rw [permit_of_tryAcquire hchannel, permit_of_tryAcquire hlane,
          permit_of_tryAcquire hglobal]
        refine (h.withBudgets _).launch (fun other hother => ?_) (Nat.le_refl body.length)
        obtain rfl := Option.some.inj (hch.symm.trans hother)
        rfl

/-- A reservation takes the permit it waits for. -/
theorem Wired.acquire {r : Reservation} (h : Wired s) (hr : s.reservations[i]? = some r)
    (ha : s.acquire i r = some s') : Wired s' := by
  obtain ⟨hpermits, halive⟩ := h.reservation r (List.mem_of_getElem? hr)
  -- whatever the stage, the reservation is replaced by one with the next permit
  have hadvance : ∀ (budgets : Budgets) (stage : ReserveStage),
      { r with stage }.permits <+: requestPermits r.channel r.lane r.bytes →
      Wired { s with budgets, reservations := s.reservations.set i { r with stage } } := by
    intro budgets stage hfront
    refine (h.withBudgets budgets).withReservations fun q hq => ?_
    rcases List.mem_or_eq_of_mem_set hq with hq | rfl
    · exact ⟨(h.reservation q hq).permits, (h.reservation q hq).alive⟩
    · exact ⟨hfront, halive⟩
  simp only [Reservation.permits] at hpermits hadvance
  simp only [Process.acquire] at ha
  cases hstage : r.stage with
  | channel =>
    simp only [hstage, Option.map_eq_some_iff] at ha
    obtain ⟨⟨permit, budgets⟩, hacquire, rfl⟩ := ha
    refine hadvance budgets (.lane permit) ?_
    rw [permit_of_tryAcquire hacquire]
    simp [requestPermits]
  | lane channel =>
    simp only [hstage] at hpermits
    simp only [hstage, Option.map_eq_some_iff] at ha
    obtain ⟨⟨permit, budgets⟩, hacquire, rfl⟩ := ha
    refine hadvance budgets (.global channel permit) ?_
    rw [permit_of_tryAcquire hacquire]
    simpa [requestPermits] using hpermits
  | global channel lane =>
    simp only [hstage] at hpermits
    simp only [hstage, Option.map_eq_some_iff] at ha
    obtain ⟨_, ⟨⟨permit, budgets⟩, hacquire, rfl⟩, rfl⟩ := ha
    have hreserved := hadvance budgets (.reserved ⟨channel, lane, permit⟩) (by
      rw [permit_of_tryAcquire hacquire]
      simpa [requestPermits] using hpermits)
    exact hreserved.unmoved
      (.modifyState fun st => ⟨fun _ => Iff.rfl, fun h => h.congr rfl rfl rfl rfl⟩)
  | reserved capacity =>
    simp only [hstage] at ha
    cases ha

/-- A reservation may go at any time. -/
theorem Wired.eraseReservation (h : Wired s) (budgets : Budgets) (i : Nat) :
    Wired { s with budgets, reservations := s.reservations.eraseIdx i } := by
  refine (h.withBudgets budgets).withReservations fun r hr => ?_
  have hmem := (List.eraseIdx_sublist ..).subset hr
  exact ⟨(h.reservation r hmem).permits, (h.reservation r hmem).alive⟩

/-! ## Lanes and channels -/

/-- A lane that opens has no channel. -/
theorem Wired.openLane (h : Wired s) : Wired { s with laneCount := s.laneCount + 1 } where
  valid := h.valid
  lane c ch hch := Nat.lt_succ_of_lt (h.lane c ch hch)
  task t ht := ⟨Nat.lt_succ_of_lt (h.task t ht).lane, (h.task t ht).opened, (h.task t ht).same,
    (h.task t ht).permits⟩
  reservation r hr := ⟨(h.reservation r hr).permits, (h.reservation r hr).alive⟩
  pending := h.pending
  distinct := h.distinct
  increasing := h.increasing
  registered := h.registered

/-- A channel that opens has no request. -/
theorem Wired.openChannel (h : Wired s) (hl : l < s.laneCount) : Wired (s.openChannel l) := by
  have hget := Process.channel?_openChannel s l
  have hlength := Process.openChannel_length s l
  have hold : ∀ d other, d < s.channels.length → (s.openChannel l).channel? d = some other →
      s.channel? d = some other := by
    intro d other hlt hother
    rw [hget, if_neg (Nat.ne_of_gt hlt)] at hother
    exact hother
  refine ⟨fun d other hother => ?_, fun d other hother => ?_, fun t ht => ?_, fun r hr => ?_,
    fun d other hother id => ?_, h.distinct, fun k => ?_, fun k d hd => ?_⟩
  · rw [hget] at hother
    split at hother
    · obtain rfl := Option.some.inj hother
      exact .fresh rfl rfl
    · exact h.valid d other hother
  · rw [hget] at hother
    split at hother
    · obtain rfl := Option.some.inj hother
      exact hl
    · exact h.lane d other hother
  · have := h.task t ht
    exact ⟨this.lane, hlength ▸ Nat.lt_succ_of_lt this.opened,
      fun other hother => this.same other (hold _ other this.opened hother), this.permits⟩
  · obtain ⟨hpermits, ch, hch, hlane⟩ := h.reservation r hr
    refine ⟨hpermits, ch, ?_, hlane⟩
    rw [hget, if_neg (Nat.ne_of_gt (Process.channel?_lt hch))]
    exact hch
  · rw [hget] at hother
    split at hother
    · next heq =>
      -- no task is for a channel that was not opened
      obtain rfl := Option.some.inj hother
      refine ⟨fun hid => by simp at hid, ?_⟩
      rintro ⟨t, ht, hc, _⟩
      have := (h.task t ht).opened
      omega
    · exact h.pending d other hother id
  · simp only [Process.openChannel, Process.modifyLane, Function.update_apply]
    split
    · next heq =>
      subst heq
      refine List.pairwise_append.mpr ⟨(h.increasing k).sublist List.filter_sublist,
        List.pairwise_singleton .., fun d hd e he => ?_⟩
      obtain rfl := List.mem_singleton.mp he
      exact (h.registered k d (List.mem_filter.mp hd).1).1
    · exact h.increasing k
  · rw [hlength]
    simp only [Process.openChannel, Process.modifyLane, Function.update_apply] at hd
    split at hd
    · next heq =>
      subst heq
      rcases List.mem_append.mp hd with hd | hd
      · obtain ⟨hlt, hlane⟩ := h.registered k d (List.mem_filter.mp hd).1
        exact ⟨Nat.lt_succ_of_lt hlt, fun other hother => hlane other (hold d other hlt hother)⟩
      · obtain rfl := List.mem_singleton.mp hd
        refine ⟨Nat.lt_succ_self _, fun other hother => ?_⟩
        rw [hget, if_pos rfl] at hother
        obtain rfl := Option.some.inj hother
        rfl
    · obtain ⟨hlt, hlane⟩ := h.registered k d hd
      exact ⟨Nat.lt_succ_of_lt hlt, fun other hother => hlane other (hold d other hlt hother)⟩

/-- A channel that nothing waits for may go. -/
theorem Wired.dropChannel (h : Wired s) (hunused : ∀ r ∈ s.reservations, r.channel ≠ c) :
    Wired (s.dropChannel c ch) := by
  have hlength : (s.channels.set c none).length = s.channels.length := List.length_set ..
  have hdropped : ∀ budgets, Wired { s with channels := s.channels.set c none, budgets } := by
    intro budgets
    refine ⟨fun d other hother => h.valid d other (Process.channel?_set_none hother).1,
      fun d other hother => h.lane d other (Process.channel?_set_none hother).1,
      fun t ht => ?_, fun r hr => ?_,
      fun d other hother id => h.pending d other (Process.channel?_set_none hother).1 id,
      h.distinct, h.increasing, fun l d hd => ?_⟩
    · have := h.task t ht
      exact ⟨this.lane, hlength ▸ this.opened,
        fun other hother => this.same other (Process.channel?_set_none hother).1, this.permits⟩
    · obtain ⟨hpermits, old, hold, hlane⟩ := h.reservation r hr
      refine ⟨hpermits, old, ?_, hlane⟩
      simp only [Process.channel?, List.getElem?_set, if_neg (Ne.symm (hunused r hr))]
      exact hold
    · obtain ⟨hlt, hlane⟩ := h.registered l d hd
      exact ⟨hlength ▸ hlt, fun other hother => hlane other (Process.channel?_set_none hother).1⟩
  exact (hdropped _).unmoved (.dropReplies _ _)

/-- A lane that closes fails its channels. -/
theorem Wired.closeLane (h : Wired s) (clear : Bool) : Wired (s.closeLane l clear) := by
  simp only [Process.closeLane]
  have hfailed :=
    h.unmoved (.failChannels s (s.lanes l).channels (.error .notConnected "H2 pool closed"))
  have haborted := hfailed.unmoved (.abortTasks _ fun t => t.lane = l)
  generalize Process.abortTasks _ _ = aborted at *
  have hsub : ∀ k, ((aborted.modifyLane l fun lane => { lane with
      closed := true, channels := if clear then [] else lane.channels }).lanes k).channels.Sublist
        (aborted.lanes k).channels := by
    intro k
    simp only [Process.modifyLane, Function.update_apply]
    split
    · next heq =>
      subst heq
      dsimp only
      split
      · exact List.nil_sublist _
      · exact List.Sublist.refl _
    · exact List.Sublist.refl _
  refine ⟨haborted.valid, haborted.lane, fun t ht => ?_, fun r hr => ?_, haborted.pending,
    haborted.distinct, fun k => (haborted.increasing k).sublist (hsub k),
    fun k c hc => haborted.registered k c ((hsub k).subset hc)⟩
  · have := haborted.task t ht
    exact ⟨this.lane, this.opened, this.same, this.permits⟩
  · have := haborted.reservation r hr
    exact ⟨this.permits, this.alive⟩

/-! ## Every step -/

/-- The live channel of a recovery step. -/
theorem recovering_some (h : s.recovering c = some ch) :
    s.channel? c = some ch ∧ ch.closed = false := by
  simpa [Process.recovering] using h

/-- A change of a channel's state that concerns no request or entry. -/
theorem Wired.touchState (h : Wired s) {f : ChannelState → ChannelState}
    (hf : ∀ st, (f st).nextRequest = st.nextRequest ∧ (f st).pending = st.pending ∧
      (f st).history = st.history ∧ (f st).replayKey = st.replayKey) :
    Wired (s.modifyState c f) :=
  h.unmoved (.modifyState fun st => ⟨fun _ => by rw [(hf st).2.1],
    fun h => h.congr (hf st).1 (hf st).2.1 (hf st).2.2.1 (hf st).2.2.2⟩)

/-- A stage of a task, with the mark it leaves on its pending request. -/
theorem Wired.mark (h : Wired s) {t t' : RequestTask} (ht : s.tasks[i]? = some t)
    (horder : t'.order = t.order) {f : ChannelState → ChannelState}
    (hf : ∀ st : ChannelState, (∀ id, id ∈ (f st).pending ↔ id ∈ st.pending) ∧
      (st.Valid → (f st).Valid)) :
    Wired ({ s with tasks := s.tasks.set i t' }.modifyState c f) :=
  (h.unmoved (.setTask ht horder)).unmoved (.modifyState hf)

/-- Every step keeps the wiring. -/
theorem Wired.step {a : ProcessAction} (h : Wired s) (hstep : s.step a = some s') : Wired s' := by
  cases a with
  | tick elapsed =>
    obtain rfl := Option.some.inj hstep
    exact h.unmoved (.of_eq rfl rfl rfl rfl fun _ => rfl)
  | openLane =>
    obtain rfl := Option.some.inj hstep
    exact h.openLane
  | openChannel l =>
    simp only [Process.step] at hstep
    split at hstep
    · next hl =>
      obtain rfl := Option.some.inj hstep
      exact h.openChannel hl
    · cases hstep
  | dropChannel c =>
    obtain ⟨ch, hch, hstep⟩ := Option.bind_eq_some_iff.mp hstep
    split at hstep
    · next hunused =>
      obtain rfl := Option.some.inj hstep
      exact h.dropChannel (by simpa using hunused.2.2)
    · cases hstep
  | closeLane l clear =>
    simp only [Process.step] at hstep
    split at hstep
    · obtain rfl := Option.some.inj hstep
      exact h.closeLane clear
    · cases hstep
  | fail c terminal =>
    obtain ⟨ch, hch, rfl⟩ := Option.map_eq_some_iff.mp hstep
    exact h.unmoved (.failChannel ..)
  | terminate c =>
    obtain ⟨ch, hch, hstep⟩ := Option.bind_eq_some_iff.mp hstep
    obtain ⟨terminal, hfailing, rfl⟩ := Option.map_eq_some_iff.mp hstep
    have hvalid := fun h : ch.state.Valid => h.terminate s.budgets terminal
    have hpending : (ch.state.terminate s.budgets terminal).1.pending = ch.state.pending := rfl
    generalize ch.state.terminate s.budgets terminal = ended at *
    refine (h.withBudgets ended.2).unmoved (.trans (.setChannel hch ?_) (.abortTasks ..))
    exact ⟨rfl, fun _ => by rw [hpending], hvalid⟩
  | reserve c bytes =>
    obtain ⟨ch, hch, hstep⟩ := Option.bind_eq_some_iff.mp hstep
    split at hstep
    · cases hstep
    · obtain rfl := Option.some.inj hstep
      have hwaiting : Wired (s.setChannel c { ch with
          state := { ch.state with waitingUpload := some (s.clock, bytes) } }) :=
        h.unmoved (.setChannel hch ⟨rfl, fun _ => Iff.rfl, fun h => h.congr rfl rfl rfl rfl⟩)
      refine hwaiting.withReservations fun r hr => ?_
      rcases List.mem_append.mp hr with hr | hr
      · exact hwaiting.reservation r hr
      · obtain rfl := List.mem_singleton.mp hr
        exact ⟨List.nil_prefix, _, (Process.channel?_setChannel hch c).trans (if_pos rfl), rfl⟩
  | acquired i =>
    obtain ⟨r, hr, hstep⟩ := Option.bind_eq_some_iff.mp hstep
    exact h.acquire hr hstep
  | refused i =>
    obtain ⟨r, hr, hstep⟩ := Option.bind_eq_some_iff.mp hstep
    split at hstep
    · cases hstep
    · obtain rfl := Option.some.inj hstep
      exact (h.eraseReservation _ i).touchState fun _ => ⟨rfl, rfl, rfl, rfl⟩
  | cancelled i =>
    obtain ⟨r, hr, rfl⟩ := Option.map_eq_some_iff.mp hstep
    exact h.eraseReservation _ i
  | sendReserved i body =>
    obtain ⟨r, hr, hstep⟩ := Option.bind_eq_some_iff.mp hstep
    split at hstep
    · next capacity hstage =>
      split at hstep
      · next hfits =>
        obtain rfl := Option.some.inj hstep
        obtain ⟨hpermits, old, hold, hlane⟩ := h.reservation r (List.mem_of_getElem? hr)
        refine (h.eraseReservation s.budgets i).launch (fun ch hch => ?_) hfits.1
        obtain rfl := Option.some.inj (hold.symm.trans hch)
        simp only [Reservation.permits, hstage] at hpermits
        rw [hlane]
        exact hpermits.eq_of_length rfl
      · cases hstep
    · cases hstep
  | sweep c =>
    obtain ⟨ch, hch, rfl⟩ := Option.map_eq_some_iff.mp hstep
    have hvalid := fun h : ch.state.Valid => h.sweep s.budgets s.clock
    have hpending : (ch.state.sweep s.budgets s.clock).1.pending = ch.state.pending := rfl
    generalize ch.state.sweep s.budgets s.clock = swept at *
    refine (h.withBudgets swept.2).unmoved (.setChannel (recovering_some hch).1 ?_)
    exact ⟨rfl, fun _ => by rw [hpending], hvalid⟩
  | makeRoom c =>
    obtain ⟨bytes, -, rfl⟩ := Option.map_eq_some_iff.mp hstep
    exact h.unmoved (.makeRoom ..)
  | rotate c =>
    obtain ⟨ch, hch, rfl⟩ := Option.map_eq_some_iff.mp hstep
    split
    · exact h.unmoved (.abortTasks ..)
    · exact h
  | replay c =>
    obtain ⟨ch, hch, rfl⟩ := Option.map_eq_some_iff.mp hstep
    split
    · exact h.tryReplay (recovering_some hch).1
    · exact h
  | markStarted i generation =>
    obtain ⟨t, ht, rfl⟩ := Option.map_eq_some_iff.mp hstep
    refine h.mark (Option.filter_eq_some_iff.mp ht).1 ?_ fun st => ⟨fun _ => ?_, fun h => ?_⟩
    · rfl
    · exact Std.TreeMap.mem_modify
    · exact h.markStarted ..
  | markSent i =>
    obtain ⟨t, ht, rfl⟩ := Option.map_eq_some_iff.mp hstep
    refine h.mark (Option.filter_eq_some_iff.mp ht).1 ?_ fun st => ⟨fun _ => ?_, fun h => ?_⟩
    · rfl
    · exact Std.TreeMap.mem_modify
    · exact h.markSent ..
  | markReceiving i =>
    obtain ⟨t, ht, rfl⟩ := Option.map_eq_some_iff.mp hstep
    refine h.mark (Option.filter_eq_some_iff.mp ht).1 ?_ fun st => ⟨fun _ => ?_, fun h => ?_⟩
    · rfl
    · exact Std.TreeMap.mem_modify
    · exact h.markReceiving ..
  | charged i bytes =>
    obtain ⟨t, ht, rfl⟩ := Option.map_eq_some_iff.mp hstep
    exact h.unmoved (.charge (Option.filter_eq_some_iff.mp ht).1)
  | finished i outcome =>
    obtain ⟨t, ht, hstep⟩ := Option.bind_eq_some_iff.mp hstep
    exact h.unmoved (.finish (Option.filter_eq_some_iff.mp ht).1 hstep)
  | taskDropped i =>
    obtain ⟨t, ht, rfl⟩ := Option.map_eq_some_iff.mp hstep
    exact h.dropTask (Option.filter_eq_some_iff.mp ht).1
  | receive c =>
    obtain ⟨ch, hch, hstep⟩ := Option.bind_eq_some_iff.mp hstep
    split at hstep
    · obtain rfl := Option.some.inj hstep
      exact h.unmoved (.setChannel hch ⟨rfl, fun _ => Iff.rfl, fun h => h.congr rfl rfl rfl rfl⟩)
    · next reply replies _ _ =>
      obtain rfl := Option.some.inj hstep
      have hpopped : Wired (s.setChannel c { ch with replies }) :=
        h.unmoved (.setChannel hch ⟨rfl, fun _ => Iff.rfl, id⟩)
      exact hpopped.unmoved (.of_eq rfl rfl rfl rfl fun _ => rfl)
    · cases hstep
  | replyDropped i =>
    obtain ⟨reply, hreply, rfl⟩ := Option.map_eq_some_iff.mp hstep
    have hheld : Wired { s with held := s.held.eraseIdx i } :=
      h.unmoved (.of_eq rfl rfl rfl rfl fun _ => rfl)
    exact hheld.unmoved (.dropReply _ reply)
  | nativeWrite c pending =>
    obtain ⟨ch, hch, rfl⟩ := Option.map_eq_some_iff.mp hstep
    exact h.touchState fun _ => ⟨rfl, rfl, rfl, rfl⟩
  | progress c =>
    obtain ⟨ch, hch, rfl⟩ := Option.map_eq_some_iff.mp hstep
    exact h.touchState fun _ => ⟨rfl, rfl, rfl, rfl⟩

/-- Every reachable process is wired. -/
theorem wired (h : processSystem.Reachable s) : Wired s := by
  refine System.Reachable.invariant (fun s hs => ?_) (fun s a t h hstep => h.step hstep) h
  rw [hs.1]
  constructor <;> simp [Process.channel?]

end TgWsProxy.H2
