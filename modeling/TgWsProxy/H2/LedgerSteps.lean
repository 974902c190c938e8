import TgWsProxy.H2.Ledger

/-!
# The accounts of every step

What a request, the end of its reply and the lanes and channels take from the loose values and add
to them; and so every step leaves the accounts exact.
-/

namespace TgWsProxy.H2

open TgWsProxy.Core

variable {s s' : Process} {loose loose' : List Holding} {c d l i : Nat} {ch ch' : ChannelInner}
  {weight : Holding → Nat}

/-! ## Requests -/

/-- A task that changes hands with loose values. -/
theorem Balanced.setTask (h : Balanced s loose) {t t' : RequestTask} (ht : s.tasks[i]? = some t)
    (hsame : ∀ weight, tally weight loose + tally weight t.holdings =
      tally weight loose' + tally weight t'.holdings) :
    Balanced { s with tasks := s.tasks.set i t' } loose' := by
  refine h.regroup (fun weight => ?_) rfl rfl rfl (Nat.le_refl _) fun _ => Or.inl
  have := tally_set (fun t => tally weight (RequestTask.holdings t)) ht t'
  have := hsame weight
  simp only [tally_append, tally_holdings]
  omega

/-- The stage of a task holds nothing. -/
theorem Balanced.setStage (h : Balanced s loose) {t : RequestTask} (ht : s.tasks[i]? = some t)
    (stage : TaskStage) : Balanced { s with tasks := s.tasks.set i { t with stage } } loose :=
  h.setTask ht fun _ => rfl

/-- A task is taken away, and what it holds is loose. -/
theorem Balanced.takeTask (h : Balanced s loose) {t : RequestTask} (ht : s.tasks[i]? = some t) :
    Balanced { s with tasks := s.tasks.eraseIdx i } (t.holdings ++ loose) := by
  refine h.regroup (fun weight => ?_) rfl rfl rfl (Nat.le_refl _) fun _ => Or.inl
  have := tally_eraseIdx (fun t => tally weight (RequestTask.holdings t)) ht
  simp only [tally_append, tally_holdings]
  omega

private theorem Balanced.takeReservation (h : Balanced s loose) {r : Reservation}
    (hr : s.reservations[i]? = some r) :
    Balanced { s with reservations := s.reservations.eraseIdx i } (r.holdings ++ loose) := by
  refine h.regroup (fun weight => ?_) rfl rfl rfl (Nat.le_refl _) fun _ => Or.inl
  have := tally_eraseIdx (fun r => tally weight (Reservation.holdings r)) hr
  simp only [tally_append, tally_holdings]
  omega

/-- A reservation that is released gives back its permits. -/
theorem Balanced.release (h : Balanced s loose) {r : Reservation}
    (hr : s.reservations[i]? = some r) : Balanced (s.release i r) loose :=
  (h.takeReservation hr).dropPermits

/-- The history of a channel changes as its budget does. -/
theorem Balanced.withHistory (h : Balanced s loose) (hch : s.channel? c = some ch)
    (hreplies : ch'.replies = ch.replies) (hbytes : ch'.state.replyBytes = ch.state.replyBytes)
    {budgets : Budgets} (hcovers : ∀ permits,
      Covers s.budgets (historyPermits ch.state.history ++ permits) →
        Covers budgets (historyPermits ch'.state.history ++ permits)) :
    Balanced ({ s with budgets }.setChannel c ch') loose := by
  -- the old permits are taken out of the channel, exchanged, and the new ones put in
  let bare : ChannelInner := { ch with state := { ch.state with history := [] } }
  have htaken : Balanced (s.setChannel c bare)
      ((historyPermits ch.state.history).map .permit ++ loose) := by
    refine h.moveChannel hch ?_ (fun _ => Or.inl) fun weight => ?_
    · rfl
    · simp only [ChannelInner.holdings, tally_append, historyPermits, List.map_nil, tally_nil, bare]
      omega
  have hbare : (s.setChannel c bare).channel? c = some bare :=
    (Process.channel?_setChannel hch c).trans (if_pos rfl)
  have hput : Balanced ((Process.setChannel { s with budgets } c bare).setChannel c ch') loose := by
    refine (htaken.exchange hcovers).moveChannel hbare hbytes
      (fun _ hreply => Or.inl (hreplies ▸ hreply)) fun weight => ?_
    simp only [ChannelInner.holdings, tally_append, hreplies, bare]
    simp only [historyPermits, List.map_nil, tally_nil]
    omega
  rwa [Process.setChannel_setChannel] at hput

/-- The permits of a request go to its task, or are dropped. -/
theorem Balanced.launch {body : Bytes} {capacity : RequestCapacity} {replaySequence : Option Nat}
    (h : Balanced s
      ([capacity.channel, capacity.lane, capacity.global].map .permit ++ loose)) :
    Balanced (s.launch c body capacity replaySequence) loose := by
  simp only [Process.launch]
  split
  · exact h.dropPermits
  · next ch hch =>
    split
    · exact h.dropPermits
    · next request state budgets hlaunch =>
      obtain ⟨-, -, -, p, hstate⟩ := ChannelState.launch_spec hlaunch
      have hbytes : state.replyBytes = ch.state.replyBytes := by rw [hstate]
      have hlaunched : Balanced (Process.setChannel { s with budgets } c { ch with state })
          ([capacity.channel, capacity.lane, capacity.global].map .permit ++ loose) := by
        refine h.withHistory hch ?_ ?_ fun _ hcovers => hcovers.launch hlaunch
        · rfl
        · exact hbytes
      refine hlaunched.regroup (fun weight => ?_) rfl rfl rfl (Nat.le_refl _) fun _ => Or.inl
      simp only [tally_append, tally_holdings, tally_cons, tally_nil, RequestTask.holdings,
        RequestGuard.permits, Option.map_none, Option.toList_none, Process.setChannel]
      omega

/-- A replay either holds its permits or gives them back. -/
theorem Balanced.tryReplay {sequence : Nat} {body : Bytes} (h : Balanced s loose) :
    Balanced (s.tryReplay c l sequence body) loose := by
  simp only [Process.tryReplay]
  split
  · exact h
  · next channel _ hchannel =>
    have hone := h.acquire hchannel
    split
    · exact hone.dropOne
    · next lane _ hlane =>
      have htwo := hone.acquire hlane
      split
      · have hboth : Balanced _ ([channel, lane].map .permit ++ loose) :=
          htwo.reorder fun weight => by
            simp only [List.map_cons, List.map_nil, tally_cons, tally_append, tally_nil]
            omega
        exact hboth.dropPermits
      · next hglobal =>
        refine Balanced.launch ((htwo.acquire hglobal).reorder fun weight => ?_)
        simp only [List.map_cons, List.map_nil, tally_cons, tally_append, tally_nil]
        omega

private theorem finishRequest_keeps (st : ChannelState) (request : Nat) :
    historyPermits (st.finishRequest request).history = historyPermits st.history ∧
      (st.finishRequest request).replyBytes = st.replyBytes := by
  simp only [ChannelState.finishRequest]
  split
  · exact ⟨rfl, rfl⟩
  · refine ⟨?_, rfl⟩
    dsimp only
    split
    · exact historyPermits_updateFirst (leave_label request _)
    · rfl

private theorem retire_keeps (st : ChannelState) (request : Nat) :
    historyPermits (st.retire request).history = historyPermits st.history ∧
      (st.retire request).replyBytes = st.replyBytes := by
  simp only [ChannelState.retire]
  split
  · exact ⟨rfl, rfl⟩
  · split
    · exact ⟨historyPermits_updateFirst fun _ => rfl, rfl⟩
    · exact ⟨rfl, rfl⟩

/-- A task is dropped with its permits and charge. -/
theorem Balanced.dropTask {t : RequestTask} (h : Balanced s (t.holdings ++ loose)) :
    Balanced (s.dropTask t) loose := by
  have hcharged : Balanced s
      ((t.charge.map .charge).toList ++ (t.guard.permits.map .permit ++ loose)) :=
    h.reorder fun weight => by
      simp only [RequestTask.holdings, tally_append]
      omega
  exact Balanced.dropPermits (hcharged.discard.modifyState fun st => finishRequest_keeps st _)

/-- A request that is retired and aborted keeps the balance. -/
theorem Balanced.retireAndAbort (h : Balanced s loose) {request : Nat} :
    Balanced (s.retireAndAbort c request) loose := by
  simp only [Process.retireAndAbort]
  split
  · exact h
  · next ch hch =>
    split
    · obtain ⟨hpermits, hbytes⟩ := retire_keeps ch.state request
      generalize ch.state.retire request = state at *
      have hretired : Balanced (s.setChannel c { ch with state }) loose :=
        h.setChannel hch hpermits rfl hbytes
      exact hretired.abortTasks _
    · exact h

/-- Making room keeps the balance, whichever channel loses a request. -/
theorem Balanced.makeRoom (h : Balanced s loose) {bytes : Nat} :
    Balanced (s.makeRoom c bytes) loose := by
  simp only [Process.makeRoom]
  split
  · exact h.retireAndAbort
  · exact h

/-- A reservation takes the permit it waits for. -/
theorem Balanced.acquireNext {r : Reservation} (h : Balanced s loose)
    (hr : s.reservations[i]? = some r) (ha : s.acquire i r = some s') : Balanced s' loose := by
  have hadvance : ∀ {id permit budgets} (stage : ReserveStage),
      tryAcquire s.budgets id r.bytes = some (permit, budgets) →
      (∀ weight, tally weight { r with stage }.holdings =
        weight (.permit permit) + tally weight r.holdings) →
      Balanced { s with budgets, reservations := s.reservations.set i { r with stage } } loose := by
    intro id permit budgets stage hacquire hsame
    refine (h.acquire hacquire).regroup (fun weight => ?_) rfl rfl rfl (Nat.le_refl _) fun _ =>
      Or.inl
    have := tally_set (fun r => tally weight (Reservation.holdings r)) hr { r with stage }
    have := hsame weight
    simp only [tally_append, tally_holdings, tally_cons]
    omega
  simp only [Process.acquire] at ha
  cases hstage : r.stage with
  | channel =>
    simp only [hstage, Option.map_eq_some_iff] at ha
    obtain ⟨⟨permit, budgets⟩, hacquire, rfl⟩ := ha
    exact hadvance _ hacquire fun weight => by
      simp [Reservation.holdings, Reservation.permits, hstage]
  | lane channel =>
    simp only [hstage, Option.map_eq_some_iff] at ha
    obtain ⟨⟨permit, budgets⟩, hacquire, rfl⟩ := ha
    exact hadvance _ hacquire fun weight => by
      simp [Reservation.holdings, Reservation.permits, hstage, Nat.add_comm]
  | global channel lane =>
    simp only [hstage, Option.map_eq_some_iff] at ha
    obtain ⟨_, ⟨⟨permit, budgets⟩, hacquire, rfl⟩, rfl⟩ := ha
    refine Balanced.modifyState (hadvance _ hacquire fun weight => ?_) fun _ => ⟨rfl, rfl⟩
    simp [Reservation.holdings, Reservation.permits, hstage]
    omega
  | reserved capacity =>
    simp only [hstage] at ha
    cases ha

/-! ## The end of a request's reply -/

/-- A task that finishes delivers or gives back what it holds. -/
theorem Balanced.finish {t : RequestTask} {outcome : Outcome} (h : Balanced s loose)
    (ht : s.tasks[i]? = some t) (hf : s.finish i t outcome = some s') : Balanced s' loose := by
  -- the charge of the reply is loose once the task has ended
  have hended : Balanced { s with tasks := s.tasks.set i { t with stage := .done, charge := none } }
      ((t.charge.map .charge).toList ++ loose) := by
    refine h.setTask ht fun weight => ?_
    simp only [RequestTask.holdings, tally_append, Option.map_none, Option.toList_none, tally_nil]
    omega
  simp only [Process.finish] at hf
  split at hf
  · split at hf
    · next charge hcharge =>
      split at hf
      · obtain rfl := Option.some.inj hf
        rw [hcharge] at hended
        exact Balanced.deliver hended rfl
      · cases hf
    · cases hf
  · split at hf
    · obtain rfl := Option.some.inj hf
      exact hended.discard.modifyState fun _ => ⟨rfl, rfl⟩
    · cases hf
  · obtain rfl := Option.some.inj hf
    exact hended.discard.failChannel _

/-- A task that is charged holds the charge, or ends and gives it back. -/
theorem Balanced.charge {t : RequestTask} {bytes : Nat} (h : Balanced s loose)
    (ht : s.tasks[i]? = some t) (hlane : t.lane < s.laneCount) :
    Balanced (s.charge i t bytes) loose := by
  simp only [Process.charge]
  split
  · next hnone =>
    have ht' : (s.chargeReply t.lane bytes).2.tasks[i]? = some t := by
      rw [Process.chargeReply_tasks, ht]
    split
    · next charge s₁ heq =>
      rw [heq] at ht'
      refine (h.chargeReply hlane heq).setTask ht' fun weight => ?_
      simp only [RequestTask.holdings, hnone, tally_append, tally_cons, tally_nil, Option.map_none,
        Option.map_some, Option.toList_none, Option.toList_some]
      omega
    · next s₁ heq =>
      rw [heq] at ht'
      obtain rfl := chargeReply_none heq
      refine Balanced.failChannel (h.setTask ht' ?_) _
      exact fun weight => rfl
  · next charge hsome =>
    -- the charge is loose while it is extended
    have hloose : ∀ stage, Balanced
        { s with tasks := s.tasks.set i { t with stage, charge := none } }
          (.charge charge :: loose) := by
      intro stage
      refine h.setTask ht fun weight => ?_
      simp only [RequestTask.holdings, hsome, tally_append, tally_cons, tally_nil, Option.map_none,
        Option.map_some, Option.toList_none, Option.toList_some]
      omega
    split
    · next charge' s₁ heq =>
      have htasks : s₁.tasks = s.tasks := by
        have := Process.tryExtend_tasks s charge bytes
        rwa [heq] at this
      obtain ⟨-, hextended⟩ := (hloose t.stage).tryExtend (Process.tryExtend_withTasks heq _)
      rw [htasks]
      refine hextended.regroup (fun weight => ?_) rfl rfl rfl (Nat.le_refl _) fun _ => Or.inl
      have htaken := tally_set (fun t => tally weight (RequestTask.holdings t)) ht
        { t with charge := none }
      have hput := tally_set (fun t => tally weight (RequestTask.holdings t)) ht
        { t with charge := some charge' }
      simp only [RequestTask.holdings, tally_append, tally_cons, tally_nil, Option.map_none,
        Option.map_some, Option.toList_none, Option.toList_some, tally_holdings] at htaken hput ⊢
      omega
    · next charge' s₁ heq =>
      obtain ⟨rfl, rfl⟩ := tryExtend_false heq
      exact (hloose .done).dropCharge.failChannel _

/-! ## Lanes and channels -/

/-- A channel that opens holds nothing. -/
theorem Balanced.openChannel (h : Balanced s loose) : Balanced (s.openChannel l) loose := by
  have hsame : ∀ weight, tally weight (loose ++ (s.openChannel l).holdings) =
      tally weight (loose ++ s.holdings) := by
    intro weight
    simp [tally_holdings, Process.openChannel, Process.modifyLane, ChannelInner.holdings,
      historyPermits]
  -- nothing was delivered to a channel that was not opened
  have hnone : tally (Holding.onChannel s.channels.length) (loose ++ s.holdings) = 0 := by
    refine tally_eq_zero fun x hx => ?_
    have := h.sound x hx
    cases x with
    | permit => rfl
    | charge => rfl
    | delivered x =>
      simp only [Holding.Sound] at this
      simp [Holding.onChannel, Nat.ne_of_lt this]
  have hlanes : ∀ k, ((s.openChannel l).lanes k).replyBytes = (s.lanes k).replyBytes := by
    intro k
    simp only [Process.openChannel, Process.modifyLane, Function.update_apply]
    split
    · next heq => rw [heq]
    · rfl
  have hget := Process.channel?_openChannel s l
  refine ⟨h.covers.congr fun weight => ?_, fun k => ?_, fun k => hlanes k ▸ h.laneMax k,
    fun d other hother => ?_, fun d other hother => ?_, fun x hx => ?_,
    fun d other hother => ?_, h.held⟩
  · simp only [tally_flatMap, hsame]
  · rw [hlanes, hsame]
    exact h.lane k
  · rw [hsame]
    rw [hget] at hother
    split at hother
    · next heq =>
      obtain rfl := Option.some.inj hother
      rw [← heq, hnone]
    · exact h.channel d other hother
  · rw [hget] at hother
    split at hother
    · obtain rfl := Option.some.inj hother
      exact Nat.zero_le _
    · exact h.channelMax d other hother
  · exact (h.sound x (mem_of_tally_eq hsame hx)).mono (Nat.le_refl _)
      (Process.openChannel_length s l ▸ Nat.le_succ _)
  · rw [hget] at hother
    split at hother
    · obtain rfl := Option.some.inj hother
      simp
    · exact h.queued d other hother

/-- A channel is dropped with its history and its queue. -/
theorem Balanced.dropChannel (h : Balanced s loose) (hch : s.channel? c = some ch) :
    Balanced (s.dropChannel c ch) loose := by
  have htaken : Balanced { s with channels := s.channels.set c none }
      ((historyPermits ch.state.history).map .permit ++
        (ch.replies.flatMap (·.holdings) ++ loose)) := by
    refine h.congr (fun weight => ?_) rfl (fun _ => rfl)
      (fun d other hother => ⟨other, (Process.channel?_set_none hother).1, rfl, fun _ => Or.inl⟩)
      (fun _ => Or.inl) (Nat.le_refl _) (Nat.le_of_eq List.length_set.symm)
    have := tally_set (fun ch => tally weight (ch.elim [] ChannelInner.holdings))
      (Process.channel?_eq_some.mp hch) none
    simp only [Option.elim_some, Option.elim_none, tally_nil, ChannelInner.holdings,
      tally_append] at this
    simp only [tally_append, tally_holdings]
    omega
  exact Balanced.dropReplies htaken.dropPermits

/-- Channels that fail together touch no account. -/
theorem Balanced.failChannels (h : Balanced s loose) (channels : List Nat) (terminal : Terminal) :
    Balanced (channels.foldl (fun s c => s.failChannel c terminal) s) loose := by
  induction channels generalizing s with
  | nil => exact h
  | cons c channels ih => exact ih (h.failChannel terminal)

/-! ## Every step -/

/-- Every step keeps the balance. -/
theorem Balanced.step {a : ProcessAction} (h : Balanced s []) (hwired : Wired s)
    (hstep : s.step a = some s') : Balanced s' [] := by
  cases a with
  | tick elapsed =>
    obtain rfl := Option.some.inj hstep
    exact h.regroup (fun _ => rfl) rfl rfl rfl (Nat.le_refl _) fun _ => Or.inl
  | openLane =>
    obtain rfl := Option.some.inj hstep
    exact h.regroup (fun _ => rfl) rfl rfl rfl (Nat.le_succ _) fun _ => Or.inl
  | openChannel l =>
    simp only [Process.step] at hstep
    split at hstep
    · obtain rfl := Option.some.inj hstep
      exact h.openChannel
    · cases hstep
  | dropChannel c =>
    obtain ⟨ch, hch, hstep⟩ := Option.bind_eq_some_iff.mp hstep
    split at hstep
    · obtain rfl := Option.some.inj hstep
      exact h.dropChannel hch
    · cases hstep
  | closeLane l clear =>
    simp only [Process.step] at hstep
    split at hstep
    · obtain rfl := Option.some.inj hstep
      simp only [Process.closeLane]
      refine Balanced.modifyLane ((h.failChannels _ _).abortTasks _) ?_
      exact fun _ => rfl
    · cases hstep
  | fail c terminal =>
    obtain ⟨ch, hch, rfl⟩ := Option.map_eq_some_iff.mp hstep
    exact h.failChannel _
  | terminate c =>
    obtain ⟨ch, hch, hstep⟩ := Option.bind_eq_some_iff.mp hstep
    obtain ⟨terminal, hfailing, rfl⟩ := Option.map_eq_some_iff.mp hstep
    refine Balanced.abortTasks (h.withHistory hch ?_ ?_ fun permits hcovers => ?_) _
    · rfl
    · rfl
    · exact hcovers.drops
  | reserve c bytes =>
    obtain ⟨ch, hch, hstep⟩ := Option.bind_eq_some_iff.mp hstep
    split at hstep
    · cases hstep
    · obtain rfl := Option.some.inj hstep
      have hwaiting : Balanced (s.setChannel c { ch with
          state := { ch.state with waitingUpload := some (s.clock, bytes) } }) [] :=
        h.setChannel hch rfl rfl rfl
      refine hwaiting.regroup (fun weight => ?_) rfl rfl rfl (Nat.le_refl _) fun _ => Or.inl
      simp [tally_holdings, Process.setChannel, Reservation.holdings, Reservation.permits]
  | acquired i =>
    obtain ⟨r, hr, hstep⟩ := Option.bind_eq_some_iff.mp hstep
    exact h.acquireNext hr hstep
  | refused i =>
    obtain ⟨r, hr, hstep⟩ := Option.bind_eq_some_iff.mp hstep
    split at hstep
    · cases hstep
    · obtain rfl := Option.some.inj hstep
      exact (h.release hr).modifyState fun _ => ⟨rfl, rfl⟩
  | cancelled i =>
    obtain ⟨r, hr, rfl⟩ := Option.map_eq_some_iff.mp hstep
    exact h.release hr
  | sendReserved i body =>
    obtain ⟨r, hr, hstep⟩ := Option.bind_eq_some_iff.mp hstep
    split at hstep
    · next capacity hstage =>
      split at hstep
      · obtain rfl := Option.some.inj hstep
        have htaken := h.takeReservation hr
        simp only [Reservation.holdings, Reservation.permits, hstage] at htaken
        exact htaken.launch
      · cases hstep
    · cases hstep
  | sweep c =>
    obtain ⟨ch, hch, rfl⟩ := Option.map_eq_some_iff.mp hstep
    refine h.withHistory (recovering_some hch).1 ?_ ?_ fun permits hcovers => ?_
    · rfl
    · rfl
    · exact hcovers.sweep
  | makeRoom c =>
    obtain ⟨bytes, -, rfl⟩ := Option.map_eq_some_iff.mp hstep
    exact h.makeRoom
  | rotate c =>
    obtain ⟨ch, hch, rfl⟩ := Option.map_eq_some_iff.mp hstep
    split
    · exact h.abortTasks _
    · exact h
  | replay c =>
    obtain ⟨ch, hch, rfl⟩ := Option.map_eq_some_iff.mp hstep
    split
    · exact h.tryReplay
    · exact h
  | markStarted i generation =>
    obtain ⟨t, ht, rfl⟩ := Option.map_eq_some_iff.mp hstep
    exact (h.setStage (Option.filter_eq_some_iff.mp ht).1 _).modifyState fun _ => ⟨rfl, rfl⟩
  | markSent i =>
    obtain ⟨t, ht, rfl⟩ := Option.map_eq_some_iff.mp hstep
    exact (h.setStage (Option.filter_eq_some_iff.mp ht).1 _).modifyState fun _ => ⟨rfl, rfl⟩
  | markReceiving i =>
    obtain ⟨t, ht, rfl⟩ := Option.map_eq_some_iff.mp hstep
    exact (h.setStage (Option.filter_eq_some_iff.mp ht).1 _).modifyState fun _ => ⟨rfl, rfl⟩
  | charged i bytes =>
    obtain ⟨t, ht, rfl⟩ := Option.map_eq_some_iff.mp hstep
    have ht' := (Option.filter_eq_some_iff.mp ht).1
    exact h.charge ht' (hwired.task t (List.mem_of_getElem? ht')).lane
  | finished i outcome =>
    obtain ⟨t, ht, hstep⟩ := Option.bind_eq_some_iff.mp hstep
    exact h.finish (Option.filter_eq_some_iff.mp ht).1 hstep
  | taskDropped i =>
    obtain ⟨t, ht, rfl⟩ := Option.map_eq_some_iff.mp hstep
    exact (h.takeTask (Option.filter_eq_some_iff.mp ht).1).dropTask
  | receive c =>
    obtain ⟨ch, hch, hstep⟩ := Option.bind_eq_some_iff.mp hstep
    split at hstep
    · obtain rfl := Option.some.inj hstep
      exact h.setChannel hch rfl rfl rfl
    · next reply replies _ hreplies =>
      obtain rfl := Option.some.inj hstep
      have hpopped : Balanced (s.setChannel c { ch with replies }) (reply.holdings ++ []) := by
        refine h.moveChannel hch ?_ (fun other hother => Or.inl ?_) fun weight => ?_
        · rfl
        · exact hreplies ▸ List.mem_cons_of_mem _ hother
        · simp only [ChannelInner.holdings, hreplies, List.flatMap_cons, tally_append, tally_nil]
          omega
      have hdelivered : reply.DeliveredTo c :=
        h.queued c ch hch reply (hreplies ▸ List.mem_cons_self ..)
      refine hpopped.regroup (fun weight => ?_) rfl rfl rfl (Nat.le_refl _) fun other hother => ?_
      rotate_left
      · rcases List.mem_append.mp hother with hother | hother
        · exact Or.inl hother
        · exact Or.inr ⟨c, List.mem_singleton.mp hother ▸ hdelivered⟩
      simp only [tally_append, tally_holdings, tally_cons, tally_nil, Process.setChannel]
      omega
    · cases hstep
  | replyDropped i =>
    obtain ⟨reply, hreply, rfl⟩ := Option.map_eq_some_iff.mp hstep
    have htaken : Balanced { s with held := s.held.eraseIdx i } (reply.holdings ++ []) := by
      refine h.regroup (fun weight => ?_) rfl rfl rfl (Nat.le_refl _) fun other hother =>
        Or.inl ((List.eraseIdx_sublist ..).subset hother)
      have := tally_eraseIdx (fun reply => tally weight (BufferedReply.holdings reply)) hreply
      simp only [tally_append, tally_holdings, tally_nil]
      omega
    exact htaken.dropReply
  | nativeWrite c pending =>
    obtain ⟨ch, hch, rfl⟩ := Option.map_eq_some_iff.mp hstep
    exact h.modifyState fun _ => ⟨rfl, rfl⟩
  | progress c =>
    obtain ⟨ch, hch, rfl⟩ := Option.map_eq_some_iff.mp hstep
    exact h.modifyState fun _ => ⟨rfl, rfl⟩

/-- Every reachable process is balanced. -/
theorem balanced (h : processSystem.Reachable s) : Balanced s [] := by
  have hstart : ∀ s, processSystem.start s → Balanced s [] := by
    intro s hs
    obtain ⟨heq, hzero⟩ := hs
    have hnothing : s.holdings = [] := by
      rw [heq]
      rfl
    refine ⟨⟨fun id => ?_, fun id => ?_, fun id => ?_, fun id => ?_⟩, fun l => ?_, fun l => ?_,
      fun c ch hch => ?_, fun c ch hch => ?_, fun x hx => ?_, fun c ch hch => ?_,
      fun reply hreply => ?_⟩
    · simp [hnothing, hzero]
    · simp [hnothing, hzero]
    · simp [hzero]
    · simp [hzero]
    · rw [hnothing, heq]
      rfl
    · rw [heq]
      exact Nat.zero_le _
    · rw [heq] at hch
      simp [Process.channel?] at hch
    · rw [heq] at hch
      simp [Process.channel?] at hch
    · simp [hnothing] at hx
    · rw [heq] at hch
      simp [Process.channel?] at hch
    · rw [heq] at hreply
      cases hreply
  exact System.Reachable.strengthen (fun s hs => wired hs) hstart
    (fun s a t hwired h hstep => Balanced.step h hwired hstep) h

end TgWsProxy.H2
