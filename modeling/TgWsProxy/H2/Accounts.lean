import TgWsProxy.H2.LedgerSteps

/-!
# What the accounts say

The ledger read off for requests, histories and replies: the budgets of every reachable
process are charged for exactly what is alive.
-/

namespace TgWsProxy.H2

open TgWsProxy.Core

namespace Process

/-- The permits of reservations and requests. -/
def requestPermits (s : Process) : List BudgetPermit :=
  s.reservations.flatMap (·.permits) ++ s.tasks.flatMap (·.guard.permits)

/-- The permits of all histories. -/
def allHistoryPermits (s : Process) : List BudgetPermit :=
  s.channels.flatMap fun ch => ch.elim [] fun ch => historyPermits ch.state.history

/-- The charges of all replies, being received, queued or held. -/
def charges (s : Process) : List ReplyCharge :=
  s.tasks.flatMap (·.charge.toList) ++
    s.channels.flatMap (fun ch => ch.elim [] fun ch => ch.replies.map (·.laneCharge)) ++
    s.held.map (·.laneCharge)

/-- The replies that were delivered and are not yet dropped. -/
def replies (s : Process) : List BufferedReply :=
  s.channels.flatMap (fun ch => ch.elim [] (·.replies)) ++ s.held

/-- Every permit alive. -/
def permits (s : Process) : List BudgetPermit :=
  s.requestPermits ++ s.allHistoryPermits ++ s.charges.map (·.global)

end Process

/-- The length of a reply on the channel it was delivered to. -/
def BufferedReply.deliveredOn (c : Nat) (reply : BufferedReply) : Nat :=
  if reply.channelCharge.any (·.channel = c) then reply.length else 0

variable {s s' : Process} {c l : Nat} {ch : ChannelInner}

/-! ## Holdings by kind -/

private theorem tally_reply_permits (weight : BudgetPermit → Nat) (reply : BufferedReply) :
    tally (fun x => tally weight (Holding.permits x)) reply.holdings =
      weight reply.laneCharge.global := by
  cases hcharge : reply.channelCharge with
  | none => simp [BufferedReply.holdings, hcharge, Holding.permits]
  | some charge => simp [BufferedReply.holdings, hcharge, Holding.permits]

/-- The permits of all holdings are those of requests, histories and replies. -/
theorem tally_permits (weight : BudgetPermit → Nat) :
    tally weight (s.holdings.flatMap (·.permits)) = tally weight s.permits := by
  have hpermits : ∀ permits : List BudgetPermit,
      tally (fun x => tally weight (Holding.permits x)) (permits.map .permit) =
        tally weight permits :=
    fun permits => by simp [tally_map, Holding.permits]
  have hcharge : ∀ charge : Option ReplyCharge,
      tally (fun x => tally weight (Holding.permits x)) (charge.map Holding.charge).toList =
        tally (fun charge => weight charge.global) charge.toList := fun charge => by
    cases charge <;> simp [Holding.permits]
  have hchannel : ∀ ch : Option ChannelInner,
      tally (fun x => tally weight (Holding.permits x)) (ch.elim [] ChannelInner.holdings) =
        tally weight (ch.elim [] fun ch => historyPermits ch.state.history) +
          tally (fun charge => weight charge.global)
            (ch.elim [] fun ch => ch.replies.map (·.laneCharge)) := fun ch => by
    cases ch with
    | none => simp
    | some ch =>
      simp [ChannelInner.holdings, tally_flatMap, hpermits, tally_map, tally_reply_permits]
  simp only [tally_flatMap, tally_holdings, Reservation.holdings, RequestTask.holdings, hpermits,
    tally_append, hcharge, hchannel, tally_reply_permits, Process.permits, Process.requestPermits,
    Process.allHistoryPermits, Process.charges, tally_map, ← tally_add]
  omega

/-- The reply charge of a holding. -/
def Holding.charges : Holding → List ReplyCharge
  | .charge x => [x]
  | _ => []

private theorem tally_reply_charges (weight : ReplyCharge → Nat) (reply : BufferedReply) :
    tally (fun x => tally weight (Holding.charges x)) reply.holdings = weight reply.laneCharge := by
  cases hcharge : reply.channelCharge with
  | none => simp [BufferedReply.holdings, hcharge, Holding.charges]
  | some charge => simp [BufferedReply.holdings, hcharge, Holding.charges]

/-- The charges of all holdings are those of the replies. -/
theorem tally_charges (weight : ReplyCharge → Nat) :
    tally weight (s.holdings.flatMap (·.charges)) = tally weight s.charges := by
  have hpermits : ∀ permits : List BudgetPermit,
      tally (fun x => tally weight (Holding.charges x)) (permits.map .permit) = 0 :=
    fun permits => by simp [tally_map, Holding.charges]
  have hcharge : ∀ charge : Option ReplyCharge,
      tally (fun x => tally weight (Holding.charges x)) (charge.map Holding.charge).toList =
        tally weight charge.toList := fun charge => by
    cases charge <;> simp [Holding.charges]
  have hchannel : ∀ ch : Option ChannelInner,
      tally (fun x => tally weight (Holding.charges x)) (ch.elim [] ChannelInner.holdings) =
        tally weight (ch.elim [] fun ch => ch.replies.map (·.laneCharge)) := fun ch => by
    cases ch with
    | none => simp
    | some ch =>
      simp [ChannelInner.holdings, tally_flatMap, hpermits, tally_map, tally_reply_charges]
  simp only [tally_flatMap, tally_holdings, Reservation.holdings, RequestTask.holdings, hpermits,
    tally_append, hcharge, hchannel, tally_reply_charges, Process.charges, tally_map, tally_zero,
    Nat.zero_add]

/-- What a channel is charged for is the replies delivered to it. -/
theorem Balanced.tally_delivered (h : Balanced s []) :
    tally (Holding.onChannel c) s.holdings = tally (BufferedReply.deliveredOn c) s.replies := by
  have hpermits : ∀ permits : List BudgetPermit,
      tally (Holding.onChannel c) (permits.map .permit) = 0 :=
    fun permits => by simp [tally_map, Holding.onChannel]
  have hcharge : ∀ charge : Option ReplyCharge,
      tally (Holding.onChannel c) (charge.map Holding.charge).toList = 0 := fun charge => by
    cases charge <;> simp [Holding.onChannel]
  have hreply : ∀ (d : Nat) (reply : BufferedReply), reply.DeliveredTo d →
      tally (Holding.onChannel c) reply.holdings = reply.deliveredOn c := by
    intro d reply hdelivered
    simp only [BufferedReply.DeliveredTo] at hdelivered
    simp [BufferedReply.holdings, hdelivered, Holding.onChannel, BufferedReply.deliveredOn]
  have hheld :
      tally (fun reply => tally (Holding.onChannel c) (BufferedReply.holdings reply)) s.held =
      tally (BufferedReply.deliveredOn c) s.held := tally_congr fun reply hmem => by
    obtain ⟨d, hdelivered⟩ := h.held reply hmem
    exact hreply d reply hdelivered
  have hchannels : tally (fun ch => tally (Holding.onChannel c) (ch.elim [] ChannelInner.holdings))
      s.channels = tally (fun ch => tally (BufferedReply.deliveredOn c) (ch.elim [] (·.replies)))
        s.channels := tally_congr fun ch hmem => by
    cases ch with
    | none => rfl
    | some ch =>
      obtain ⟨d, hd⟩ := List.getElem?_of_mem hmem
      simp only [Option.elim_some, ChannelInner.holdings, tally_append, hpermits, tally_flatMap,
        Nat.zero_add]
      exact tally_congr fun reply hreplies =>
        hreply d reply (h.queued d ch (Process.channel?_eq_some.mpr hd) reply hreplies)
  simp only [tally_holdings, Reservation.holdings, RequestTask.holdings, tally_append, hpermits,
    hcharge, tally_zero, hchannels, hheld, Process.replies, tally_flatMap]
  omega

/-! ## Permits by budget -/

/-- The budgets of a request's permits. -/
theorem budget_of_requestPermits {channel lane bytes : Nat} {permit : BudgetPermit}
    (h : permit ∈ requestPermits channel lane bytes) :
    permit.budget ≠ .history ∧ permit.budget ≠ .replies := by
  simp only [requestPermits, List.mem_cons, List.not_mem_nil, or_false] at h
  rcases h with rfl | rfl | rfl
  all_goals exact ⟨by simp, by simp⟩

private theorem Wired.budget_requestPermits (h : Wired s) {permit : BudgetPermit}
    (hp : permit ∈ s.requestPermits) : permit.budget ≠ .history ∧ permit.budget ≠ .replies := by
  rcases List.mem_append.mp hp with hp | hp
  · obtain ⟨r, hr, hp⟩ := List.mem_flatMap.mp hp
    exact budget_of_requestPermits ((h.reservation r hr).permits.subset hp)
  · obtain ⟨t, ht, hp⟩ := List.mem_flatMap.mp hp
    obtain ⟨bytes, -, heq⟩ := (h.task t ht).permits
    exact budget_of_requestPermits (heq ▸ hp)

private theorem Wired.budget_historyPermits (h : Wired s) {permit : BudgetPermit}
    (hp : permit ∈ s.allHistoryPermits) : permit.budget = .history := by
  obtain ⟨ch, hch, hp⟩ := List.mem_flatMap.mp hp
  cases ch with
  | none => cases hp
  | some ch =>
    obtain ⟨d, hd⟩ := List.getElem?_of_mem hch
    obtain ⟨entry, hentry, rfl⟩ := List.mem_map.mp hp
    rw [(h.valid d ch (Process.channel?_eq_some.mpr hd)).shelved.permits entry hentry]

/-- A charge that is held is one of a lane and holds as much of the global budget. -/
theorem Balanced.mem_charges (h : Balanced s []) {charge : ReplyCharge} (hc : charge ∈ s.charges) :
    charge.lane < s.laneCount ∧ charge.global = ⟨.replies, charge.bytes⟩ := by
  obtain ⟨x, hx, hcharge⟩ := List.mem_flatMap.mp
    (mem_of_tally_eq (fun weight => (tally_charges weight).symm) hc)
  cases x with
  | charge x =>
    obtain rfl := List.mem_singleton.mp hcharge
    exact h.sound _ (by simpa using hx)
  | permit => cases hcharge
  | delivered => cases hcharge

/-- A budget does not see the permits of others. -/
theorem tally_other {id : BudgetId} {permits : List BudgetPermit}
    (h : ∀ permit ∈ permits, permit.budget ≠ id) :
    tally (BudgetPermit.count id) permits = 0 ∧ tally (BudgetPermit.size id) permits = 0 :=
  ⟨tally_eq_zero fun permit hp => if_neg (h permit hp),
    tally_eq_zero fun permit hp => if_neg (h permit hp)⟩

private theorem Balanced.budget_charges (h : Balanced s []) {permit : BudgetPermit}
    (hp : permit ∈ s.charges.map (·.global)) : permit.budget = .replies := by
  obtain ⟨charge, hc, rfl⟩ := List.mem_map.mp hp
  rw [(h.mem_charges hc).2]

/-- The budgets cover every permit alive. -/
theorem Balanced.covers_permits (h : Balanced s []) : Covers s.budgets s.permits :=
  h.covers.congr tally_permits

/-! ## Requests -/

/-- The request budgets of a process are exact. -/
structure RequestBudgetsExact (s : Process) : Prop where
  /-- Each budget counts the permits alive on it and their bytes, within its maxima. -/
  covers : Covers s.budgets s.permits
  /-- Permits alive are dropped without clipping, alone or together, in any order. -/
  drops : ∀ group : List BudgetPermit, group.Subperm s.permits → DropsExactly s.budgets group
  /-- So are permits that a step has just taken. -/
  rollsBack : ∀ id₁ id₂ bytes permit₁ permit₂ budgets₁ budgets₂,
    tryAcquire s.budgets id₁ bytes = some (permit₁, budgets₁) → DropsExactly budgets₁ [permit₁] ∧
      (tryAcquire budgets₁ id₂ bytes = some (permit₂, budgets₂) →
        DropsExactly budgets₂ [permit₁, permit₂])
  /-- A permit just extended is shrunk without clipping. -/
  shrinks : ∀ permit bytes permit' budgets,
    tryExtendBytes s.budgets permit bytes = some (permit', budgets) →
      bytes ≤ permit'.bytes ∧ bytes ≤ (budgets permit'.budget).bytes
  /-- A request holds one permit in each of its budgets, all of one size. -/
  task : ∀ t ∈ s.tasks, (∀ ch, s.channel? t.guard.channel = some ch → ch.lane = t.lane) ∧
    ∃ bytes, t.body.length ≤ bytes ∧
      t.guard.permits = requestPermits t.guard.channel t.lane bytes
  /-- Every pending request is such a request. -/
  pending : ∀ c ch, s.channel? c = some ch → ∀ id ∈ ch.state.pending,
    ∃ t ∈ s.tasks, t.guard.channel = c ∧ t.guard.request = id
  /-- A reservation holds the permits it has come to. -/
  reservation : ∀ r ∈ s.reservations, r.permits <+: requestPermits r.channel r.lane r.bytes
  /-- Without reservations and requests the budgets read zero. -/
  idle : s.reservations = [] → s.tasks = [] → ∀ id, id ≠ .history → id ≠ .replies →
    (s.budgets id).requests = 0 ∧ (s.budgets id).bytes = 0

/-- The request budgets are exact in every run. -/
theorem request_budgets_exact (h : processSystem.Reachable s) : RequestBudgetsExact s := by
  have hwired := wired h
  have hbalanced := balanced h
  have hcovers := hbalanced.covers_permits
  refine ⟨hcovers, fun group hsub => hcovers.dropsExactly hsub, ?_, ?_, fun t ht => ?_, ?_,
    fun r hr =>
      (hwired.reservation r hr).permits, fun hreservations htasks id hhistory hreplies => ?_⟩
  · intro id₁ id₂ bytes permit₁ permit₂ budgets₁ budgets₂ hfirst
    have hone := hcovers.acquire hfirst
    refine ⟨hone.dropsExactly (List.singleton_subperm_iff.mpr (List.mem_cons_self ..)),
      fun hsecond => (hone.acquire hsecond).dropsExactly ?_⟩
    exact (List.Perm.swap _ _ _).subperm.trans (List.prefix_append _ s.permits).sublist.subperm
  · intro permit bytes permit' budgets hextend
    simp only [tryExtendBytes] at hextend
    split at hextend
    · cases hextend
    · obtain ⟨rfl, rfl⟩ := Prod.mk.inj (Option.some.inj hextend)
      exact ⟨by simp, by simp⟩
  · exact ⟨(hwired.task t ht).same, (hwired.task t ht).permits⟩
  · exact fun c ch hch id => (hwired.pending c ch hch id).mp
  · have hrequest : s.requestPermits = [] := by simp [Process.requestPermits, hreservations, htasks]
    have hother : ∀ permit ∈ s.permits, permit.budget ≠ id := by
      intro permit hp
      simp only [Process.permits, hrequest, List.nil_append] at hp
      rcases List.mem_append.mp hp with hp | hp
      · exact hwired.budget_historyPermits hp ▸ Ne.symm hhistory
      · exact hbalanced.budget_charges hp ▸ Ne.symm hreplies
    obtain ⟨hcount, hsize⟩ := tally_other hother
    exact ⟨(hcovers.requests id).trans hcount, (hcovers.bytes id).trans hsize⟩

/-- A packet in flight beside a reservation for another one. -/
theorem request_budgets_exact_in_flight : ∃ s : Process,
    s.tasks.length = 1 ∧ s.reservations.length = 1 ∧ RequestBudgetsExact s := by
  obtain ⟨s, hrun, hcheck⟩ := processSystem.exists_of_run Process.initial
    ([.openLane, .openChannel 0] ++ uploadActions 0 0 0 (List.replicate 40 7) ++
      [.reserve 0 100, .acquired 0])
    (fun s => s.tasks.length = 1 ∧ s.reservations.length = 1) (by decide +kernel)
  simp only [decide_eq_true_eq] at hcheck
  exact ⟨s, hcheck.1, hcheck.2,
    request_budgets_exact (.run (.start initial_start) hrun)⟩

/-! ## Histories -/

/-- Every channel keeps its requests and its history consistent, and the history budget is
charged for exactly the packets in all histories. -/
structure HistoriesExact (s : Process) : Prop where
  valid : ∀ c ch, s.channel? c = some ch → ch.state.Valid
  packets : (s.budgets .history).requests =
    tally (fun ch => ch.elim 0 fun ch => ch.state.history.length) s.channels
  bytes : (s.budgets .history).bytes =
    tally (fun ch => ch.elim 0 fun ch => historyBytes ch.state.history) s.channels

/-- The histories and their budget are exact in every run. -/
theorem histories_exact (h : processSystem.Reachable s) : HistoriesExact s := by
  have hwired := wired h
  have hbalanced := balanced h
  have hcovers := hbalanced.covers_permits
  have hrequests : ∀ permit ∈ s.requestPermits, permit.budget ≠ .history :=
    fun permit hp => (hwired.budget_requestPermits hp).1
  have hcharges : ∀ permit ∈ s.charges.map (·.global), permit.budget ≠ .history :=
    fun permit hp => by
    simp [hbalanced.budget_charges hp]
  have hchannel : ∀ ch ∈ s.channels,
      tally (BudgetPermit.count .history) (ch.elim [] fun ch => historyPermits ch.state.history) =
        (ch.elim 0 fun ch => ch.state.history.length) ∧
      tally (BudgetPermit.size .history) (ch.elim [] fun ch => historyPermits ch.state.history) =
        (ch.elim 0 fun ch => historyBytes ch.state.history) := by
    intro ch hch
    cases ch with
    | none => exact ⟨rfl, rfl⟩
    | some ch =>
      obtain ⟨d, hd⟩ := List.getElem?_of_mem hch
      exact (hwired.valid d ch (Process.channel?_eq_some.mpr hd)).shelved.charged
  refine ⟨hwired.valid, ?_, ?_⟩
  · rw [hcovers.requests, Process.permits, tally_append, tally_append, (tally_other hrequests).1,
      (tally_other hcharges).1, Process.allHistoryPermits, tally_flatMap,
      tally_congr fun ch hch => (hchannel ch hch).1]
    omega
  · rw [hcovers.bytes, Process.permits, tally_append, tally_append, (tally_other hrequests).2,
      (tally_other hcharges).2, Process.allHistoryPermits, tally_flatMap,
      tally_congr fun ch hch => (hchannel ch hch).2]
    omega

/-- A history that holds the one packet sent. -/
theorem histories_exact_one_packet : ∃ s : Process,
    (s.budgets .history).bytes = 40 ∧ HistoriesExact s := by
  obtain ⟨s, hrun, hcheck⟩ := processSystem.exists_of_run Process.initial
    ([.openLane, .openChannel 0] ++ uploadActions 0 0 0 (List.replicate 40 7))
    (fun s => (s.budgets .history).bytes = 40) (by decide +kernel)
  exact ⟨s, of_decide_eq_true hcheck, histories_exact (.run (.start initial_start) hrun)⟩

/-! ## Replies -/

/-- Two processes whose counters all read the same. -/
structure SameCounters (s s' : Process) : Prop where
  budgets : s'.budgets = s.budgets
  lanes : ∀ l, (s'.lanes l).replyBytes = (s.lanes l).replyBytes
  channels : ∀ c, (s'.channel? c).map (·.state.replyBytes) = (s.channel? c).map (·.state.replyBytes)

namespace SameCounters

/-- A process has its own counters. -/
theorem refl (s : Process) : SameCounters s s := ⟨rfl, fun _ => rfl, fun _ => rfl⟩

/-- Equal counters, one process to the next. -/
theorem trans {s'' : Process} (h : SameCounters s s') (h' : SameCounters s' s'') :
    SameCounters s s'' :=
  ⟨h'.budgets.trans h.budgets, fun l => (h'.lanes l).trans (h.lanes l),
    fun c => (h'.channels c).trans (h.channels c)⟩

/-- Writing a channel back touches no counter when it keeps its reply bytes. -/
theorem setChannel {ch' : ChannelInner} (hch : s.channel? c = some ch)
    (hbytes : ch'.state.replyBytes = ch.state.replyBytes) :
    SameCounters s (s.setChannel c ch') := by
  refine ⟨rfl, fun _ => rfl, fun d => ?_⟩
  rw [Process.channel?_setChannel hch]
  split
  · next heq => simp [← heq, hch, hbytes]
  · rfl

/-- A channel that fails keeps every counter. -/
theorem failChannel (s : Process) (c : Nat) (terminal : Terminal) :
    SameCounters s (s.failChannel c terminal) := by
  cases hch : s.channel? c with
  | none =>
    rw [Process.failChannel_of_none hch]
    exact refl s
  | some ch =>
    rw [Process.failChannel_of_some hch]
    refine setChannel hch ?_
    simp only [ChannelInner.fail]
    split <;> rfl

/-- A charge that is dropped leaves equal counters equal. -/
theorem dropCharge (h : SameCounters s s') (charge : ReplyCharge) :
    SameCounters (s.dropCharge charge) (s'.dropCharge charge) := by
  refine ⟨?_, fun l => ?_, h.channels⟩
  · change H2.dropPermit s'.budgets charge.global = H2.dropPermit s.budgets charge.global
    rw [h.budgets]
  · simp only [Process.dropCharge, Process.modifyLane, Function.update_apply]
    split
    · dsimp only
      rw [h.lanes]
    · exact h.lanes l

end SameCounters

/-- A reply that is not queued leaves the counters as if it had just been dropped. -/
theorem deliver_or_drop (s : Process) (c request : Nat) {reply : BufferedReply}
    (hnew : reply.channelCharge = none) :
    (∃ ch st, s.channel? c = some ch ∧ st.replyBytes = ch.state.replyBytes + reply.length ∧
      s.deliver c request reply = s.setChannel c { ch with
        state := st
        replies := ch.replies ++ [{ reply with channelCharge := some ⟨c, reply.length⟩ }] }) ∨
    SameCounters (s.dropReply reply) (s.deliver c request reply) := by
  have hdrop : ∀ s : Process, s.dropReply reply = s.dropCharge reply.laneCharge := fun s => by
    simp only [Process.dropReply, hnew]
  simp only [Process.deliver]
  split
  · exact Or.inr (.refl _)
  · next ch hch =>
    split
    · exact Or.inr (.refl _)
    · have hbytes := (noteReply_keeps ch.state request reply.replayId s.clock).2
      generalize ch.state.noteReply request reply.replayId s.clock = st at *
      split
      · have hnoted : SameCounters s (s.setChannel c { ch with state := st }) :=
          .setChannel hch hbytes
        rw [hdrop, hdrop]
        exact Or.inr ((hnoted.trans (.failChannel ..)).dropCharge _)
      · split
        · exact Or.inl ⟨ch, _, hch, congrArg (· + reply.length) hbytes, rfl⟩
        · rw [hdrop]
          refine Or.inr (.trans ?_ (.failChannel ..))
          -- what the channel was charged is taken off again
          let grown : ChannelInner := { ch with
            state := { st with replyBytes := st.replyBytes + reply.length } }
          have hgrown :
              ((s.setChannel c grown).dropCharge reply.laneCharge).channel? c = some grown :=
            (Process.channel?_setChannel hch c).trans (if_pos rfl)
          refine ⟨?_, fun l => ?_, fun d => ?_⟩
          all_goals
            simp only [Process.dropReply]
            rw [Process.modifyState_of_some hgrown]
          · rfl
          · rfl
          · rw [Process.channel?_setChannel hgrown]
            split
            · next heq =>
              subst heq
              have : (s.dropCharge reply.laneCharge).channel? c = some ch := hch
              simp [this, grown, hbytes]
            · next hne =>
              exact congrArg _ ((Process.channel?_setChannel hch d).trans (if_neg hne))

/-- The reply memory of a process is exact. -/
structure ReplyMemoryExact (s : Process) : Prop where
  /-- A lane's counter is the sum of its charges. -/
  lane : ∀ l, (s.lanes l).replyBytes =
    tally (fun charge => if charge.lane = l then charge.bytes else 0) s.charges
  laneMax : ∀ l, (s.lanes l).replyBytes ≤ maxLaneReplyBytes
  /-- The process budget holds the sum over all lanes and counts the charges. -/
  processBytes : (s.budgets .replies).bytes =
    tally (fun l => (s.lanes l).replyBytes) (List.range s.laneCount)
  processRequests : (s.budgets .replies).requests = s.charges.length
  /-- A charge has as many bytes as its process permit. -/
  permit : ∀ charge ∈ s.charges,
    charge.lane < s.laneCount ∧ charge.global = ⟨.replies, charge.bytes⟩
  /-- A channel's counter is the length of the replies delivered to it. -/
  channel : ∀ c ch, s.channel? c = some ch →
    ch.state.replyBytes = tally (BufferedReply.deliveredOn c) s.replies
  channelMax : ∀ c ch, s.channel? c = some ch → ch.state.replyBytes ≤ maxChannelReplyBytes
  /-- What is queued on a channel was delivered to it, and what is held to some channel. -/
  queued : ∀ c ch, s.channel? c = some ch → ∀ reply ∈ ch.replies, reply.DeliveredTo c
  held : ∀ reply ∈ s.held, ∃ c, reply.DeliveredTo c
  /-- A refused charge or extension changes nothing at all. -/
  chargeFails : ∀ l bytes s', s.chargeReply l bytes = (none, s') → s' = s
  extendFails : ∀ charge bytes charge' s',
    s.tryExtend charge bytes = (false, charge', s') → charge' = charge ∧ s' = s
  /-- A reply is queued with its length charged, or the counters are those of dropping it. -/
  deliverFails : ∀ c request reply, reply.channelCharge = none →
    (∃ ch st, s.channel? c = some ch ∧ st.replyBytes = ch.state.replyBytes + reply.length ∧
      s.deliver c request reply = s.setChannel c { ch with
        state := st
        replies := ch.replies ++ [{ reply with channelCharge := some ⟨c, reply.length⟩ }] }) ∨
    SameCounters (s.dropReply reply) (s.deliver c request reply)

/-- The reply memory is exact in every run. -/
theorem reply_memory_exact (h : processSystem.Reachable s) : ReplyMemoryExact s := by
  have hwired := wired h
  have hbalanced := balanced h
  have hlane : ∀ l, (s.lanes l).replyBytes =
      tally (fun charge => if charge.lane = l then charge.bytes else 0) s.charges := by
    intro l
    rw [hbalanced.lane, List.nil_append, ← tally_charges, tally_flatMap]
    refine tally_congr fun x _ => ?_
    cases x <;> simp [Holding.onLane, Holding.charges]
  -- requests and histories take nothing of the reply budget
  have hother : ∀ permit ∈ s.requestPermits ++ s.allHistoryPermits, permit.budget ≠ .replies := by
    intro permit hp
    rcases List.mem_append.mp hp with hp | hp
    · exact (hwired.budget_requestPermits hp).2
    · simp [hwired.budget_historyPermits hp]
  have hcovers := hbalanced.covers_permits
  refine ⟨hlane, hbalanced.laneMax, ?_, ?_, fun charge => hbalanced.mem_charges, fun c ch hch => ?_,
    hbalanced.channelMax, hbalanced.queued, hbalanced.held, fun l bytes s' => chargeReply_none,
    fun charge bytes charge' s' => tryExtend_false,
    fun c request reply => deliver_or_drop s c request⟩
  · simp only [hlane]
    rw [hcovers.bytes, Process.permits, tally_append, (tally_other hother).2,
      tally_range_key ReplyCharge.bytes ReplyCharge.lane, tally_map, Nat.zero_add]
    refine tally_congr fun charge hc => ?_
    obtain ⟨hlt, hglobal⟩ := hbalanced.mem_charges hc
    simp [hglobal, hlt, BudgetPermit.size]
  · have hone : ∀ charge ∈ s.charges, BudgetPermit.count .replies charge.global = 1 :=
      fun charge hc => by
      simp [(hbalanced.mem_charges hc).2, BudgetPermit.count]
    rw [hcovers.requests, Process.permits, tally_append, (tally_other hother).1, tally_map,
      Nat.zero_add, tally_congr hone]
    simp [tally]
  · rw [hbalanced.channel c ch hch, List.nil_append, hbalanced.tally_delivered]

/-- A reply that was charged, delivered and taken from its queue. -/
theorem reply_memory_exact_held : ∃ s : Process, s.held.length = 1 ∧
    (s.budgets .replies).bytes = 8 ∧ ReplyMemoryExact s := by
  obtain ⟨s, hrun, hcheck⟩ := processSystem.exists_of_run Process.initial
    ([.openLane, .openChannel 0] ++ uploadActions 0 0 0 (List.replicate 40 7) ++
      [.markReceiving 0, .charged 0 8, .finished 0 (.reply [List.replicate 8 1]), .taskDropped 0,
        .receive 0])
    (fun s => s.held.length = 1 ∧ (s.budgets .replies).bytes = 8) (by decide +kernel)
  simp only [decide_eq_true_eq] at hcheck
  exact ⟨s, hcheck.1, hcheck.2,
    reply_memory_exact (.run (.start initial_start) hrun)⟩

end TgWsProxy.H2
