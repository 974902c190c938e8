import TgWsProxy.H2.Wiring

/-!
# Exact accounts

Every counter of a process is the sum over what is alive and gives a share of it back
when it is dropped. Within a step a value may be between two owners; `Balanced` lists
these as loose. Each helper is then accounted for by what it takes from the loose
values and what it adds to them.
-/

namespace TgWsProxy.H2

open TgWsProxy.Core

/-- A live value that gives a share back when it is dropped. -/
inductive Holding
  | permit (permit : BudgetPermit)
  | charge (charge : ReplyCharge)
  | delivered (charge : ChannelReplyCharge)

namespace Holding

/-- The permits of a value. -/
def permits : Holding → List BudgetPermit
  | .permit p => [p]
  | .charge x => [x.global]
  | .delivered _ => []

/-- The bytes of a value on a lane. -/
def onLane (l : Nat) : Holding → Nat
  | .charge x => if x.lane = l then x.bytes else 0
  | _ => 0

/-- The bytes of a value on a channel. -/
def onChannel (c : Nat) : Holding → Nat
  | .delivered x => if x.channel = c then x.bytes else 0
  | _ => 0

/-- A charge has a permit of its size, on a lane that exists; a delivered reply has a
channel that was opened. -/
def Sound (lanes channels : Nat) : Holding → Prop
  | .permit _ => True
  | .charge x => x.lane < lanes ∧ x.global = ⟨.replies, x.bytes⟩
  | .delivered x => x.channel < channels

/-- More lanes and channels leave a holding sound. -/
theorem Sound.mono {lanes lanes' channels channels' : Nat} {x : Holding}
    (h : x.Sound lanes channels) (hlanes : lanes ≤ lanes') (hchannels : channels ≤ channels') :
    x.Sound lanes' channels' := by
  cases x with
  | permit => trivial
  | charge => exact ⟨Nat.lt_of_lt_of_le h.1 hlanes, h.2⟩
  | delivered x => exact Nat.lt_of_lt_of_le (show x.channel < channels from h) hchannels

end Holding

def Reservation.holdings (r : Reservation) : List Holding := r.permits.map .permit

def RequestTask.holdings (t : RequestTask) : List Holding :=
  t.guard.permits.map .permit ++ (t.charge.map .charge).toList

def BufferedReply.holdings (reply : BufferedReply) : List Holding :=
  .charge reply.laneCharge :: (reply.channelCharge.map .delivered).toList

def ChannelInner.holdings (ch : ChannelInner) : List Holding :=
  (historyPermits ch.state.history).map .permit ++ ch.replies.flatMap (·.holdings)

/-- Everything alive in a process. -/
def Process.holdings (s : Process) : List Holding :=
  s.reservations.flatMap (·.holdings) ++ s.tasks.flatMap (·.holdings) ++
    s.channels.flatMap (fun ch => ch.elim [] ChannelInner.holdings) ++ s.held.flatMap (·.holdings)

/-- A reply that its channel was charged for in full. -/
def BufferedReply.DeliveredTo (c : Nat) (reply : BufferedReply) : Prop :=
  reply.channelCharge = some ⟨c, reply.length⟩

/-- The counters are exact, with some values loose, and within their maxima. -/
structure Balanced (s : Process) (loose : List Holding) : Prop where
  covers : Covers s.budgets ((loose ++ s.holdings).flatMap (·.permits))
  lane : ∀ l, (s.lanes l).replyBytes = tally (Holding.onLane l) (loose ++ s.holdings)
  laneMax : ∀ l, (s.lanes l).replyBytes ≤ maxLaneReplyBytes
  channel : ∀ c ch, s.channel? c = some ch →
    ch.state.replyBytes = tally (Holding.onChannel c) (loose ++ s.holdings)
  channelMax : ∀ c ch, s.channel? c = some ch → ch.state.replyBytes ≤ maxChannelReplyBytes
  sound : ∀ x ∈ loose ++ s.holdings, x.Sound s.laneCount s.channels.length
  queued : ∀ c ch, s.channel? c = some ch → ∀ reply ∈ ch.replies, reply.DeliveredTo c
  held : ∀ reply ∈ s.held, ∃ c, reply.DeliveredTo c

variable {s s' : Process} {loose loose' : List Holding} {c d l : Nat} {ch ch' : ChannelInner}
  {weight : Holding → Nat}

/-! ## Where the values are -/

/-- What a process holds, by where it is held. -/
theorem tally_holdings : tally weight s.holdings =
    tally (fun r => tally weight r.holdings) s.reservations +
      tally (fun t => tally weight t.holdings) s.tasks +
      tally (fun ch => tally weight (ch.elim [] ChannelInner.holdings)) s.channels +
      tally (fun reply => tally weight reply.holdings) s.held := by
  simp only [Process.holdings, tally_append, tally_flatMap]

/-- Writing a channel back exchanges its holdings. -/
theorem tally_setChannel (weight : Holding → Nat) (ch' : ChannelInner)
    (h : s.channel? c = some ch) :
    tally weight (s.setChannel c ch').holdings + tally weight ch.holdings =
      tally weight s.holdings + tally weight ch'.holdings := by
  have := tally_set (fun ch => tally weight (ch.elim [] ChannelInner.holdings))
    (Process.channel?_eq_some.mp h) (some ch')
  simp only [Option.elim_some] at this
  simp only [tally_holdings, Process.setChannel]
  omega

/-- Values may change places. -/
theorem Balanced.congr (h : Balanced s loose)
    (hsame : ∀ weight, tally weight (loose ++ s.holdings) = tally weight (loose' ++ s'.holdings))
    (hbudgets : s'.budgets = s.budgets)
    (hlanes : ∀ l, (s'.lanes l).replyBytes = (s.lanes l).replyBytes)
    (hchannels : ∀ c ch', s'.channel? c = some ch' →
      ∃ ch, s.channel? c = some ch ∧ ch'.state.replyBytes = ch.state.replyBytes ∧
        ∀ reply ∈ ch'.replies, reply ∈ ch.replies ∨ reply.DeliveredTo c)
    (hheld : ∀ reply ∈ s'.held, reply ∈ s.held ∨ ∃ c, reply.DeliveredTo c)
    (hcount : s.laneCount ≤ s'.laneCount) (hlength : s.channels.length ≤ s'.channels.length) :
    Balanced s' loose' where
  covers := by
    rw [hbudgets]
    exact h.covers.congr fun weight => by simpa only [tally_flatMap] using hsame _
  lane l := by rw [hlanes, h.lane, hsame]
  laneMax l := hlanes l ▸ h.laneMax l
  channel c ch' hch' := by
    obtain ⟨ch, hch, heq, -⟩ := hchannels c ch' hch'
    rw [heq, h.channel c ch hch, hsame]
  channelMax c ch' hch' := by
    obtain ⟨ch, hch, heq, -⟩ := hchannels c ch' hch'
    exact heq ▸ h.channelMax c ch hch
  sound x hx :=
    (h.sound x (mem_of_tally_eq (fun weight => (hsame weight).symm) hx)).mono hcount hlength
  queued c ch' hch' reply hreply := by
    obtain ⟨ch, hch, -, hreplies⟩ := hchannels c ch' hch'
    exact (hreplies reply hreply).elim (h.queued c ch hch reply) id
  held reply hreply := (hheld reply hreply).elim (h.held reply) id

/-- Only reservations, tasks and held replies change hands with loose values. -/
theorem Balanced.regroup (h : Balanced s loose)
    (hsame : ∀ weight, tally weight (loose ++ s.holdings) = tally weight (loose' ++ s'.holdings))
    (hbudgets : s'.budgets = s.budgets) (hlanes : s'.lanes = s.lanes)
    (hchannels : s'.channels = s.channels) (hcount : s.laneCount ≤ s'.laneCount)
    (hheld : ∀ reply ∈ s'.held, reply ∈ s.held ∨ ∃ c, reply.DeliveredTo c) :
    Balanced s' loose' :=
  h.congr hsame hbudgets (fun _ => by rw [hlanes])
    (fun c ch hch => ⟨ch, by rwa [Process.channel?, hchannels] at hch, rfl, fun _ => Or.inl⟩) hheld
    hcount (by rw [hchannels])

/-- A channel changes hands with loose values. -/
theorem Balanced.moveChannel (h : Balanced s loose) (hch : s.channel? c = some ch)
    (hbytes : ch'.state.replyBytes = ch.state.replyBytes)
    (hreplies : ∀ reply ∈ ch'.replies, reply ∈ ch.replies ∨ reply.DeliveredTo c)
    (hsame : ∀ weight, tally weight loose + tally weight ch.holdings =
      tally weight loose' + tally weight ch'.holdings) : Balanced (s.setChannel c ch') loose' := by
  refine h.congr (fun weight => ?_) rfl (fun _ => rfl) (fun d other hother => ?_) (fun _ => Or.inl)
    (Nat.le_refl _) (Nat.le_of_eq Process.setChannel_length.symm)
  · have := tally_setChannel weight ch' hch
    have := hsame weight
    simp only [tally_append]
    omega
  · rw [Process.channel?_setChannel hch] at hother
    split at hother
    · next heq =>
      obtain rfl := Option.some.inj hother
      exact ⟨ch, heq ▸ hch, hbytes, heq ▸ hreplies⟩
    · exact ⟨other, hother, rfl, fun _ => Or.inl⟩

/-- A channel may change in what it does not hold. -/
theorem Balanced.setChannel (h : Balanced s loose) (hch : s.channel? c = some ch)
    (hpermits : historyPermits ch'.state.history = historyPermits ch.state.history)
    (hreplies : ch'.replies = ch.replies) (hbytes : ch'.state.replyBytes = ch.state.replyBytes) :
    Balanced (s.setChannel c ch') loose :=
  h.moveChannel hch hbytes (fun _ hreply => Or.inl (hreplies ▸ hreply)) fun weight => by
    simp only [ChannelInner.holdings, hpermits, hreplies]

/-- A channel whose permits and reply bytes stay keeps the balance. -/
theorem Balanced.modifyState (h : Balanced s loose) {f : ChannelState → ChannelState}
    (hf : ∀ st, historyPermits (f st).history = historyPermits st.history ∧
      (f st).replyBytes = st.replyBytes) : Balanced (s.modifyState c f) loose := by
  cases hc : s.channel? c with
  | none => rwa [Process.modifyState_of_none hc]
  | some ch =>
    rw [Process.modifyState_of_some hc]
    exact h.setChannel hc (hf ch.state).1 rfl (hf ch.state).2

/-- A failure touches no account. -/
theorem Balanced.failChannel (h : Balanced s loose) (terminal : Terminal) :
    Balanced (s.failChannel c terminal) loose := by
  cases hc : s.channel? c with
  | none => rwa [Process.failChannel_of_none hc]
  | some ch =>
    rw [Process.failChannel_of_some hc]
    refine h.setChannel hc ?_ ?_ ?_
    all_goals
      simp only [ChannelInner.fail]
      split <;> rfl

/-- A task that is told to stop still holds what it has. -/
theorem Balanced.abortTasks (h : Balanced s loose) (p : RequestTask → Bool) :
    Balanced (s.abortTasks p) loose := by
  refine h.regroup (fun weight => ?_) rfl rfl rfl (Nat.le_refl _) fun _ => Or.inl
  simp only [tally_append, tally_holdings, Process.abortTasks, tally_map]
  congr 4
  refine tally_congr fun t _ => ?_
  split <;> rfl

/-- A lane whose reply bytes stay keeps the balance. -/
theorem Balanced.modifyLane (h : Balanced s loose) {f : Lane → Lane}
    (hf : ∀ lane, (f lane).replyBytes = lane.replyBytes) : Balanced (s.modifyLane l f) loose := by
  refine h.congr (fun _ => rfl) rfl (fun d => ?_) (fun _ ch hch => ⟨ch, hch, rfl, fun _ => Or.inl⟩)
    (fun _ => Or.inl) (Nat.le_refl _) (Nat.le_refl _)
  simp only [Process.modifyLane, Function.update_apply]
  split
  · next heq => rw [hf, heq]
  · rfl

/-! ## Permits -/

/-- Budgets and loose permits change together. -/
theorem Balanced.withBudgets (h : Balanced s loose) {budgets : Budgets}
    (hcovers : Covers budgets ((loose' ++ s.holdings).flatMap (·.permits)))
    (hlane : ∀ l, tally (Holding.onLane l) loose' = tally (Holding.onLane l) loose)
    (hchannel : ∀ c, tally (Holding.onChannel c) loose' = tally (Holding.onChannel c) loose)
    (hsound : ∀ x ∈ loose', x.Sound s.laneCount s.channels.length) :
    Balanced { s with budgets } loose' where
  covers := hcovers
  lane l := by
    have := h.lane l
    rw [tally_append] at this ⊢
    rw [hlane]
    exact this
  laneMax := h.laneMax
  channel c ch hch := by
    have := h.channel c ch hch
    rw [tally_append] at this ⊢
    rw [hchannel]
    exact this
  channelMax := h.channelMax
  sound x hx := by
    rcases List.mem_append.mp hx with hx | hx
    · exact hsound x hx
    · exact h.sound x (List.mem_append_right _ hx)
  queued := h.queued
  held := h.held

private theorem Balanced.sound_loose (h : Balanced s loose) {x : Holding} (hx : x ∈ loose) :
    x.Sound s.laneCount s.channels.length :=
  h.sound x (List.mem_append_left _ hx)

/-- A permit that is acquired is held. -/
theorem Balanced.acquire (h : Balanced s loose) {id : BudgetId} {bytes : Nat}
    {permit : BudgetPermit} {budgets : Budgets}
    (ha : tryAcquire s.budgets id bytes = some (permit, budgets)) :
    Balanced { s with budgets } (.permit permit :: loose) := by
  refine h.withBudgets ?_ (fun l => ?_) (fun c => ?_) fun x hx => ?_
  · exact h.covers.acquire ha
  · simp [Holding.onLane]
  · simp [Holding.onChannel]
  · rcases List.mem_cons.mp hx with rfl | hx
    · trivial
    · exact h.sound_loose hx

/-- Loose permits are exchanged for others, as the budgets are. -/
theorem Balanced.exchange {before after : List BudgetPermit} {budgets : Budgets}
    (h : Balanced s (before.map .permit ++ loose))
    (hcovers : ∀ permits, Covers s.budgets (before ++ permits) →
      Covers budgets (after ++ permits)) :
    Balanced { s with budgets } (after.map .permit ++ loose) := by
  have hpermits : ∀ permits : List BudgetPermit,
      (permits.map Holding.permit).flatMap (·.permits) = permits := fun permits => by
    simp [List.flatMap_map, Holding.permits]
  refine h.withBudgets ?_ (fun l => ?_) (fun c => ?_) fun x hx => ?_
  · have hbefore := h.covers
    rw [List.append_assoc, List.flatMap_append, hpermits] at hbefore ⊢
    exact hcovers _ hbefore
  · simp [tally_map, Holding.onLane]
  · simp [tally_map, Holding.onChannel]
  · rcases List.mem_append.mp hx with hx | hx
    · obtain ⟨permit, -, rfl⟩ := List.mem_map.mp hx
      trivial
    · exact h.sound_loose (List.mem_append_right _ hx)

/-- Permits that are dropped go back to their budgets. -/
theorem Balanced.dropPermits {permits : List BudgetPermit}
    (h : Balanced s (permits.map .permit ++ loose)) :
    Balanced { s with budgets := dropPermits s.budgets permits } loose := by
  have hdropped : Balanced { s with budgets := H2.dropPermits s.budgets permits }
      (([] : List BudgetPermit).map .permit ++ loose) := h.exchange fun _ hcovers => hcovers.drops
  exact hdropped

/-- A permit that is dropped goes back to its budget. -/
theorem Balanced.dropOne {permit : BudgetPermit} (h : Balanced s (.permit permit :: loose)) :
    Balanced { s with budgets := H2.dropPermits s.budgets [permit] } loose :=
  Balanced.dropPermits h

/-! ## Reply memory -/

/-- Two loose lists with the same values. -/
theorem Balanced.reorder (h : Balanced s loose)
    (hsame : ∀ weight, tally weight loose = tally weight loose') : Balanced s loose' :=
  h.regroup (fun weight => by simp only [tally_append, hsame]) rfl rfl rfl (Nat.le_refl _)
    fun _ => Or.inl

/-- A lane's counter and the loose charges change together. -/
theorem Balanced.withLane (h : Balanced s loose) {budgets : Budgets} {bytes : Nat}
    (hcovers : Covers budgets ((loose' ++ s.holdings).flatMap (·.permits)))
    (hlane : bytes + tally (Holding.onLane l) loose =
      (s.lanes l).replyBytes + tally (Holding.onLane l) loose')
    (hmax : bytes ≤ maxLaneReplyBytes)
    (hother : ∀ k, k ≠ l → tally (Holding.onLane k) loose' = tally (Holding.onLane k) loose)
    (hchannel : ∀ c, tally (Holding.onChannel c) loose' = tally (Holding.onChannel c) loose)
    (hsound : ∀ x ∈ loose', x.Sound s.laneCount s.channels.length) :
    Balanced ({ s with budgets }.modifyLane l fun lane => { lane with replyBytes := bytes })
      loose' where
  covers := hcovers
  lane k := by
    have hk := h.lane k
    rw [tally_append] at hk ⊢
    simp only [Process.modifyLane, Function.update_apply]
    split
    · next heq =>
      subst heq
      change bytes = tally (Holding.onLane k) loose' + tally (Holding.onLane k) s.holdings
      omega
    · next hne =>
      rw [hother k hne]
      exact hk
  laneMax k := by
    simp only [Process.modifyLane, Function.update_apply]
    split
    · exact hmax
    · exact h.laneMax k
  channel c ch hch := by
    have := h.channel c ch hch
    rw [tally_append] at this ⊢
    rw [hchannel]
    exact this
  channelMax := h.channelMax
  sound x hx := by
    rcases List.mem_append.mp hx with hx | hx
    · exact hsound x hx
    · exact h.sound x (List.mem_append_right _ hx)
  queued := h.queued
  held := h.held

/-- A charge is dropped in full. -/
theorem Balanced.dropCharge {charge : ReplyCharge} (h : Balanced s (.charge charge :: loose)) :
    Balanced (s.dropCharge charge) loose := by
  have hl := h.lane charge.lane
  simp only [List.cons_append, tally_cons, tally_append, Holding.onLane, if_true] at hl
  refine h.withLane h.covers.drop ?_
    (Nat.le_trans (Nat.sub_le ..) (h.laneMax _)) (fun k hne => ?_) (fun c => ?_) fun x hx =>
    h.sound_loose (List.mem_cons_of_mem _ hx)
  · simp only [tally_cons, Holding.onLane, if_true]
    omega
  · simp [Holding.onLane, Ne.symm hne]
  · simp [Holding.onChannel]

/-- A charge that is discarded goes back to its lane and the global budget. -/
theorem Balanced.discard {charge : Option ReplyCharge}
    (h : Balanced s ((charge.map .charge).toList ++ loose)) :
    Balanced (s.discard charge) loose := by
  cases charge with
  | none => exact h
  | some charge => exact h.dropCharge

/-- A refused charge changes nothing. -/
theorem chargeReply_none {s' : Process} {bytes : Nat} (h : s.chargeReply l bytes = (none, s')) :
    s' = s := by
  simp only [Process.chargeReply] at h
  split at h
  · exact (Prod.mk.inj h).2.symm
  · next permit budgets ha =>
    split at h
    · rw [← (Prod.mk.inj h).2, drop_of_tryAcquire ha]
    · cases (Prod.mk.inj h).1

/-- A charge that is made is held. -/
theorem Balanced.chargeReply (h : Balanced s loose) {bytes : Nat} {charge : ReplyCharge}
    (hlane : l < s.laneCount) (hc : s.chargeReply l bytes = (some charge, s')) :
    Balanced s' (.charge charge :: loose) := by
  simp only [Process.chargeReply] at hc
  split at hc
  · cases (Prod.mk.inj hc).1
  · next permit budgets ha =>
    split at hc
    · cases (Prod.mk.inj hc).1
    · next hfits =>
      obtain ⟨hcharge, rfl⟩ := Prod.mk.inj hc
      obtain rfl := Option.some.inj hcharge
      obtain rfl := permit_of_tryAcquire ha
      refine h.withLane (h.covers.acquire ha) ?_
        (Nat.le_of_not_lt hfits) (fun k hne => ?_) (fun c => ?_) fun x hx => ?_
      · simp only [tally_cons, Holding.onLane, if_true]
        omega
      · simp [Holding.onLane, Ne.symm hne]
      · simp [Holding.onChannel]
      · rcases List.mem_cons.mp hx with rfl | hx
        · exact ⟨hlane, rfl⟩
        · exact h.sound_loose hx

/-- A refused extension changes nothing. -/
theorem tryExtend_false {charge charge' : ReplyCharge} {bytes : Nat}
    (h : s.tryExtend charge bytes = (false, charge', s')) : charge' = charge ∧ s' = s := by
  simp only [Process.tryExtend] at h
  split at h
  · simp only [Prod.mk.injEq, true_and] at h
    exact ⟨h.1.symm, h.2.symm⟩
  · next permit budgets he =>
    split at h
    · simp only [Prod.mk.injEq, true_and, shrink_of_tryExtend he] at h
      exact ⟨h.1.symm, h.2.symm⟩
    · cases (Prod.mk.inj h).1

/-- A charge that is extended is held as extended. -/
theorem Balanced.tryExtend {charge charge' : ReplyCharge} {bytes : Nat}
    (h : Balanced s (.charge charge :: loose))
    (he : s.tryExtend charge bytes = (true, charge', s')) :
    charge'.lane = charge.lane ∧ Balanced s' (.charge charge' :: loose) := by
  simp only [Process.tryExtend] at he
  split at he
  · cases (Prod.mk.inj he).1
  · next permit budgets hext =>
    split at he
    · cases (Prod.mk.inj he).1
    · next hfits =>
      simp only [Prod.mk.injEq, true_and] at he
      obtain ⟨rfl, rfl⟩ := he
      obtain ⟨hlane, hglobal⟩ := h.sound_loose (List.mem_cons_self ..)
      have hcovers :
          Covers s.budgets (charge.global :: (loose ++ s.holdings).flatMap (·.permits)) :=
        h.covers
      obtain ⟨rfl, hcovers⟩ := hcovers.extend hext
      refine ⟨rfl, h.withLane hcovers ?_
        (Nat.le_of_not_lt hfits) (fun k hne => ?_) (fun c => ?_) fun x hx => ?_⟩
      · simp only [tally_cons, Holding.onLane, if_true]
        omega
      · simp [Holding.onLane, Ne.symm hne]
      · simp [Holding.onChannel]
      · rcases List.mem_cons.mp hx with rfl | hx
        · exact ⟨hlane, by simp [hglobal]⟩
        · exact h.sound_loose (List.mem_cons_of_mem _ hx)

/-! ## Replies -/

/-- A channel's counter and the loose delivered replies change together. -/
theorem Balanced.withChannel (h : Balanced s loose) (hch : s.channel? c = some ch)
    (hhistory : historyPermits ch'.state.history = historyPermits ch.state.history)
    (hreplies : ch'.replies = ch.replies)
    (hbytes : ch'.state.replyBytes + tally (Holding.onChannel c) loose =
      ch.state.replyBytes + tally (Holding.onChannel c) loose')
    (hmax : ch'.state.replyBytes ≤ maxChannelReplyBytes)
    (hpermits : ∀ weight : BudgetPermit → Nat,
      tally weight (loose'.flatMap (·.permits)) = tally weight (loose.flatMap (·.permits)))
    (hlane : ∀ l, tally (Holding.onLane l) loose' = tally (Holding.onLane l) loose)
    (hother : ∀ d, d ≠ c → tally (Holding.onChannel d) loose' = tally (Holding.onChannel d) loose)
    (hsound : ∀ x ∈ loose', x.Sound s.laneCount s.channels.length) :
    Balanced (s.setChannel c ch') loose' := by
  have hsame : ∀ weight : Holding → Nat,
      tally weight (s.setChannel c ch').holdings = tally weight s.holdings := by
    intro weight
    have := tally_setChannel weight ch' hch
    have hequal : ch'.holdings = ch.holdings := by
      simp only [ChannelInner.holdings, hhistory, hreplies]
    rw [hequal] at this
    omega
  refine ⟨h.covers.congr fun weight => ?_, fun l => ?_, h.laneMax, fun d other hother' => ?_,
    fun d other hother' => ?_, fun x hx => ?_, fun d other hother' => ?_, h.held⟩
  · simp only [List.flatMap_append, tally_append, hpermits]
    simp only [tally_flatMap, hsame]
  · have := h.lane l
    rw [tally_append] at this ⊢
    rw [hlane, hsame]
    exact this
  · rw [Process.channel?_setChannel hch] at hother'
    rw [tally_append, hsame]
    split at hother'
    · next heq =>
      obtain rfl := Option.some.inj hother'
      subst heq
      have := h.channel c ch hch
      rw [tally_append] at this
      omega
    · next hne =>
      have := h.channel d other hother'
      rw [tally_append] at this
      rw [hother d (Ne.symm hne)]
      exact this
  · rw [Process.channel?_setChannel hch] at hother'
    split at hother'
    · exact Option.some.inj hother' ▸ hmax
    · exact h.channelMax d other hother'
  · rw [Process.setChannel_length]
    rcases List.mem_append.mp hx with hx | hx
    · exact hsound x hx
    · exact h.sound x (List.mem_append_right _ (mem_of_tally_eq hsame hx))
  · rw [Process.channel?_setChannel hch] at hother'
    split at hother'
    · next heq =>
      obtain rfl := Option.some.inj hother'
      rw [hreplies, ← heq]
      exact h.queued c ch hch
    · exact h.queued d other hother'

/-- A delivered reply is taken off its channel, if that is alive. -/
theorem Balanced.dropDelivered {charge : ChannelReplyCharge}
    (h : Balanced s (.delivered charge :: loose)) :
    Balanced (s.modifyState charge.channel fun st =>
      { st with replyBytes := st.replyBytes - charge.bytes }) loose := by
  have hsound : ∀ x ∈ loose, x.Sound s.laneCount s.channels.length := fun x hx =>
    h.sound_loose (List.mem_cons_of_mem _ hx)
  cases hch : s.channel? charge.channel with
  | none =>
    rw [Process.modifyState_of_none hch]
    refine ⟨h.covers, fun l => ?_, h.laneMax, fun d other hother => ?_, h.channelMax,
      fun x hx => h.sound x (List.mem_cons_of_mem _ hx), h.queued, h.held⟩
    · simpa [Holding.onLane] using h.lane l
    · have hne : charge.channel ≠ d := by
        rintro rfl
        exact absurd (hch.symm.trans hother) (by simp)
      simpa [Holding.onChannel, hne] using h.channel d other hother
  | some ch =>
    rw [Process.modifyState_of_some hch]
    have hbytes := h.channel _ ch hch
    simp only [List.cons_append, tally_cons, Holding.onChannel, if_true] at hbytes
    refine h.withChannel hch rfl rfl ?_ (Nat.le_trans (Nat.sub_le ..) (h.channelMax _ ch hch))
      (fun weight => rfl) (fun l => ?_) (fun d hne => ?_) hsound
    · simp only [tally_cons, Holding.onChannel, if_true]
      omega
    · simp [Holding.onLane]
    · simp [Holding.onChannel, Ne.symm hne]

/-- A reply that is dropped gives back both of its charges. -/
theorem Balanced.dropReply {reply : BufferedReply} (h : Balanced s (reply.holdings ++ loose)) :
    Balanced (s.dropReply reply) loose := by
  simp only [Process.dropReply]
  cases hcharge : reply.channelCharge with
  | none =>
    simp only [BufferedReply.holdings, hcharge] at h
    exact h.dropCharge
  | some charge =>
    simp only [BufferedReply.holdings, hcharge] at h
    exact h.dropCharge.dropDelivered

/-- So do replies that are dropped together. -/
theorem Balanced.dropReplies {replies : List BufferedReply}
    (h : Balanced s (replies.flatMap (·.holdings) ++ loose)) :
    Balanced (replies.foldl Process.dropReply s) loose := by
  induction replies generalizing s with
  | nil => exact h
  | cons reply replies ih =>
    rw [List.flatMap_cons, List.append_assoc] at h
    exact ih h.dropReply

/-- A loose reply is queued. -/
theorem Balanced.enqueue {reply : BufferedReply} (h : Balanced s (reply.holdings ++ loose))
    (hch : s.channel? c = some ch) (hdelivered : reply.DeliveredTo c) :
    Balanced (s.setChannel c { ch with replies := ch.replies ++ [reply] }) loose := by
  refine h.moveChannel hch ?_ (fun other hother => ?_) fun weight => ?_
  · rfl
  · rcases List.mem_append.mp hother with hother | hother
    · exact Or.inl hother
    · exact Or.inr (List.mem_singleton.mp hother ▸ hdelivered)
  simp only [ChannelInner.holdings, List.flatMap_append, List.flatMap_cons, List.flatMap_nil,
    tally_append, tally_nil]
  omega

/-- A reply touches no permit and no reply bytes of its channel. -/
theorem noteReply_keeps (st : ChannelState) (request : Nat) (replyId : Bytes) (now : Nat) :
    historyPermits (st.noteReply request replyId now).history = historyPermits st.history ∧
      (st.noteReply request replyId now).replyBytes = st.replyBytes := by
  refine ⟨?_, rfl⟩
  simp only [ChannelState.noteReply]
  split
  · refine historyPermits_updateFirst fun entry => ?_
    split <;> rfl
  · rfl

/-- A reply is queued with its charges, or dropped with them. -/
theorem Balanced.deliver {request : Nat} {reply : BufferedReply}
    (h : Balanced s (.charge reply.laneCharge :: loose)) (hnew : reply.channelCharge = none) :
    Balanced (s.deliver c request reply) loose := by
  have hloose : reply.holdings = [.charge reply.laneCharge] := by
    simp [BufferedReply.holdings, hnew]
  have hdrop : Balanced s (reply.holdings ++ loose) := by
    rw [hloose]
    exact h
  simp only [Process.deliver]
  split
  · exact hdrop.dropReply
  · next ch hch =>
    split
    · exact hdrop.dropReply
    · obtain ⟨hpermits, hbytes⟩ := noteReply_keeps ch.state request reply.replayId s.clock
      generalize ch.state.noteReply request reply.replayId s.clock = st at *
      split
      · have hnoted : Balanced (s.setChannel c { ch with state := st }) (reply.holdings ++ loose) :=
          hdrop.setChannel hch hpermits rfl hbytes
        exact (hnoted.failChannel _).dropReply
      · next hfits =>
        -- the channel's counter grows with the delivered reply
        have hgrown : Balanced
            (s.setChannel c { ch with
              state := { st with replyBytes := st.replyBytes + reply.length } })
            ({ reply with channelCharge := some ⟨c, reply.length⟩ }.holdings ++ loose) := by
          change Balanced _ (.charge reply.laneCharge :: .delivered ⟨c, reply.length⟩ :: loose)
          refine h.withChannel hch hpermits rfl ?_ (Nat.le_of_not_lt hfits) (fun _ => rfl)
            (fun l => ?_) (fun d hne => ?_) fun x hx => ?_
          · simp only [tally_cons, Holding.onChannel, if_true, hbytes]
            omega
          · simp [Holding.onLane]
          · simp [Holding.onChannel, Ne.symm hne]
          · rcases List.mem_cons.mp hx with rfl | hx
            · exact h.sound_loose (List.mem_cons_self ..)
            · rcases List.mem_cons.mp hx with rfl | hx
              · exact Process.channel?_lt hch
              · exact h.sound_loose (List.mem_cons_of_mem _ hx)
        split
        · have hqueued :=
            Balanced.enqueue hgrown ((Process.channel?_setChannel hch c).trans (if_pos rfl)) rfl
          rwa [Process.setChannel_setChannel] at hqueued
        · exact (Balanced.dropReply hgrown).failChannel _

end TgWsProxy.H2
