import TgWsProxy.H2.Replay

/-!
# The end of a channel

A channel lives through four phases: running, closed by the swap of its first `fail`,
ended by the locked section of that `fail`, and told about by `receive`. `Life` follows
them through every interleaving of its locked sections.
-/

namespace TgWsProxy.H2

open TgWsProxy.Core

/-- The reply that `receive` has returned. -/
def ReceiveEvent.isPacket : ReceiveEvent → Bool
  | .packet _ => true
  | _ => false

def ReceiveEvent.isHanded : ReceiveEvent → Bool
  | .handed _ => true
  | _ => false

/-- The locked section of the first `fail` has run. -/
def RunningChannel.Failed (s : RunningChannel) : Prop := ∃ terminal, .failed terminal ∈ s.returned

/-- A call that waits and has not been notified. -/
def Receive.unheard : Receive → Bool
  | .waiting notified | .selecting notified => !notified
  | _ => false

/-- Once `notify_waiters` has run, no call waits without having been notified. -/
def RunningChannel.Heard (s : RunningChannel) : Prop :=
  s.waking = false → ∀ call ∈ s.receives, call.unheard = false

variable {s t : RunningChannel}

/-- What the locked section of `fail` leaves behind. -/
structure RunningChannel.Emptied (s : RunningChannel) : Prop where
  closed : s.closed = true
  failing : s.failing = none
  history : s.state.history = []
  aborted : ∀ r ∈ s.state.pending, r ∈ s.aborted

/-- The phases of a channel. -/
inductive Life (s : RunningChannel) : Prop
  | running (hclosed : s.closed = false) (hfailing : s.failing = none)
      (hterminal : s.state.terminal = none) (hpackets : ∀ e ∈ s.returned, e.isPacket = true)
  | swapped (terminal : Terminal) (hclosed : s.closed = true) (hfailing : s.failing = some terminal)
      (hterminal : s.state.terminal = none) (hpackets : ∀ e ∈ s.returned, e.isPacket = true)
  | ended (terminal : Terminal) (packets : List ReceiveEvent) (hempty : s.Emptied)
      (hterminal : s.state.terminal = some terminal) (hheard : s.Heard)
      (hreturned : s.returned = .failed terminal :: packets)
      (hpackets : ∀ e ∈ packets, e.isPacket = true)
  | told (terminal : Terminal) (later packets : List ReceiveEvent) (hempty : s.Emptied)
      (hterminal : s.state.terminal = none)
      (hreturned : s.returned = later ++ .handed terminal :: .failed terminal :: packets)
      (hlater : ∀ e ∈ later, e.isPacket = true) (hpackets : ∀ e ∈ packets, e.isPacket = true)

namespace Life

/-- A step that neither fails the channel nor returns from `receive`. -/
theorem keep (h : Life s) (hclosed : t.closed = s.closed) (hfailing : t.failing = s.failing)
    (hterminal : t.state.terminal = s.state.terminal) (hreturned : t.returned = s.returned)
    (hkeep : s.closed = true → s.state.Keeps t.state) (haborted : s.aborted ⊆ t.aborted)
    (hheard : s.state.terminal.isSome = true → s.Heard → t.Heard) : Life t := by
  have hempty : s.Emptied → t.Emptied := by
    intro he
    have hk := hkeep he.closed
    refine ⟨hclosed.trans he.closed, hfailing.trans he.failing, ?_, fun r hr => ?_⟩
    · rw [List.eq_nil_iff_forall_not_mem]
      intro e' he'
      obtain ⟨e, hmem, -⟩ := hk.history e' he'
      rw [he.history] at hmem
      cases hmem
    · obtain ⟨p', hp'⟩ := Option.isSome_iff_exists.mp (Std.TreeMap.isSome_getElem?_iff_mem.mpr hr)
      obtain ⟨p, hp, -⟩ := hk.pending r p' hp'
      apply haborted
      apply he.aborted r
      exact Std.TreeMap.isSome_getElem?_iff_mem.mp (Option.isSome_iff_exists.mpr ⟨p, hp⟩)
  cases h with
  | running hc hf ht hp =>
    exact .running (hclosed.trans hc) (hfailing.trans hf) (hterminal.trans ht) (hreturned ▸ hp)
  | swapped terminal hc hf ht hp =>
    exact .swapped terminal (hclosed.trans hc) (hfailing.trans hf) (hterminal.trans ht)
      (hreturned ▸ hp)
  | ended terminal packets he ht hh hr hp =>
    exact .ended terminal packets (hempty he) (hterminal.trans ht) (hheard (by simp [ht]) hh)
      (hreturned.trans hr) hp
  | told terminal later packets he ht hr hl hp =>
    exact .told terminal later packets (hempty he) (hterminal.trans ht) (hreturned.trans hr) hl hp

/-- The first failure takes a channel to the next phase. -/
theorem fail (h : Life s) (terminal : Terminal) : Life (s.fail terminal) := by
  unfold RunningChannel.fail
  split
  · exact h
  · next hopen =>
    cases h with
    | running _ _ ht hp => exact .swapped terminal rfl rfl ht hp
    | swapped _ hc _ _ _ => exact absurd hc hopen
    | ended _ _ he _ _ _ _ | told _ _ _ he _ _ _ _ => exact absurd he.closed hopen

/-- The locked section runs once, after the swap. -/
theorem terminate (h : Life s) {terminal : Terminal} (budgets : Budgets)
    (hfailing : s.failing = some terminal) : Life (s.terminate budgets terminal) := by
  cases h with
  | running _ hf _ _ =>
    rw [hf] at hfailing
    cases hfailing
  | swapped _ hc _ _ hp =>
    refine .ended terminal s.returned ⟨hc, rfl, rfl, fun r hr => ?_⟩ rfl
      (fun hwaking => nomatch hwaking) rfl hp
    exact List.mem_append_left _ (Std.TreeMap.mem_keys.mpr hr)
  | ended _ _ he _ _ _ _ | told _ _ _ he _ _ _ _ =>
    rw [he.failing] at hfailing
    cases hfailing

/-- Only one terminal is ever recorded, so it is handed out at most once. -/
theorem hand (h : Life s) {terminal : Terminal} {receives : List Receive}
    (hterminal : s.state.terminal = some terminal) :
    Life { s with
      state := { s.state with terminal := none }
      receives := receives
      returned := .handed terminal :: s.returned } := by
  cases h with
  | running _ _ ht _ | swapped _ _ _ ht _ | told _ _ _ _ ht _ _ _ =>
    rw [ht] at hterminal
    cases hterminal
  | ended _ packets he ht _ hr hp =>
    obtain rfl := Option.some.inj (hterminal.symm.trans ht)
    refine .told terminal [] packets ⟨he.closed, he.failing, he.history, he.aborted⟩ rfl ?_
      (List.forall_mem_nil _) hp
    simp [hr]

/-- A reply is returned only where no terminal is recorded. -/
theorem packet (h : Life s) (reply : BufferedReply) {receives : List Receive}
    (hterminal : s.state.terminal = none) :
    Life { s with receives := receives, returned := .packet reply :: s.returned } := by
  have hcons : ∀ {packets : List ReceiveEvent}, (∀ e ∈ packets, e.isPacket = true) →
      ∀ e ∈ ReceiveEvent.packet reply :: packets, e.isPacket = true := by
    intro packets hp e he
    rcases List.mem_cons.mp he with rfl | he
    · rfl
    · exact hp e he
  cases h with
  | running hc hf ht hp => exact .running hc hf ht (hcons hp)
  | swapped terminal hc hf ht hp => exact .swapped terminal hc hf ht (hcons hp)
  | ended _ _ _ ht _ _ _ =>
    rw [hterminal] at ht
    cases ht
  | told terminal later packets he ht hr hl hp =>
    refine .told terminal (.packet reply :: later) packets
      ⟨he.closed, he.failing, he.history, he.aborted⟩ ht ?_ (hcons hl) hp
    simp [hr]

/-- A closed channel launches nothing. -/
theorem launch_of_closed (hclosed : s.closed = true) (budgets : Budgets) (body : Bytes)
    (replaySequence : Option Nat) : s.launch budgets body replaySequence = s := by
  have hrefused : s.state.launch budgets s.closed body replaySequence s.clock = none := by
    rw [ChannelState.launch, if_pos (Or.inl hclosed)]
  unfold RunningChannel.launch
  rw [hrefused]

/-- A launch changes no phase. -/
theorem launch (h : Life s) (budgets : Budgets) (body : Bytes) (replaySequence : Option Nat) :
    Life (s.launch budgets body replaySequence) := by
  by_cases hclosed : s.closed = true
  · rw [launch_of_closed hclosed]
    exact h
  · unfold RunningChannel.launch
    split
    · exact h
    · next request state _ hlaunch =>
      obtain ⟨-, -, -, p, hstate⟩ := ChannelState.launch_spec hlaunch
      have hterminal := congrArg ChannelState.terminal hstate
      exact h.keep rfl rfl hterminal rfl (fun hc => absurd hc hclosed) (List.Subset.refl _)
        fun _ => id

/-- A delivery changes no phase. -/
theorem deliver (h : Life s) (request : Nat) (reply : BufferedReply) :
    Life (s.deliver request reply) := by
  unfold RunningChannel.deliver
  split
  · exact h
  · next hopen =>
    have hclosed : s.closed ≠ true := fun hc => hopen (Or.inl hc)
    have hkeep : ∀ {state : ChannelState}, s.closed = true → s.state.Keeps state :=
      fun hc => absurd hc hclosed
    dsimp only
    split
    · apply fail
      exact h.keep rfl rfl rfl rfl hkeep (List.Subset.refl _) fun _ => id
    · exact h.keep rfl rfl rfl rfl hkeep (List.Subset.refl _) fun _ => id

/-- A request that is retired and aborted changes no phase. -/
theorem retireAndAbort (h : Life s) (request : Nat) : Life (s.retireAndAbort request) := by
  unfold RunningChannel.retireAndAbort
  split
  · have hterminal : (s.state.retire request).terminal = s.state.terminal := by
      unfold ChannelState.retire
      split
      · rfl
      · split <;> rfl
    exact h.keep rfl rfl hterminal rfl (fun _ => ChannelState.keeps_retire _ _)
      (List.subset_cons_self _ _) fun _ => id
  · exact h

/-- A turn of the recovery loop changes no phase. -/
theorem recover (h : Life s) (room : Option Nat) (budgets : Budgets) (granted : Bool) :
    Life (s.recover room budgets granted) := by
  have hswept : Life { s with state := (s.state.sweep budgets s.clock).1 } :=
    h.keep rfl rfl rfl rfl (fun _ => ChannelState.keeps_sweep budgets _ _) (List.Subset.refl _)
      fun _ => id
  have hreplay : ∀ {u : RunningChannel}, Life u → Life (u.rotate.replay budgets granted) := by
    intro u hu
    have hrotated : Life u.rotate :=
      hu.keep rfl rfl rfl rfl (fun _ => .refl _) (List.subset_append_right _ _) fun _ => id
    unfold RunningChannel.replay
    split
    · split
      · exact hrotated.launch budgets _ _
      · exact hrotated
    · exact hrotated
  unfold RunningChannel.recover
  cases room with
  | none => exact hreplay hswept
  | some request =>
    apply hreplay
    dsimp only
    split
    · exact hswept.retireAndAbort request
    · exact hswept

/-- Every step keeps to the phases. -/
theorem step (h : Life s) {a : ChannelAction} (hstep : channelSystem.step s a = some t) :
    Life t := by
  -- a step of `receive` that returns nothing
  have hquiet : ∀ {receives : List Receive} {replies sending : List BufferedReply} {waking : Bool},
      (s.state.terminal.isSome = true → s.Heard → waking = false →
        ∀ call ∈ receives, call.unheard = false) →
      Life { s with
        receives := receives
        replies := replies
        sending := sending
        waking := waking } := fun hheard =>
    h.keep rfl rfl rfl rfl (fun _ => .refl _) (List.Subset.refl _) hheard
  -- a call that moves on to a stage where it does not wait
  have hmoved : ∀ {i : Nat} {call : Receive}, call.unheard = false →
      (s.state.terminal.isSome = true → s.Heard → s.waking = false →
        ∀ other ∈ s.receives.set i call, other.unheard = false) := by
    intro i call hcall _ hheard hwaking other hother
    rcases List.mem_or_eq_of_mem_set hother with hold | rfl
    · exact hheard hwaking other hold
    · exact hcall
  cases a with
  | tick _ =>
    obtain rfl := Option.some.inj hstep
    exact h.keep rfl rfl rfl rfl (fun _ => .refl _) (List.Subset.refl _) fun _ => id
  | receive =>
    obtain rfl := Option.some.inj hstep
    apply hquiet
    intro _ hheard hwaking call hcall
    rcases List.mem_append.mp hcall with hold | hnew
    · exact hheard hwaking call hold
    · rw [List.mem_singleton.mp hnew]
      rfl
  | uploadWaits _ | uploadReady | progress | nativeWrite _ | replyDropped _ =>
    obtain rfl := Option.some.inj hstep
    exact h.keep rfl rfl rfl rfl (fun _ => .of_subset rfl (List.Subset.refl _) rfl)
      (List.Subset.refl _) fun _ => id
  | markStarted _ _ | markSent _ | markReceiving _ =>
    obtain rfl := Option.some.inj hstep
    exact h.keep rfl rfl rfl rfl (fun _ => .modify rfl rfl rfl fun _ => ⟨rfl, rfl⟩)
      (List.Subset.refl _) fun _ => id
  | send body budgets =>
    obtain rfl := Option.some.inj hstep
    exact h.launch budgets body none
  | deliver request reply =>
    simp only [channelSystem, RunningChannel.step] at hstep
    split at hstep
    · obtain rfl := Option.some.inj hstep
      exact h.deliver request reply
    · cases hstep
  | trySend i =>
    obtain ⟨reply, -, rfl⟩ := Option.map_eq_some_iff.mp hstep
    unfold RunningChannel.trySend
    dsimp only
    split
    · exact hquiet fun _ => id
    · exact fail (hquiet fun _ => id) _
  | finishRequest request =>
    obtain rfl := Option.some.inj hstep
    have hterminal : (s.state.finishRequest request).terminal = s.state.terminal := by
      unfold ChannelState.finishRequest
      split <;> rfl
    exact h.keep rfl rfl hterminal rfl (fun _ => ChannelState.keeps_finishRequest _ _)
      (List.Subset.refl _) fun _ => id
  | fail terminal =>
    obtain rfl := Option.some.inj hstep
    exact h.fail terminal
  | terminate budgets =>
    obtain ⟨terminal, hfailing, rfl⟩ := Option.map_eq_some_iff.mp hstep
    exact h.terminate budgets hfailing
  | retireAndAbort request =>
    obtain rfl := Option.some.inj hstep
    exact h.retireAndAbort request
  | recover room budgets granted =>
    obtain rfl := Option.some.inj hstep
    exact h.recover room budgets granted
  | wake =>
    simp only [channelSystem, RunningChannel.step] at hstep
    split at hstep
    · obtain rfl := Option.some.inj hstep
      apply hquiet
      intro _ _ _ call hcall
      obtain ⟨old, -, rfl⟩ := List.mem_map.mp hcall
      cases old <;> rfl
    · cases hstep
  | cancel call =>
    have herase : s.state.terminal.isSome = true → s.Heard → s.waking = false →
        ∀ other ∈ s.receives.eraseIdx call, other.unheard = false :=
      fun _ hheard hwaking other hother => hheard hwaking other (List.mem_of_mem_eraseIdx hother)
    simp only [channelSystem, RunningChannel.step] at hstep
    split at hstep
    · obtain rfl := Option.some.inj hstep
      exact hquiet herase
    · obtain rfl := Option.some.inj hstep
      exact hquiet herase
    · cases hstep
  | enable call | take call | lock call | poll call | check call =>
    cases RunningChannel.callStep_of_step rfl hstep with
    | moves hcall hmoves =>
      apply hquiet
      intro hterminal hheard hwaking
      have hwaits := hheard hwaking _ (List.mem_of_getElem? hcall)
      cases hmoves with
      | enable | again => exact hmoved rfl hterminal hheard hwaking
      | wait hnone => simp [hnone] at hterminal
      | lock => exact hmoved hwaits hterminal hheard hwaking
    | pops _ => exact hquiet (hmoved rfl)
    | hands hterminal => exact h.hand hterminal
    | packet _ hterminal => exact h.packet _ hterminal

/-- The locked section has run in the last two phases only. -/
theorem emptied (h : Life s) (hfailed : s.Failed) : s.Emptied := by
  obtain ⟨terminal, hmem⟩ := hfailed
  cases h with
  | running _ _ _ hp | swapped _ _ _ _ hp => cases hp _ hmem
  | ended _ _ he _ _ _ _ | told _ _ _ he _ _ _ _ => exact he

/-- A channel starts running. -/
theorem of_start (h : channelSystem.start s) : Life s := by
  have hs : s = { clock := s.clock, state := { lastProgress := some s.clock } } := h
  rw [hs]
  exact .running rfl rfl rfl (List.forall_mem_nil _)

end Life

/-- In every run a channel is in one of its phases. -/
theorem life_of_reachable (h : channelSystem.Reachable s) : Life s :=
  h.invariant (fun _ => Life.of_start) fun _ _ _ hlife hstep => hlife.step hstep

/-! ## Finality -/

/-- What the first `fail` decides; the latest return stands first in the log. -/
structure TerminationFinal (s : RunningChannel) : Prop where
  history : s.Failed → s.state.history = []
  aborted : s.Failed → ∀ r ∈ s.state.pending, r ∈ s.aborted
  inserted : s.Failed → ∀ a t, channelSystem.step s a = some t →
    ∀ r ∈ t.state.pending, r ∈ s.state.pending
  stays : s.Failed → ∀ a t, channelSystem.step s a = some t → t.Failed
  /-- Neither section of a later `fail` does anything. -/
  later : s.Failed → ∀ terminal budgets,
    channelSystem.step s (.fail terminal) = some s ∧
      channelSystem.step s (.terminate budgets) = none
  once : s.returned.countP ReceiveEvent.isHanded ≤ 1
  next : ∀ later earlier terminal, s.returned = later ++ .failed terminal :: earlier →
    later = [] ∨ ∃ rest, later = rest ++ [.handed terminal]
  /-- The recorded terminal is not lost on a call that waits. -/
  heard : s.state.terminal.isSome = true → s.waking = false →
    ∀ call ∈ s.receives, call.unheard = false

private theorem countP_handed_packets {packets : List ReceiveEvent}
    (h : ∀ e ∈ packets, e.isPacket = true) : packets.countP ReceiveEvent.isHanded = 0 := by
  rw [List.countP_eq_zero]
  intro e hmem
  have hpacket := h e hmem
  cases e with
  | packet _ => simp [ReceiveEvent.isHanded]
  | failed _ | handed _ => cases hpacket

namespace RunningChannel

/-- A closed channel loses requests and records only, and its log of returns grows. -/
structure Winds (s t : RunningChannel) : Prop where
  keeps : s.state.Keeps t.state
  returned : s.returned <:+ t.returned

/-- A step that launches and records nothing winds the channel down. -/
theorem Winds.of_subset (hnext : t.state.nextRequest = s.state.nextRequest)
    (hhistory : t.state.history ⊆ s.state.history) (hpending : t.state.pending = s.state.pending)
    (hreturned : s.returned <:+ t.returned) : s.Winds t :=
  ⟨.of_subset hnext hhistory hpending, hreturned⟩

/-- A step that touches neither requests nor history. -/
theorem Winds.quiet (hnext : t.state.nextRequest = s.state.nextRequest)
    (hhistory : t.state.history = s.state.history) (hpending : t.state.pending = s.state.pending)
    (hreturned : s.returned <:+ t.returned) : s.Winds t :=
  .of_subset hnext (hhistory ▸ List.Subset.refl _) hpending hreturned

private theorem fail_of_closed (hclosed : s.closed = true) (terminal : Terminal) :
    s.fail terminal = s := by
  rw [fail, if_pos hclosed]

private theorem winds_retireAndAbort (s : RunningChannel) (request : Nat) :
    s.Winds (s.retireAndAbort request) := by
  unfold retireAndAbort
  split
  · exact ⟨ChannelState.keeps_retire _ _, List.suffix_rfl⟩
  · exact ⟨.refl _, List.suffix_rfl⟩

/-- Winding down, one step after the other. -/
theorem Winds.trans {u : RunningChannel} (h : s.Winds t) (h' : t.Winds u) : s.Winds u :=
  ⟨h.keeps.trans h'.keeps, h.returned.trans h'.returned⟩

private theorem winds_recover (hclosed : s.closed = true) (room : Option Nat) (budgets : Budgets)
    (granted : Bool) : s.Winds (s.recover room budgets granted) := by
  have hswept : s.Winds { s with state := (s.state.sweep budgets s.clock).1 } :=
    ⟨ChannelState.keeps_sweep budgets _ _, List.suffix_rfl⟩
  have hreplay : ∀ {u : RunningChannel}, u.closed = true →
      u.Winds (u.rotate.replay budgets granted) := by
    intro u hu
    have hrotated : u.Winds u.rotate := ⟨.refl _, List.suffix_rfl⟩
    have hstill : ∀ body sequence, u.rotate.launch budgets body sequence = u.rotate :=
      fun body sequence => Life.launch_of_closed (s := u.rotate) hu budgets body sequence
    unfold replay
    split
    · rw [hstill, ite_self]
      exact hrotated
    · exact hrotated
  unfold recover
  cases room with
  | none => exact hswept.trans (hreplay hclosed)
  | some request =>
    dsimp only
    split
    · refine hswept.trans ((winds_retireAndAbort _ request).trans (hreplay ?_))
      unfold retireAndAbort
      split <;> exact hclosed
    · exact hswept.trans (hreplay hclosed)

/-- Every step of a closed channel winds it down. -/
theorem winds_step (hclosed : s.closed = true) {a : ChannelAction}
    (hstep : channelSystem.step s a = some t) : s.Winds t := by
  cases a with
  | tick _ | receive | uploadWaits _ | uploadReady | progress | nativeWrite _ | replyDropped _ =>
    obtain rfl := Option.some.inj hstep
    exact .quiet rfl rfl rfl List.suffix_rfl
  | markStarted _ _ | markSent _ | markReceiving _ =>
    obtain rfl := Option.some.inj hstep
    exact ⟨.modify rfl rfl rfl fun _ => ⟨rfl, rfl⟩, List.suffix_rfl⟩
  | send body budgets =>
    obtain rfl := Option.some.inj hstep
    rw [Life.launch_of_closed hclosed]
    exact .quiet rfl rfl rfl List.suffix_rfl
  | deliver request reply =>
    simp only [channelSystem, RunningChannel.step] at hstep
    split at hstep
    · obtain rfl := Option.some.inj hstep
      rw [RunningChannel.deliver, if_pos (Or.inl hclosed)]
      exact .quiet rfl rfl rfl List.suffix_rfl
    · cases hstep
  | trySend i =>
    obtain ⟨reply, -, rfl⟩ := Option.map_eq_some_iff.mp hstep
    unfold RunningChannel.trySend
    dsimp only
    split
    · exact .quiet rfl rfl rfl List.suffix_rfl
    · rw [fail_of_closed (s := { s with sending := s.sending.eraseIdx i }) hclosed]
      exact .quiet rfl rfl rfl List.suffix_rfl
  | finishRequest request =>
    obtain rfl := Option.some.inj hstep
    exact ⟨ChannelState.keeps_finishRequest _ _, List.suffix_rfl⟩
  | fail terminal =>
    obtain rfl := Option.some.inj hstep
    rw [fail_of_closed hclosed]
    exact .quiet rfl rfl rfl List.suffix_rfl
  | terminate budgets =>
    obtain ⟨terminal, -, rfl⟩ := Option.map_eq_some_iff.mp hstep
    exact ⟨ChannelState.keeps_terminate budgets _ _, List.suffix_cons _ _⟩
  | retireAndAbort request =>
    obtain rfl := Option.some.inj hstep
    exact winds_retireAndAbort s request
  | recover room budgets granted =>
    obtain rfl := Option.some.inj hstep
    exact winds_recover hclosed room budgets granted
  | wake =>
    simp only [channelSystem, RunningChannel.step] at hstep
    split at hstep
    · obtain rfl := Option.some.inj hstep
      exact .quiet rfl rfl rfl List.suffix_rfl
    · cases hstep
  | cancel call =>
    simp only [channelSystem, RunningChannel.step] at hstep
    split at hstep
    · obtain rfl := Option.some.inj hstep
      exact .quiet rfl rfl rfl List.suffix_rfl
    · obtain rfl := Option.some.inj hstep
      exact .quiet rfl rfl rfl List.suffix_rfl
    · cases hstep
  | enable call | take call | lock call | poll call | check call =>
    cases callStep_of_step rfl hstep with
    | moves _ _ | pops _ => exact .quiet rfl rfl rfl List.suffix_rfl
    | hands _ | packet _ _ => exact .quiet rfl rfl rfl (List.suffix_cons _ _)

end RunningChannel

/-- A list with one marked item splits at it in one way only. -/
theorem split_unique {α : Type*} {p : α → Prop} {later earlier later' earlier' : List α} {x x' : α}
    (h : later ++ x :: earlier = later' ++ x' :: earlier') (hlater : ∀ y ∈ later, ¬p y)
    (hearlier : ∀ y ∈ earlier, ¬p y) (hx' : p x') : later' = later ∧ x' = x := by
  rcases List.append_eq_append_iff.mp h with ⟨middle, rfl, htail⟩ | ⟨middle, rfl, htail⟩
  · cases middle with
    | nil =>
      obtain ⟨rfl, -⟩ := List.cons.inj htail
      exact ⟨by simp, rfl⟩
    | cons y middle =>
      obtain ⟨rfl, rfl⟩ := List.cons.inj htail
      exact absurd hx' (hearlier x' (by simp))
  · cases middle with
    | nil =>
      obtain ⟨rfl, -⟩ := List.cons.inj htail
      exact ⟨by simp, rfl⟩
    | cons y middle =>
      obtain ⟨rfl, rfl⟩ := List.cons.inj htail
      exact absurd hx' (hlater x' (by simp))

/-- The end of a channel is final, whatever the order of its steps. -/
theorem terminationFinal (h : channelSystem.Reachable s) : TerminationFinal s := by
  have hlife := life_of_reachable h
  refine ⟨fun hfailed => (hlife.emptied hfailed).history,
    fun hfailed => (hlife.emptied hfailed).aborted, fun hfailed a t hstep r hr => ?_,
    fun hfailed a t hstep => ?_, fun hfailed terminal budgets => ⟨?_, ?_⟩, ?_,
    fun later earlier terminal hlog => ?_, fun hsome hwaking => ?_⟩
  · have hwinds := RunningChannel.winds_step (hlife.emptied hfailed).closed hstep
    obtain ⟨p', hp'⟩ := Option.isSome_iff_exists.mp (Std.TreeMap.isSome_getElem?_iff_mem.mpr hr)
    obtain ⟨p, hp, -⟩ := hwinds.keeps.pending r p' hp'
    exact Std.TreeMap.isSome_getElem?_iff_mem.mp (Option.isSome_iff_exists.mpr ⟨p, hp⟩)
  · have hwinds := RunningChannel.winds_step (hlife.emptied hfailed).closed hstep
    obtain ⟨terminal, hmem⟩ := hfailed
    exact ⟨terminal, hwinds.returned.subset hmem⟩
  · exact congrArg some (RunningChannel.fail_of_closed (hlife.emptied hfailed).closed terminal)
  · have hfailing := (hlife.emptied hfailed).failing
    simp only [channelSystem, RunningChannel.step, hfailing, Option.map_none]
  · cases hlife with
    | running _ _ _ hp | swapped _ _ _ _ hp => rw [countP_handed_packets hp]; exact Nat.zero_le _
    | ended _ packets _ _ _ hr hp =>
      rw [hr, List.countP_cons, countP_handed_packets hp]
      simp [ReceiveEvent.isHanded]
    | told _ later packets _ _ hr hl hp =>
      rw [hr, List.countP_append, List.countP_cons, List.countP_cons, countP_handed_packets hl,
        countP_handed_packets hp]
      simp [ReceiveEvent.isHanded]
  · have hmem : ReceiveEvent.failed terminal ∈ s.returned := by simp [hlog]
    let failure : ReceiveEvent → Prop := fun e => ∃ terminal, e = .failed terminal
    have hnone : ∀ {packets : List ReceiveEvent}, (∀ e ∈ packets, e.isPacket = true) →
        ∀ e ∈ packets, ¬failure e := by
      rintro packets hp e he ⟨terminal, rfl⟩
      cases hp _ he
    cases hlife with
    | running _ _ _ hp | swapped _ _ _ _ hp => cases hp _ hmem
    | ended _ packets _ _ _ hr hp =>
      have hsplit : [] ++ ReceiveEvent.failed _ :: packets = later ++ .failed terminal :: earlier :=
        hr.symm.trans hlog
      exact Or.inl (split_unique (p := failure) hsplit (List.forall_mem_nil _) (hnone hp)
        ⟨terminal, rfl⟩).1
    | told recorded rest packets _ _ hr hl hp =>
      have hsplit : (rest ++ [.handed recorded]) ++ ReceiveEvent.failed recorded :: packets =
          later ++ .failed terminal :: earlier := by
        rw [← hlog, hr]
        simp
      have hrest : ∀ e ∈ rest ++ [ReceiveEvent.handed recorded], ¬failure e := by
        intro e he
        rcases List.mem_append.mp he with he | he
        · exact hnone hl e he
        · rintro ⟨terminal, rfl⟩
          simp at he
      obtain ⟨rfl, heq⟩ := split_unique (p := failure) hsplit hrest (hnone hp) ⟨terminal, rfl⟩
      obtain rfl := ReceiveEvent.failed.inj heq
      exact Or.inr ⟨rest, rfl⟩
  · cases hlife with
    | ended _ _ _ _ hh _ _ => exact hh hwaking
    | running _ _ ht _ | swapped _ _ _ ht _ | told _ _ _ _ ht _ _ _ =>
      rw [ht] at hsome
      cases hsome

/-- A call of `receive` waits while a reply is queued and the channel fails; it is woken and
returns the terminal. -/
def terminationActions : List ChannelAction :=
  let reply : BufferedReply := ⟨[[1]], 1, ⟨0, 1, ⟨.replies, 1⟩⟩, none⟩
  [.send (List.replicate 8 1) processDefaults, .receive, .enable 0, .take 0, .lock 0,
    .deliver 1 reply, .trySend 0, .fail (.error .notConnected "H2 pool closed"),
    .send (List.replicate 8 2) processDefaults, .terminate processDefaults,
    .fail (.transport 0), .wake, .poll 0, .enable 0, .take 0, .receive, .enable 0, .take 0, .lock 0,
    .poll 0, .check 0]

/-- The terminal came first, and the queued reply after it. -/
def terminationCheck (s : RunningChannel) : Bool :=
  s.returned.map ReceiveEvent.isHanded = [false, true, false] && s.aborted = [1]

/-- A run whose terminal comes before the reply that was queued. -/
theorem terminationFinal_run : ∃ s, channelSystem.run .initial terminationActions = some s ∧
    terminationCheck s = true ∧ TerminationFinal s := by
  obtain ⟨s, hrun, hcheck⟩ := channelSystem.exists_of_run .initial terminationActions
    terminationCheck (by decide +kernel)
  exact ⟨s, hrun, hcheck,
    terminationFinal ((System.Reachable.start RunningChannel.initial_start).run hrun)⟩

end TgWsProxy.H2
