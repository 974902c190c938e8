import TgWsProxy.H2.Bridge

/-!
# The channel of a bridge

What the steps beside `receive` leave of a channel, and what a channel that ends has recorded.
-/

namespace TgWsProxy.H2

open TgWsProxy.Core

namespace RunningChannel

variable {s t u : RunningChannel}

/-- Nothing of the replies and of the calls of `receive` is touched. -/
structure Still (s t : RunningChannel) : Prop where
  receives : t.receives = s.receives
  sending : t.sending = s.sending
  replies : t.replies = s.replies
  returned : t.returned = s.returned

/-- A channel is still beside itself. -/
theorem Still.refl (s : RunningChannel) : s.Still s := ⟨rfl, rfl, rfl, rfl⟩

/-- Still, one step after the other. -/
theorem Still.trans (h : s.Still t) (h' : t.Still u) : s.Still u :=
  ⟨h'.receives.trans h.receives, h'.sending.trans h.sending, h'.replies.trans h.replies,
    h'.returned.trans h.returned⟩

/-- A failure takes no reply from the channel. -/
theorem still_fail (s : RunningChannel) (terminal : Terminal) : s.Still (s.fail terminal) := by
  rw [fail]
  split
  · exact .refl s
  · exact ⟨rfl, rfl, rfl, rfl⟩

/-- A launch takes no reply from the channel. -/
theorem still_launch (s : RunningChannel) (budgets : Budgets) (body : Bytes)
    (replaySequence : Option Nat) : s.Still (s.launch budgets body replaySequence) := by
  unfold launch
  split
  · exact .refl s
  · exact ⟨rfl, rfl, rfl, rfl⟩

/-- A request that is retired and aborted takes no reply from the channel. -/
theorem still_retireAndAbort (s : RunningChannel) (request : Nat) :
    s.Still (s.retireAndAbort request) := by
  rw [retireAndAbort]
  split
  · exact ⟨rfl, rfl, rfl, rfl⟩
  · exact .refl s

/-- A replay takes no reply from the channel. -/
theorem still_recover (s : RunningChannel) (room : Option Nat) (budgets : Budgets)
    (granted : Bool) : s.Still (s.recover room budgets granted) := by
  have hswept : s.Still { s with state := (s.state.sweep budgets s.clock).1 } :=
    ⟨rfl, rfl, rfl, rfl⟩
  have hreplay (u : RunningChannel) : u.Still (u.rotate.replay budgets granted) := by
    have hrotated : u.Still u.rotate := ⟨rfl, rfl, rfl, rfl⟩
    apply hrotated.trans
    unfold replay
    split
    · split
      · exact still_launch ..
      · exact .refl _
    · exact .refl _
  unfold recover
  apply hswept.trans
  cases room with
  | none => exact hreplay _
  | some request =>
    dsimp only
    split
    · exact (still_retireAndAbort _ request).trans (hreplay _)
    · exact hreplay _

/-- What a step beside the calls of `receive` leaves of them and of the replies. -/
structure Beside (s t : RunningChannel) (a : ChannelAction) : Prop where
  receives : t.receives = s.receives ∨ t.receives = s.receives.map Receive.notify
  queued : ∀ reply ∈ t.sending ++ t.replies,
    reply ∈ s.sending ++ s.replies ∨ ∃ request, a = .deliver request reply
  handed : ∀ terminal, .handed terminal ∈ t.returned → .handed terminal ∈ s.returned
  returned : s.returned ⊆ t.returned

/-- A step that takes no reply runs beside `receive`. -/
theorem Still.beside (h : s.Still t) (a : ChannelAction) : s.Beside t a := by
  refine ⟨.inl h.receives, fun reply hreply => ?_, fun terminal hhanded => ?_, ?_⟩
  · rw [h.sending, h.replies] at hreply
    exact .inl hreply
  · rwa [h.returned] at hhanded
  · rw [h.returned]
    exact List.Subset.refl _

end RunningChannel

/-- The steps that are not of a call of `receive`. -/
def ChannelAction.isBeside : ChannelAction → Bool
  | .receive | .enable _ | .take _ | .lock _ | .poll _ | .check _ | .cancel _ => false
  | _ => true

/-- Every step outside of `receive` runs beside it. -/
theorem RunningChannel.beside_step {s t : RunningChannel} {a : ChannelAction}
    (ha : a.isBeside = true) (hstep : channelSystem.step s a = some t) : s.Beside t a := by
  cases a with
  | receive | enable _ | take _ | lock _ | poll _ | check _ | cancel _ => cases ha
  | tick _ | markStarted _ _ | markSent _ | markReceiving _ | progress | finishRequest _
  | uploadWaits _ | uploadReady | nativeWrite _ | replyDropped _ =>
    obtain rfl := Option.some.inj hstep
    apply Still.beside
    exact ⟨rfl, rfl, rfl, rfl⟩
  | send body budgets =>
    obtain rfl := Option.some.inj hstep
    exact (still_launch s budgets body none).beside _
  | fail terminal =>
    obtain rfl := Option.some.inj hstep
    exact (still_fail s terminal).beside _
  | retireAndAbort request =>
    obtain rfl := Option.some.inj hstep
    exact (still_retireAndAbort s request).beside _
  | recover room budgets granted =>
    obtain rfl := Option.some.inj hstep
    exact (still_recover s room budgets granted).beside _
  | terminate budgets =>
    obtain ⟨terminal, -, rfl⟩ := Option.map_eq_some_iff.mp hstep
    refine ⟨.inl rfl, fun _ => .inl, fun terminal hhanded => ?_, List.subset_cons_self _ _⟩
    rcases List.mem_cons.mp hhanded with hnew | hold
    · cases hnew
    · exact hold
  | wake =>
    obtain ⟨-, heq⟩ := Option.ite_none_right_eq_some.mp hstep
    obtain rfl := Option.some.inj heq
    exact ⟨.inr rfl, fun _ => .inl, fun _ => id, List.Subset.refl _⟩
  | trySend i =>
    obtain ⟨reply, hreply, rfl⟩ := Option.map_eq_some_iff.mp hstep
    have hmem : reply ∈ s.sending := List.mem_of_getElem? hreply
    unfold RunningChannel.trySend
    dsimp only
    split
    · refine ⟨.inl rfl, fun reply' hreply' => .inl ?_, fun _ => id, List.Subset.refl _⟩
      rcases List.mem_append.mp hreply' with hold | hnew
      · exact List.mem_append_left _ (List.mem_of_mem_eraseIdx hold)
      · rcases List.mem_append.mp hnew with hold | hnew
        · exact List.mem_append_right _ hold
        · rw [List.mem_singleton.mp hnew]
          exact List.mem_append_left _ hmem
    · have hstill := still_fail { s with sending := s.sending.eraseIdx i }
        (.error .outOfMemory "H2 client response queue is full")
      refine ⟨.inl hstill.receives, fun reply' hreply' => .inl ?_, fun terminal hhanded => ?_,
        ?_⟩
      · rw [hstill.sending, hstill.replies] at hreply'
        rcases List.mem_append.mp hreply' with hold | hold
        · exact List.mem_append_left _ (List.mem_of_mem_eraseIdx hold)
        · exact List.mem_append_right _ hold
      · rwa [hstill.returned] at hhanded
      · rw [hstill.returned]
        exact List.Subset.refl _
  | deliver request reply =>
    obtain ⟨-, heq⟩ := Option.ite_none_right_eq_some.mp hstep
    obtain rfl := Option.some.inj heq
    unfold RunningChannel.deliver
    split
    · exact (Still.refl s).beside _
    · dsimp only
      split
      · apply Still.beside
        refine Still.trans ?_ (still_fail _ _)
        exact ⟨rfl, rfl, rfl, rfl⟩
      · refine ⟨.inl rfl, fun reply' hreply' => ?_, fun _ => id, List.Subset.refl _⟩
        rcases List.mem_append.mp hreply' with hsending | hreplies
        · rcases List.mem_append.mp hsending with hold | hnew
          · exact .inl (List.mem_append_left _ hold)
          · rw [List.mem_singleton.mp hnew]
            exact .inr ⟨request, rfl⟩
        · exact .inl (List.mem_append_right _ hreplies)

/-- The reply that a call holds. -/
def Receive.reply? : Receive → Option BufferedReply
  | .popped reply => some reply
  | _ => none

/-- The replies on their way to `download`. -/
def RunningChannel.carried (s : RunningChannel) : List BufferedReply :=
  s.sending ++ s.replies ++ s.receives.filterMap Receive.reply?

/-- The replies that a channel carries come from `deliver`. -/
theorem RunningChannel.Beside.carried {s t : RunningChannel} {a : ChannelAction}
    (h : s.Beside t a) {reply : BufferedReply} (hreply : reply ∈ t.carried) :
    reply ∈ s.carried ∨ ∃ request, a = .deliver request reply := by
  rcases List.mem_append.mp hreply with hqueued | hheld
  · rcases h.queued reply hqueued with hold | hnew
    · exact .inl (List.mem_append_left _ hold)
    · exact .inr hnew
  · apply Or.inl
    apply List.mem_append_right
    rcases h.receives with heq | heq
    · rwa [heq] at hheld
    · rw [heq, List.filterMap_map] at hheld
      obtain ⟨call, hcall, hnotified⟩ := List.mem_filterMap.mp hheld
      apply List.mem_filterMap.mpr
      refine ⟨call, hcall, ?_⟩
      cases call with
      | popped _ => exact hnotified
      | entered | enabled _ | waiting _ | selecting _ => cases hnotified

/-- A step of the only call of `receive`: it goes on, hands out the terminal, or returns the
reply it holds. -/
theorem RunningChannel.call_step {s t : RunningChannel} {a : ChannelAction} {call : Receive}
    (hcall : s.receives = [call]) (ha : a.isReceive = true)
    (hstep : channelSystem.step s a = some t) :
    ((∃ call', t.receives = [call']) ∧ t.returned = s.returned ∧
      ∀ reply ∈ t.carried, reply ∈ s.carried) ∨
    (t.receives = [] ∧ t.sending = s.sending ∧ t.replies = s.replies ∧
      ∃ terminal, s.state.terminal = some terminal ∧
        t.returned = .handed terminal :: s.returned) ∨
    (t.receives = [] ∧ t.sending = s.sending ∧ t.replies = s.replies ∧
      ∃ reply ∈ s.carried, t.returned = .packet reply :: s.returned) := by
  have hset (call' : Receive) : s.receives.set 0 call' = [call'] := by rw [hcall]; rfl
  have herase : s.receives.eraseIdx 0 = [] := by rw [hcall]; rfl
  have hget : s.receives[0]? = some call := by rw [hcall]; rfl
  -- a call that moves on holds no reply
  have hmoved {call' : Receive} {replies : List BufferedReply} (hreplies : replies ⊆ s.replies)
      (hnone : ∀ reply ∈ call'.reply?, reply ∈ s.carried) :
      ∀ reply ∈ s.sending ++ replies ++ [call'].filterMap Receive.reply?, reply ∈ s.carried := by
    intro reply hreply
    rcases List.mem_append.mp hreply with hqueued | hheld
    · apply List.mem_append_left
      rcases List.mem_append.mp hqueued with hold | hold
      · exact List.mem_append_left _ hold
      · exact List.mem_append_right _ (hreplies hold)
    · obtain ⟨other, hother, heq⟩ := List.mem_filterMap.mp hheld
      rw [List.mem_singleton.mp hother] at heq
      exact hnone reply heq
  have hempty {call' : Receive} (hnone : call'.reply? = none) :
      ∀ reply ∈ call'.reply?, reply ∈ s.carried := by
    intro reply hreply
    rw [hnone] at hreply
    cases hreply
  have hzero : a.call? = some 0 := by
    cases a with
    | enable i | take i | lock i | poll i | check i =>
      cases i with
      | zero => rfl
      | succ i => cases ha
    | tick _ | uploadWaits _ | uploadReady | send _ _ | markStarted _ _ | markSent _
    | markReceiving _ | progress | deliver _ _ | trySend _ | finishRequest _ | fail _ | terminate _
    | wake | retireAndAbort _ | recover _ _ _ | nativeWrite _ | replyDropped _ | receive
    | cancel _ => cases ha
  cases RunningChannel.callStep_of_step hzero hstep with
  | moves _ hmoves =>
    refine .inl ⟨⟨_, hset _⟩, rfl, ?_⟩
    rw [RunningChannel.carried, hset]
    apply hmoved (List.Subset.refl _)
    cases hmoves with
    | enable | wait _ | lock | again => exact hempty rfl
  | pops hreplies =>
    refine .inl ⟨⟨_, hset _⟩, rfl, ?_⟩
    rw [RunningChannel.carried, hset]
    apply hmoved
    · rw [hreplies]
      exact List.subset_cons_self _ _
    · intro reply hreply
      obtain rfl := Option.some.inj hreply
      apply List.mem_append_left
      apply List.mem_append_right
      rw [hreplies]
      exact List.mem_cons_self ..
  | hands hterminal => exact .inr (.inl ⟨herase, rfl, rfl, _, hterminal, rfl⟩)
  | packet hheld _ =>
    rw [hget] at hheld
    obtain rfl := Option.some.inj hheld
    refine .inr (.inr ⟨herase, rfl, rfl, _, ?_, rfl⟩)
    apply List.mem_append_right
    rw [hcall]
    exact List.mem_singleton_self _

/-- What steps beside the calls of `receive` keep. -/
structure RunningChannel.Aside (c c' : RunningChannel) : Prop where
  reachable : channelSystem.Reachable c → channelSystem.Reachable c'
  receives : c'.receives.length = c.receives.length
  carried : (∀ reply ∈ c.carried, FitsPacket reply.parts) →
    ∀ reply ∈ c'.carried, FitsPacket reply.parts
  handed : ∀ terminal, .handed terminal ∈ c'.returned → .handed terminal ∈ c.returned
  returned : c.returned ⊆ c'.returned

/-- A step of this kind, whose reply can be written if it delivers one. -/
def ChannelAction.IsAside (a : ChannelAction) : Prop :=
  a.isBeside = true ∧ ∀ request reply, a = .deliver request reply → FitsPacket reply.parts

/-- A step outside of the download loop leaves the terminal that it waits for. -/
theorem RunningChannel.aside_step {c c' : RunningChannel} {a : ChannelAction} (ha : a.IsAside)
    (hstep : channelSystem.step c a = some c') : c.Aside c' := by
  have hbeside := RunningChannel.beside_step ha.1 hstep
  refine ⟨fun hc => hc.step hstep, ?_, fun hfits reply hreply => ?_, hbeside.handed,
    hbeside.returned⟩
  · rcases hbeside.receives with heq | heq
    · rw [heq]
    · rw [heq, List.length_map]
  · rcases hbeside.carried hreply with hold | ⟨request, hnew⟩
    · exact hfits reply hold
    · exact ha.2 request reply hnew

/-- So do all the steps of a section. -/
theorem RunningChannel.aside_run {c c' : RunningChannel} {actions : List ChannelAction}
    (hall : ∀ a ∈ actions, a.IsAside) (hrun : channelSystem.run c actions = some c') :
    c.Aside c' := by
  induction actions generalizing c with
  | nil =>
    obtain rfl := Option.some.inj hrun
    exact ⟨id, rfl, id, fun _ => id, List.Subset.refl _⟩
  | cons a actions ih =>
    obtain ⟨d, hd, hrest⟩ := Option.bind_eq_some_iff.mp hrun
    have hfirst := RunningChannel.aside_step (hall a (List.mem_cons_self ..)) hd
    have hlater := ih (fun a ha => hall a (List.mem_cons_of_mem _ ha)) hrest
    exact ⟨fun hc => hlater.reachable (hfirst.reachable hc),
      hlater.receives.trans hfirst.receives, fun hfits => hlater.carried (hfirst.carried hfits),
      fun terminal h => hfirst.handed terminal (hlater.handed terminal h),
      fun _ h => hlater.returned (hfirst.returned h)⟩

/-- The network runs aside. -/
theorem isAside_of_isOutside {a : ChannelAction} (ha : a.isOutside = true) : a.IsAside := by
  refine ⟨?_, fun request reply heq => ?_⟩
  · cases a <;> first | rfl | cases ha
  · subst heq
    cases ha

/-- Uploads run aside. -/
theorem isAside_of_isUpload {a : ChannelAction} (ha : a.isUpload = true) : a.IsAside := by
  refine ⟨?_, fun request reply heq => ?_⟩
  · cases a <;> first | rfl | cases ha
  · subst heq
    cases ha

/-- A request task delivers only replies that can be written. -/
theorem isAside_answerAction (request : Nat) (response : Response) (memory : Nat → Option IoError)
    (charge : ReplyCharge) : (answerAction request response memory charge).IsAside := by
  unfold answerAction
  split
  · next parts hpost =>
    refine ⟨rfl, fun _ reply heq => ?_⟩
    obtain ⟨-, rfl⟩ := ChannelAction.deliver.inj heq
    exact post_fits hpost
  all_goals exact ⟨rfl, fun _ _ h => by cases h⟩

namespace Life

variable {s : RunningChannel}

/-- The terminal that is recorded is the one of the first `fail`. -/
theorem terminal_eq (h : Life s) {terminal recorded : Terminal}
    (hfailed : .failed terminal ∈ s.returned) (hrecorded : s.state.terminal = some recorded) :
    recorded = terminal := by
  cases h with
  | running _ _ ht _ | swapped _ _ _ ht _ | told _ _ _ _ ht _ _ _ =>
    rw [ht] at hrecorded
    cases hrecorded
  | ended first packets _ ht _ hr hp =>
    obtain rfl := Option.some.inj (ht.symm.trans hrecorded)
    rw [hr] at hfailed
    rcases List.mem_cons.mp hfailed with heq | hmem
    · exact (ReceiveEvent.failed.inj heq).symm
    · cases hp _ hmem

/-- So is the one that has been handed out. -/
theorem handed_eq (h : Life s) {terminal handed : Terminal}
    (hfailed : .failed terminal ∈ s.returned) (hhanded : .handed handed ∈ s.returned) :
    handed = terminal := by
  cases h with
  | running _ _ _ hp | swapped _ _ _ _ hp => cases hp _ hfailed
  | ended first packets _ _ _ hr hp =>
    rw [hr] at hhanded
    rcases List.mem_cons.mp hhanded with heq | hmem
    · cases heq
    · cases hp _ hmem
  | told first later packets _ _ hr hl hp =>
    have hends {e : ReceiveEvent} (he : e ∈ s.returned) (hpacket : ¬e.isPacket = true) :
        e = .handed first ∨ e = .failed first := by
      rw [hr] at he
      rcases List.mem_append.mp he with he | he
      · exact absurd (hl _ he) hpacket
      · rcases List.mem_cons.mp he with rfl | he
        · exact .inl rfl
        · rcases List.mem_cons.mp he with rfl | he
          · exact .inr rfl
          · exact absurd (hp _ he) hpacket
    rcases hends hfailed (by simp [ReceiveEvent.isPacket]) with heq | heq
    · cases heq
    · rcases hends hhanded (by simp [ReceiveEvent.isPacket]) with heq' | heq'
      · rw [ReceiveEvent.handed.inj heq', ReceiveEvent.failed.inj heq]
      · cases heq'

end Life

end TgWsProxy.H2
