import TgWsProxy.H2.Frame
import TgWsProxy.H2.History

/-!
# Steps that move no request

Most helpers leave every channel, request, task and reservation in its place; `Unmoved` says so for
one of them.
-/

namespace TgWsProxy.H2

open TgWsProxy.Core

/-! ## Helpers that move no request -/

/-- What stays of a task until it is dropped. -/
def RequestTask.order (t : RequestTask) : Nat × Bytes × RequestGuard := (t.lane, t.body, t.guard)

/-- A channel of the same lane with the same requests, valid if it was. -/
structure ChannelInner.Calm (ch ch' : ChannelInner) : Prop where
  lane : ch'.lane = ch.lane
  pending : ∀ id, id ∈ ch'.state.pending ↔ id ∈ ch.state.pending
  valid : ch.state.Valid → ch'.state.Valid

/-- No channel, request, task or reservation comes or goes. -/
structure Unmoved (s s' : Process) : Prop where
  laneCount : s'.laneCount = s.laneCount
  registered : ∀ l, (s'.lanes l).channels = (s.lanes l).channels
  length : s'.channels.length = s.channels.length
  channel : ∀ c ch', s'.channel? c = some ch' → ∃ ch, s.channel? c = some ch ∧ ch.Calm ch'
  alive : ∀ c ch, s.channel? c = some ch → ∃ ch', s'.channel? c = some ch'
  reservations : s'.reservations = s.reservations
  tasks : s'.tasks.map (·.order) = s.tasks.map (·.order)

variable {s s' s'' : Process} {c d l i : Nat} {ch ch' : ChannelInner}
  {f : ChannelState → ChannelState}

/-- A channel is calm as it is. -/
theorem ChannelInner.Calm.refl (ch : ChannelInner) : ch.Calm ch := ⟨rfl, fun _ => Iff.rfl, id⟩

namespace Unmoved

/-- Nothing moves. -/
theorem refl (s : Process) : Unmoved s s :=
  ⟨rfl, fun _ => rfl, rfl, fun _ ch h => ⟨ch, h, .refl ch⟩, fun _ ch h => ⟨ch, h⟩, rfl, rfl⟩

/-- Steps in sequence that move nothing. -/
theorem trans (h : Unmoved s s') (h' : Unmoved s' s'') : Unmoved s s'' where
  laneCount := h'.laneCount.trans h.laneCount
  registered l := (h'.registered l).trans (h.registered l)
  length := h'.length.trans h.length
  channel c ch hch := by
    obtain ⟨ch₁, hch₁, hcalm₁⟩ := h'.channel c ch hch
    obtain ⟨ch₀, hch₀, hcalm₀⟩ := h.channel c ch₁ hch₁
    exact ⟨ch₀, hch₀, hcalm₁.lane.trans hcalm₀.lane,
      fun id => (hcalm₁.pending id).trans (hcalm₀.pending id), hcalm₁.valid ∘ hcalm₀.valid⟩
  alive c ch hch := by
    obtain ⟨ch₁, hch₁⟩ := h.alive c ch hch
    exact h'.alive c ch₁ hch₁
  reservations := h'.reservations.trans h.reservations
  tasks := h'.tasks.trans h.tasks

/-- Only counters, budgets, held replies and the like differ. -/
theorem of_eq (hchannels : s'.channels = s.channels)
    (hreservations : s'.reservations = s.reservations)
    (htasks : s'.tasks.map (·.order) = s.tasks.map (·.order)) (hcount : s'.laneCount = s.laneCount)
    (hlanes : ∀ l, (s'.lanes l).channels = (s.lanes l).channels) : Unmoved s s' := by
  have hsame : ∀ c, s'.channel? c = s.channel? c := fun c => by
    simp only [Process.channel?, hchannels]
  refine ⟨hcount, hlanes, by rw [hchannels], fun c ch h => ⟨ch, hsame c ▸ h, .refl ch⟩,
    fun c ch h => ⟨ch, (hsame c).trans h⟩, hreservations, htasks⟩

/-- A calm channel that is written back moves nothing. -/
theorem setChannel (hch : s.channel? c = some ch) (hcalm : ch.Calm ch') :
    Unmoved s (s.setChannel c ch') := by
  refine ⟨rfl, fun _ => rfl, Process.setChannel_length, fun d other h => ?_, fun d other h => ?_,
    rfl, rfl⟩
  · rw [Process.channel?_setChannel hch] at h
    split at h
    · next heq =>
      obtain rfl := Option.some.inj h
      exact ⟨ch, heq ▸ hch, hcalm⟩
    · exact ⟨other, h, .refl other⟩
  · rw [Process.channel?_setChannel hch]
    split
    · exact ⟨ch', rfl⟩
    · exact ⟨other, h⟩

/-- A change that keeps the pending requests moves nothing. -/
theorem modifyState (hf : ∀ st : ChannelState, (∀ id, id ∈ (f st).pending ↔ id ∈ st.pending) ∧
    (st.Valid → (f st).Valid)) : Unmoved s (s.modifyState c f) := by
  cases hc : s.channel? c with
  | none =>
    rw [Process.modifyState_of_none hc]
    exact refl s
  | some ch =>
    rw [Process.modifyState_of_some hc]
    exact setChannel hc ⟨rfl, (hf ch.state).1, (hf ch.state).2⟩

/-- A failure moves nothing. -/
theorem failChannel (s : Process) (c : Nat) (terminal : Terminal) :
    Unmoved s (s.failChannel c terminal) := by
  cases hc : s.channel? c with
  | none =>
    rw [Process.failChannel_of_none hc]
    exact refl s
  | some ch =>
    rw [Process.failChannel_of_some hc]
    refine setChannel hc ?_
    simp only [ChannelInner.fail]
    split
    · exact .refl ch
    · exact ⟨rfl, fun _ => Iff.rfl, id⟩

/-- A task that is told to stop is not moved. -/
theorem abortTasks (s : Process) (p : RequestTask → Bool) : Unmoved s (s.abortTasks p) := by
  refine of_eq rfl rfl ?_ rfl fun _ => rfl
  simp only [Process.abortTasks, List.map_map]
  refine List.map_congr_left fun t _ => ?_
  simp only [Function.comp_apply]
  split <;> rfl

/-- A change that keeps the channels of a lane moves nothing. -/
theorem modifyLane {f : Lane → Lane} (hf : ∀ lane, (f lane).channels = lane.channels) :
    Unmoved s (s.modifyLane l f) := by
  refine of_eq rfl rfl rfl rfl fun k => ?_
  simp only [Process.modifyLane, Function.update_apply]
  split
  · next heq => rw [hf, heq]
  · rfl

/-- A task that keeps its order is not moved. -/
theorem setTask {t t' : RequestTask} (ht : s.tasks[i]? = some t) (horder : t'.order = t.order) :
    Unmoved s { s with tasks := s.tasks.set i t' } := by
  refine of_eq rfl rfl ?_ rfl fun _ => rfl
  have hget : (s.tasks.map (·.order))[i]? = some t.order := by simp [ht]
  obtain ⟨hlt, heq⟩ := List.getElem?_eq_some_iff.mp hget
  rw [List.map_set, horder, ← heq, List.set_getElem_self]

/-! ## Replies -/

/-- Dropping a charge moves nothing. -/
theorem dropCharge (s : Process) (charge : ReplyCharge) : Unmoved s (s.dropCharge charge) := by
  refine trans ?_ (modifyLane ?_)
  · exact of_eq rfl rfl rfl rfl fun _ => rfl
  · exact fun _ => rfl

/-- Discarding a charge moves nothing. -/
theorem discard (s : Process) (charge : Option ReplyCharge) : Unmoved s (s.discard charge) := by
  cases charge with
  | none => exact refl s
  | some charge => exact dropCharge s charge

/-- Dropping a reply moves nothing. -/
theorem dropReply (s : Process) (reply : BufferedReply) : Unmoved s (s.dropReply reply) := by
  simp only [Process.dropReply]
  split
  · exact (dropCharge ..).trans
      (modifyState fun st => ⟨fun _ => Iff.rfl, fun h => h.congr rfl rfl rfl rfl⟩)
  · exact dropCharge ..

/-- Delivering a reply moves no request. -/
theorem deliver (s : Process) (c request : Nat) (reply : BufferedReply) :
    Unmoved s (s.deliver c request reply) := by
  simp only [Process.deliver]
  split
  · exact dropReply ..
  · next ch hch =>
    split
    · exact dropReply ..
    · have hvalid : ch.state.Valid → ∀ bytes : Nat, ({ ch.state.noteReply request reply.replayId
          s.clock with replyBytes := bytes } : ChannelState).Valid :=
        fun h bytes => (h.noteReply request reply.replayId s.clock).congr rfl rfl rfl rfl
      split
      · refine trans (trans (setChannel hch ?_) (failChannel ..)) (dropReply ..)
        exact ⟨rfl, fun _ => Iff.rfl, fun h => h.noteReply ..⟩
      · split
        · exact setChannel hch ⟨rfl, fun _ => Iff.rfl, fun h => hvalid h _⟩
        · refine trans (trans (setChannel hch ?_) (dropReply ..)) (failChannel ..)
          exact ⟨rfl, fun _ => Iff.rfl, fun h => hvalid h _⟩

/-- Charging a reply moves nothing. -/
theorem chargeReply (s : Process) (l bytes : Nat) : Unmoved s (s.chargeReply l bytes).2 := by
  simp only [Process.chargeReply]
  split
  · exact refl s
  · split
    · exact of_eq rfl rfl rfl rfl fun _ => rfl
    · dsimp only
      refine trans ?_ (modifyLane ?_)
      · exact of_eq rfl rfl rfl rfl fun _ => rfl
      · exact fun _ => rfl

/-- Extending a charge moves nothing. -/
theorem tryExtend (s : Process) (charge : ReplyCharge) (bytes : Nat) :
    Unmoved s (s.tryExtend charge bytes).2.2 := by
  simp only [Process.tryExtend]
  split
  · exact refl s
  · split
    · exact of_eq rfl rfl rfl rfl fun _ => rfl
    · dsimp only
      refine trans ?_ (modifyLane ?_)
      · exact of_eq rfl rfl rfl rfl fun _ => rfl
      · exact fun _ => rfl

/-! ## Aborting -/

/-- A request that is retired and aborted stays until its task ends. -/
theorem retireAndAbort (s : Process) (c request : Nat) :
    Unmoved s (s.retireAndAbort c request) := by
  simp only [Process.retireAndAbort]
  split
  · exact refl s
  · next ch hch =>
    split
    · refine trans (setChannel hch ?_) (abortTasks ..)
      exact ⟨rfl, fun _ => by rw [ChannelState.retire_pending], fun h => h.retire request⟩
    · exact refl s

/-- Making room moves nothing by itself. -/
theorem makeRoom (s : Process) (c bytes : Nat) : Unmoved s (s.makeRoom c bytes) := by
  simp only [Process.makeRoom]
  split
  · exact retireAndAbort ..
  · exact refl s

/-- Failures of several channels move nothing. -/
theorem failChannels (s : Process) (channels : List Nat) (terminal : Terminal) :
    Unmoved s (channels.foldl (fun s c => s.failChannel c terminal) s) := by
  induction channels generalizing s with
  | nil => exact refl s
  | cons c channels ih => exact (failChannel s c terminal).trans (ih _)

/-- Dropping several replies moves nothing. -/
theorem dropReplies (s : Process) (replies : List BufferedReply) :
    Unmoved s (replies.foldl Process.dropReply s) := by
  induction replies generalizing s with
  | nil => exact refl s
  | cons reply replies ih => exact (dropReply s reply).trans (ih _)

/-! ## The end of a request's reply -/

/-- A task that has its outcome is not moved before it is dropped. -/
theorem finish {t : RequestTask} {outcome : Outcome} (ht : s.tasks[i]? = some t)
    (h : s.finish i t outcome = some s') : Unmoved s s' := by
  have hdone :
      Unmoved s { s with tasks := s.tasks.set i { t with stage := .done, charge := none } } :=
    setTask ht rfl
  simp only [Process.finish] at h
  split at h
  · split at h
    · split at h
      · obtain rfl := Option.some.inj h
        exact hdone.trans (deliver ..)
      · cases h
    · cases h
  · split at h
    · obtain rfl := Option.some.inj h
      exact (hdone.trans (discard ..)).trans
        (modifyState fun st => ⟨fun _ => Iff.rfl, fun h => h.congr rfl rfl rfl rfl⟩)
    · cases h
  · obtain rfl := Option.some.inj h
    exact (hdone.trans (discard ..)).trans (failChannel ..)

/-- Charging a task moves nothing. -/
theorem charge {t : RequestTask} {bytes : Nat} (ht : s.tasks[i]? = some t) :
    Unmoved s (s.charge i t bytes) := by
  simp only [Process.charge]
  split
  · have hcharged := chargeReply s t.lane bytes
    have ht' : (s.chargeReply t.lane bytes).2.tasks[i]? = some t := by
      rw [Process.chargeReply_tasks, ht]
    generalize s.chargeReply t.lane bytes = charged at *
    split
    · exact hcharged.trans (setTask ht' rfl)
    · refine trans ?_ (failChannel ..)
      exact hcharged.trans (setTask ht' rfl)
  · next charge _ =>
    have hextended := tryExtend s charge bytes
    have ht' : (s.tryExtend charge bytes).2.2.tasks[i]? = some t := by
      rw [Process.tryExtend_tasks, ht]
    generalize s.tryExtend charge bytes = extended at *
    split
    · exact hextended.trans (setTask ht' rfl)
    · refine trans (trans ?_ (dropCharge ..)) (failChannel ..)
      exact hextended.trans (setTask ht' rfl)

end Unmoved

end TgWsProxy.H2
