import TgWsProxy.H2.Process

/-!
# What a step leaves alone

Reading a process after the helpers that its steps are made of. A helper that concerns
one channel leaves all others, the lanes and the lists of holders as they were.
-/

namespace TgWsProxy.H2

namespace Process

variable {s : Process} {c d l : Nat} {ch old : ChannelInner} {f : ChannelState → ChannelState}
  {terminal : Terminal}

/-- A channel that is found is alive in its slot. -/
theorem channel?_eq_some : s.channel? c = some ch ↔ s.channels[c]? = some (some ch) := by
  simp only [channel?]
  cases s.channels[c]? with
  | none => simp
  | some live => simp

/-- A channel that is found is one of the process. -/
theorem channel?_lt (h : s.channel? c = some ch) : c < s.channels.length :=
  (List.getElem?_eq_some_iff.mp (channel?_eq_some.mp h)).1

/-! ## Replacing a channel -/

/-- Writing one channel back leaves the others. -/
theorem channel?_setChannel (h : s.channel? c = some old) (d : Nat) :
    (s.setChannel c ch).channel? d = if c = d then some ch else s.channel? d := by
  simp only [channel?, setChannel, List.getElem?_set, channel?_lt h, if_true]
  split
  · simp
  · rfl

@[simp] theorem setChannel_length : (s.setChannel c ch).channels.length = s.channels.length := by
  simp [setChannel]

/-- The channel written last is the one that stays. -/
theorem setChannel_setChannel : (s.setChannel c old).setChannel c ch = s.setChannel c ch := by
  simp [setChannel]

/-- A change of a live channel's state replaces the channel. -/
theorem modifyState_of_some (h : s.channel? c = some ch) :
    s.modifyState c f = s.setChannel c { ch with state := f ch.state } := by
  simp only [modifyState, h]

/-- Nothing is changed in a channel that is gone. -/
theorem modifyState_of_none (h : s.channel? c = none) : s.modifyState c f = s := by
  simp only [modifyState, h]

/-- A channel that is there fails in its place. -/
theorem failChannel_of_some (h : s.channel? c = some ch) :
    s.failChannel c terminal = s.setChannel c (ch.fail terminal) := by
  simp only [failChannel, h]

/-- A channel that is gone does not fail. -/
theorem failChannel_of_none (h : s.channel? c = none) : s.failChannel c terminal = s := by
  simp only [failChannel, h]

/-- Changing the state of one channel leaves the others. -/
theorem channel?_modifyState (s : Process) (c d : Nat) (f : ChannelState → ChannelState) :
    (s.modifyState c f).channel? d =
    (s.channel? d).map fun ch => if c = d then { ch with state := f ch.state } else ch := by
  cases hc : s.channel? c with
  | none =>
    rw [modifyState_of_none hc]
    cases hd : s.channel? d with
    | none => rfl
    | some ch =>
      have hne : c ≠ d := by
        rintro rfl
        exact absurd (hc.symm.trans hd) (by simp)
      simp [hne]
  | some ch =>
    rw [modifyState_of_some hc, channel?_setChannel hc]
    split
    · next heq => simp [← heq, hc]
    · simp

/-- Changing a channel touches no task. -/
theorem modifyState_tasks (s : Process) (c : Nat) (f : ChannelState → ChannelState) :
    (s.modifyState c f).tasks = s.tasks := by
  simp only [modifyState]
  split <;> rfl

private theorem modifyState_clock (s : Process) (c : Nat) (f : ChannelState → ChannelState) :
    (s.modifyState c f).clock = s.clock := by
  simp only [modifyState]
  split <;> rfl

/-! ## Channels that come and go -/

/-- A channel that opens is a new one; the others stay. -/
theorem channel?_openChannel (s : Process) (l d : Nat) : (s.openChannel l).channel? d =
    if s.channels.length = d then some { lane := l, state := { lastProgress := some s.clock } }
    else s.channel? d := by
  simp only [channel?, openChannel, modifyLane, List.getElem?_append, List.getElem?_singleton]
  rcases Nat.lt_trichotomy d s.channels.length with hlt | rfl | hgt
  · simp [hlt, Nat.ne_of_gt hlt]
  · simp
  · simp [Nat.not_lt_of_gt hgt, Nat.ne_of_lt hgt, Nat.sub_ne_zero_of_lt hgt]

/-- A channel that opens is one more. -/
theorem openChannel_length (s : Process) (l : Nat) :
    (s.openChannel l).channels.length = s.channels.length + 1 := by
  simp [openChannel, modifyLane]

/-- What is left once a channel is dropped was there before. -/
theorem channel?_set_none {budgets : Budgets}
    (h : Process.channel? { s with channels := s.channels.set c none, budgets } d = some ch) :
    s.channel? d = some ch ∧ c ≠ d := by
  simp only [channel?, List.getElem?_set] at h
  split at h
  · split at h
    · cases h
    · cases h
  · next hne => exact ⟨h, hne⟩

/-! ## Dropping a task -/

/-- Dropping a task takes no time. -/
theorem dropTask_clock (s : Process) (t : RequestTask) : (s.dropTask t).clock = s.clock := by
  simp only [dropTask, modifyState_clock, discard]
  split <;> rfl

/-- A dropped task finishes its request and touches no other channel. -/
theorem channel?_dropTask (s : Process) (t : RequestTask) (d : Nat) : (s.dropTask t).channel? d =
    (s.channel? d).map fun ch => if t.guard.channel = d then
      { ch with state := ch.state.finishRequest t.guard.request } else ch := by
  have hdiscard : (s.discard t.charge).channel? d = s.channel? d := by
    simp only [discard]
    split <;> rfl
  rw [← hdiscard]
  exact channel?_modifyState ..

/-! ## Charging a reply -/

/-- Charging a reply touches no task. -/
theorem chargeReply_tasks (s : Process) (l bytes : Nat) :
    (s.chargeReply l bytes).2.tasks = s.tasks := by
  simp only [chargeReply]
  split
  · rfl
  · split <;> rfl

/-- Extending a charge touches no task. -/
theorem tryExtend_tasks (s : Process) (charge : ReplyCharge) (bytes : Nat) :
    (s.tryExtend charge bytes).2.2.tasks = s.tasks := by
  simp only [tryExtend]
  split
  · rfl
  · split <;> rfl

/-- An extension does not look at the tasks. -/
theorem tryExtend_withTasks {s' : Process} {charge charge' : ReplyCharge} {bytes : Nat}
    {extended : Bool}
    (h : s.tryExtend charge bytes = (extended, charge', s')) (tasks : List RequestTask) :
    Process.tryExtend { s with tasks } charge bytes = (extended, charge', { s' with tasks }) := by
  simp only [tryExtend] at h ⊢
  split at h
  · simp only [Prod.mk.injEq] at h
    obtain ⟨rfl, rfl, rfl⟩ := h
    simp only
  · split at h
    all_goals
      next hlane =>
      simp only [Prod.mk.injEq] at h
      obtain ⟨rfl, rfl, rfl⟩ := h
      simp only [hlane]
      rfl

end Process

end TgWsProxy.H2
