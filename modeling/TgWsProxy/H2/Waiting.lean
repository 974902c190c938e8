import TgWsProxy.Core.Transition
import TgWsProxy.H2.Budget

/-!
# Waiting for capacity

`Budget::acquire` of `cf_h2.rs` under every interleaving. A call registers for the next
notification before it looks at the budget; a release updates the budget and notifies
later. The state holds the notifications that are still to come.
-/

namespace TgWsProxy.H2

open TgWsProxy.Core

/-- Where a call of `acquire` stands. -/
inductive AcquireStage
  /-- It has a `Notified` that is not registered yet. -/
  | created
  | enabled
  /-- `try_acquire` has found no capacity. -/
  | refused
  /-- It has read how much time remains. -/
  | measured (remaining : Nat)
  /-- It awaits the notification, until the timer runs out. -/
  | parked (timer : Nat)
  | granted
  | timedOut (time : Nat)
  /-- Dropped where it waits. -/
  | cancelled
  deriving DecidableEq

namespace AcquireStage

/-- Whether `notify_waiters` reaches the call. -/
def listens : AcquireStage → Bool
  | .enabled | .refused | .measured _ | .parked _ => true
  | _ => false

/-- Whether the call has found no capacity and not looked again. -/
def awaits : AcquireStage → Bool
  | .refused | .measured _ | .parked _ => true
  | _ => false

private theorem listens_of_awaits {stage : AcquireStage} (h : stage.awaits = true) :
    stage.listens = true := by
  cases stage with
  | refused | measured _ | parked _ => rfl
  | created | enabled | granted | timedOut _ | cancelled => cases h

end AcquireStage

/-- A call of `acquire`. -/
structure Waiter where
  budget : BudgetId
  bytes : Nat
  deadline : Nat
  stage : AcquireStage := .created
  /-- Notified since it was registered. -/
  woken : Bool := false
  /-- What its calls of `try_acquire` have found, the latest first. -/
  checks : List Budget := []

/-- `notify_waiters` of one budget, as a call sees it. -/
def Waiter.notify (id : BudgetId) (w : Waiter) : Waiter :=
  if w.budget = id ∧ w.stage.listens = true then { w with woken := true } else w

/-- The budgets of a process with the calls that wait for them. -/
structure WaitedBudgets where
  clock : Nat := 0
  budgets : Budgets
  permits : List BudgetPermit := []
  waiters : List Waiter := []
  /-- The budgets of the releases that have updated the state and not notified yet. -/
  releasing : List BudgetId := []

/-- The steps; calls of `acquire` are named by their positions. -/
inductive WaitingAction
  | tick (elapsed : Nat)
  | acquire (id : BudgetId) (bytes limit : Nat)
  | enable (call : Nat)
  /-- The `try_acquire` of the call. -/
  | check (call : Nat)
  /-- It reads the remaining time. -/
  | measure (call : Nat)
  /-- It creates the timeout and awaits. -/
  | park (call : Nat)
  /-- It is polled where it waits. -/
  | resume (call : Nat)
  | cancel (call : Nat)
  /-- `try_acquire` by a task that does not wait. -/
  | tryAcquire (id : BudgetId) (bytes : Nat)
  | tryExtendBytes (permit : BudgetPermit) (bytes : Nat)
  /-- `shrink_bytes` up to its notification. -/
  | shrinkBytes (permit : BudgetPermit) (bytes : Nat)
  /-- The drop of a permit up to its notification. -/
  | drop (permit : BudgetPermit)
  /-- The `notify_waiters` of a release. -/
  | notifyWaiters (id : BudgetId)
  /-- A `notify_waiters` by `fail` or `finish_request`. -/
  | notifyOther (id : BudgetId)

namespace WaitedBudgets

/-- Move a call on. -/
def setWaiter (s : WaitedBudgets) (call : Nat) (w : Waiter) : WaitedBudgets :=
  { s with waiters := s.waiters.set call w }

/-- The `try_acquire` of a call that is registered. -/
def check (s : WaitedBudgets) (call : Nat) (w : Waiter) : WaitedBudgets :=
  let w := { w with checks := s.budgets w.budget :: w.checks }
  match H2.tryAcquire s.budgets w.budget w.bytes with
  | some (permit, budgets) =>
    { s with budgets, permits := permit :: s.permits }.setWaiter call { w with stage := .granted }
  | none => s.setWaiter call { w with stage := .refused }

/-- `timeout` polls the notification before the timer. -/
def resume (s : WaitedBudgets) (call : Nat) (w : Waiter) (timer : Nat) : Option WaitedBudgets :=
  if w.woken then some (s.setWaiter call { w with stage := .created, woken := false })
  else if timer ≤ s.clock then some (s.setWaiter call { w with stage := .timedOut s.clock })
  else none

/-- The effect of one step. -/
def step (s : WaitedBudgets) : WaitingAction → Option WaitedBudgets
  | .tick elapsed => some { s with clock := s.clock + elapsed }
  | .acquire id bytes limit =>
    some { s with waiters := s.waiters ++ [{ budget := id, bytes, deadline := s.clock + limit }] }
  | .enable call =>
    (s.waiters[call]?.filter (·.stage = .created)).map fun w =>
      s.setWaiter call { w with stage := .enabled }
  | .check call => (s.waiters[call]?.filter (·.stage = .enabled)).map (s.check call)
  | .measure call =>
    (s.waiters[call]?.filter (·.stage = .refused)).map fun w =>
      let remaining := w.deadline - s.clock
      if remaining = 0 then s.setWaiter call { w with stage := .timedOut s.clock }
      else s.setWaiter call { w with stage := .measured remaining }
  | .park call =>
    s.waiters[call]?.bind fun w =>
      match w.stage with
      | .measured remaining =>
        some (s.setWaiter call { w with stage := .parked (s.clock + remaining) })
      | _ => none
  | .resume call =>
    s.waiters[call]?.bind fun w =>
      match w.stage with
      | .parked timer => s.resume call w timer
      | _ => none
  | .cancel call =>
    s.waiters[call]?.bind fun w =>
      match w.stage with
      | .parked _ => some (s.setWaiter call { w with stage := .cancelled })
      | _ => none
  | .tryAcquire id bytes =>
    (H2.tryAcquire s.budgets id bytes).map fun (permit, budgets) =>
      { s with budgets, permits := permit :: s.permits }
  | .tryExtendBytes permit bytes =>
    if permit ∈ s.permits then
      (H2.tryExtendBytes s.budgets permit bytes).map fun (permit', budgets) =>
        { s with budgets, permits := permit' :: s.permits.erase permit }
    else none
  | .shrinkBytes permit bytes =>
    if permit ∈ s.permits ∧ bytes ≤ permit.bytes then
      some { s with
        budgets := (H2.shrinkBytes s.budgets permit bytes).2
        permits := (H2.shrinkBytes s.budgets permit bytes).1 :: s.permits.erase permit
        releasing := permit.budget :: s.releasing }
    else none
  | .drop permit =>
    if permit ∈ s.permits then
      some { s with
        budgets := dropPermit s.budgets permit
        permits := s.permits.erase permit
        releasing := permit.budget :: s.releasing }
    else none
  | .notifyWaiters id =>
    if id ∈ s.releasing then
      some { s with waiters := s.waiters.map (·.notify id), releasing := s.releasing.erase id }
    else none
  | .notifyOther id => some { s with waiters := s.waiters.map (·.notify id) }

end WaitedBudgets

/-- The budgets of a process from its start on. -/
def waitingSystem : System WaitedBudgets WaitingAction where
  start s := s.permits = [] ∧ s.waiters = [] ∧ s.releasing = [] ∧
    ∀ id, (s.budgets id).requests = 0 ∧ (s.budgets id).bytes = 0
  step := WaitedBudgets.step

/-! ## Capacity -/

variable {budgets budgets' : Budgets} {id other : BudgetId} {permit permit' : BudgetPermit}
  {bytes size : Nat}

private theorem hasCapacity_iff {b : Budget} :
    b.hasCapacity bytes = true ↔ b.requests < b.maxRequests ∧ b.bytes + bytes ≤ b.maxBytes := by
  rw [Budget.hasCapacity, Bool.and_eq_true, decide_eq_true_eq, decide_eq_true_eq]

/-- `try_acquire` refuses exactly without capacity. -/
theorem hasCapacity_of_refused (h : tryAcquire budgets id bytes = none) :
    (budgets id).hasCapacity bytes = false := by
  rw [Bool.eq_false_iff, ne_eq, hasCapacity_iff]
  simp only [tryAcquire] at h
  split at h
  · omega
  · cases h

/-- Taking a permit makes no room. -/
theorem hasCapacity_of_tryAcquire (h : tryAcquire budgets id bytes = some (permit, budgets'))
    (hcapacity : (budgets' other).hasCapacity size = true) :
    (budgets other).hasCapacity size = true := by
  simp only [tryAcquire] at h
  split at h
  · cases h
  · obtain ⟨rfl, rfl⟩ := Prod.mk.inj (Option.some.inj h)
    by_cases hid : other = id
    · subst hid
      rw [Function.update_self, hasCapacity_iff] at hcapacity
      rw [hasCapacity_iff]
      dsimp only at hcapacity
      omega
    · rwa [Function.update_of_ne hid] at hcapacity

/-- Growing a permit makes no room. -/
theorem hasCapacity_of_tryExtend
    (h : tryExtendBytes budgets permit bytes = some (permit', budgets'))
    (hcapacity : (budgets' other).hasCapacity size = true) :
    (budgets other).hasCapacity size = true := by
  simp only [tryExtendBytes] at h
  split at h
  · cases h
  · obtain ⟨rfl, rfl⟩ := Prod.mk.inj (Option.some.inj h)
    by_cases hid : other = permit.budget
    · subst hid
      rw [Function.update_self, hasCapacity_iff] at hcapacity
      rw [hasCapacity_iff]
      dsimp only at hcapacity
      omega
    · rwa [Function.update_of_ne hid] at hcapacity

/-! ## The invariant -/

/-- What holds of a call: while it awaits and is not woken, room in its budget means that
a notification is to come. -/
structure Waiter.Attended (clock : Nat) (budgets : Budgets) (releasing : List BudgetId)
    (w : Waiter) : Prop where
  awaited : w.stage.awaits = true → w.woken = false →
    (budgets w.budget).hasCapacity w.bytes = true → w.budget ∈ releasing
  found : w.stage.awaits = true ∨ (∃ time, w.stage = .timedOut time) →
    ∃ b rest, w.checks = b :: rest ∧ b.hasCapacity w.bytes = false
  measured : ∀ remaining, w.stage = .measured remaining → w.deadline ≤ clock + remaining
  timer : ∀ timer, w.stage = .parked timer → w.deadline ≤ timer
  late : ∀ time, w.stage = .timedOut time → w.deadline ≤ time

namespace Waiter.Attended

variable {clock clock' : Nat} {releasing releasing' : List BudgetId} {w : Waiter}

/-- Nothing that a call waits for gets lost when room shrinks, time passes or more
notifications are to come. -/
theorem mono (h : w.Attended clock budgets releasing) (hclock : clock ≤ clock')
    (hroom : ∀ id size, (budgets' id).hasCapacity size = true →
      (budgets id).hasCapacity size = true)
    (hreleasing : releasing ⊆ releasing') : w.Attended clock' budgets' releasing' where
  awaited hawaits hwoken hcapacity :=
    hreleasing (h.awaited hawaits hwoken (hroom _ _ hcapacity))
  found := h.found
  measured remaining hstage := by
    have := h.measured remaining hstage
    omega
  timer := h.timer
  late := h.late

/-- A release announces its notification. -/
theorem release (h : w.Attended clock budgets releasing)
    (hother : ∀ id, id ≠ other → budgets' id = budgets id) :
    w.Attended clock budgets' (other :: releasing) where
  awaited hawaits hwoken hcapacity := by
    by_cases hid : w.budget = other
    · rw [hid]
      exact List.mem_cons_self ..
    · rw [hother _ hid] at hcapacity
      exact List.mem_cons_of_mem _ (h.awaited hawaits hwoken hcapacity)
  found := h.found
  measured := h.measured
  timer := h.timer
  late := h.late

/-- A notification wakes every call that relies on it. -/
theorem notify (h : w.Attended clock budgets releasing) (id : BudgetId)
    (hreleasing : ∀ id' ∈ releasing, id' ≠ id → id' ∈ releasing') :
    (w.notify id).Attended clock budgets releasing' := by
  unfold Waiter.notify
  split
  · exact ⟨fun _ hwoken => (nomatch hwoken), h.found, h.measured, h.timer, h.late⟩
  · next hmissed =>
    refine ⟨fun hawaits hwoken hcapacity => ?_, h.found, h.measured, h.timer, h.late⟩
    apply hreleasing _ (h.awaited hawaits hwoken hcapacity)
    intro hid
    exact hmissed ⟨hid, AcquireStage.listens_of_awaits hawaits⟩

end Waiter.Attended

namespace WaitedBudgets

variable {s t : WaitedBudgets}

/-- No call misses a notification. -/
def Attended (s : WaitedBudgets) : Prop :=
  ∀ w ∈ s.waiters, w.Attended s.clock s.budgets s.releasing

/-- One waiter that is attended takes the place of another. -/
theorem Attended.setWaiter (h : s.Attended) {call : Nat} {w : Waiter}
    (hw : w.Attended s.clock s.budgets s.releasing) : (s.setWaiter call w).Attended := by
  intro other hother
  rcases List.mem_or_eq_of_mem_set hother with hold | rfl
  · exact h other hold
  · exact hw

/-- The calls stay attended when nothing makes room. -/
theorem Attended.mono (h : s.Attended) (hwaiters : t.waiters = s.waiters)
    (hclock : s.clock ≤ t.clock)
    (hroom : ∀ id size, (t.budgets id).hasCapacity size = true →
      (s.budgets id).hasCapacity size = true)
    (hreleasing : s.releasing ⊆ t.releasing) : t.Attended := by
  intro w hw
  rw [hwaiters] at hw
  exact (h w hw).mono hclock hroom hreleasing

/-- A release is noted before its notification. -/
theorem Attended.release (h : s.Attended) {id : BudgetId} (hwaiters : t.waiters = s.waiters)
    (hclock : t.clock = s.clock) (hother : ∀ id', id' ≠ id → t.budgets id' = s.budgets id')
    (hreleasing : t.releasing = id :: s.releasing) : t.Attended := by
  intro w hw
  rw [hwaiters] at hw
  rw [hclock, hreleasing]
  exact (h w hw).release hother

/-- A notification attends to those who listen. -/
theorem Attended.notify (h : s.Attended) {id : BudgetId}
    (hwaiters : t.waiters = s.waiters.map (·.notify id)) (hclock : t.clock = s.clock)
    (hbudgets : t.budgets = s.budgets)
    (hreleasing : ∀ id' ∈ s.releasing, id' ≠ id → id' ∈ t.releasing) : t.Attended := by
  intro w hw
  rw [hwaiters] at hw
  obtain ⟨old, hold, rfl⟩ := List.mem_map.mp hw
  rw [hclock, hbudgets]
  exact (h old hold).notify id hreleasing

/-- A call that looks at the budget is refused by what it finds there. -/
theorem Attended.check (h : s.Attended) {call : Nat} {w : Waiter} : (s.check call w).Attended := by
  unfold WaitedBudgets.check
  dsimp only
  split
  · next permit budgets hacquire =>
    apply Attended.setWaiter
    · exact h.mono rfl (Nat.le_refl _) (fun _ _ => hasCapacity_of_tryAcquire hacquire)
        (List.Subset.refl _)
    · constructor <;> simp [AcquireStage.awaits]
  · next hrefused =>
    have hfull := hasCapacity_of_refused hrefused
    apply h.setWaiter
    refine ⟨fun _ _ hcapacity => ?_, fun _ => ⟨_, _, rfl, hfull⟩, ?_, ?_, ?_⟩
    · rw [hfull] at hcapacity
      cases hcapacity
    all_goals simp

/-- A waiter that wakes looks again or is out of time. -/
theorem Attended.resume (h : s.Attended) {call timer : Nat} {w : Waiter}
    (hw : w.Attended s.clock s.budgets s.releasing) (hstage : w.stage = .parked timer)
    (hresume : s.resume call w timer = some t) : t.Attended := by
  unfold WaitedBudgets.resume at hresume
  split at hresume
  · obtain rfl := Option.some.inj hresume
    apply h.setWaiter
    constructor <;> simp [AcquireStage.awaits]
  · split at hresume
    · next helapsed =>
      obtain rfl := Option.some.inj hresume
      apply h.setWaiter
      refine ⟨by simp [AcquireStage.awaits], fun _ => hw.found ?_, by simp, by simp,
        fun time htime => ?_⟩
      · rw [hstage]
        exact Or.inl rfl
      · obtain rfl := AcquireStage.timedOut.inj htime
        exact Nat.le_trans (hw.timer timer hstage) helapsed
    · cases hresume

/-- The call that an action is about, at its stage. -/
theorem mem_of_filter {call : Nat} {stage : AcquireStage} {f : Waiter → WaitedBudgets}
    (h : (s.waiters[call]?.filter (·.stage = stage)).map f = some t) :
    ∃ w ∈ s.waiters, w.stage = stage ∧ t = f w := by
  obtain ⟨w, hw, rfl⟩ := Option.map_eq_some_iff.mp h
  obtain ⟨hcall, hstage⟩ := Option.filter_eq_some_iff.mp hw
  exact ⟨w, List.mem_of_getElem? hcall, of_decide_eq_true hstage, rfl⟩

/-- Every step keeps the waiters attended. -/
theorem Attended.step (h : s.Attended) {a : WaitingAction} (hstep : s.step a = some t) :
    t.Attended := by
  have hsame : ∀ id size, (s.budgets id).hasCapacity size = true →
      (s.budgets id).hasCapacity size = true := fun _ _ hcapacity => hcapacity
  cases a with
  | tick elapsed =>
    obtain rfl := Option.some.inj hstep
    exact h.mono rfl (Nat.le_add_right _ _) hsame (List.Subset.refl _)
  | acquire id bytes limit =>
    obtain rfl := Option.some.inj hstep
    intro w hw
    rcases List.mem_append.mp hw with hold | hnew
    · exact h w hold
    · rw [List.mem_singleton.mp hnew]
      constructor <;> simp [AcquireStage.awaits]
  | enable call =>
    obtain ⟨w, -, -, rfl⟩ := mem_of_filter hstep
    apply h.setWaiter
    constructor <;> simp [AcquireStage.awaits]
  | check call =>
    obtain ⟨w, -, -, rfl⟩ := mem_of_filter hstep
    exact h.check
  | measure call =>
    obtain ⟨w, hw, hstage, rfl⟩ := mem_of_filter hstep
    have hawaits : w.stage.awaits = true := by
      rw [hstage]
      rfl
    have hold := h w hw
    dsimp only
    split
    · next hzero =>
      apply h.setWaiter
      refine ⟨by simp [AcquireStage.awaits], fun _ => hold.found (Or.inl hawaits), by simp, by simp,
        fun time htime => ?_⟩
      obtain rfl := AcquireStage.timedOut.inj htime
      exact Nat.sub_eq_zero_iff_le.mp hzero
    · apply h.setWaiter
      refine ⟨fun _ => hold.awaited hawaits, fun _ => hold.found (Or.inl hawaits),
        fun remaining hremaining => ?_, by simp, by simp⟩
      obtain rfl := AcquireStage.measured.inj hremaining
      exact Nat.sub_le_iff_le_add'.mp (Nat.le_refl _)
  | park call =>
    obtain ⟨w, hcall, hpark⟩ := Option.bind_eq_some_iff.mp hstep
    have hold := h w (List.mem_of_getElem? hcall)
    split at hpark
    · next remaining hstage =>
      obtain rfl := Option.some.inj hpark
      have hawaits : w.stage.awaits = true := by
        rw [hstage]
        rfl
      apply h.setWaiter
      refine ⟨fun _ => hold.awaited hawaits, fun _ => hold.found (Or.inl hawaits), by simp,
        fun timer htimer => ?_, by simp⟩
      obtain rfl := AcquireStage.parked.inj htimer
      exact hold.measured remaining hstage
    · cases hpark
  | resume call =>
    obtain ⟨w, hcall, hresume⟩ := Option.bind_eq_some_iff.mp hstep
    split at hresume
    · next timer hstage =>
      exact h.resume (h w (List.mem_of_getElem? hcall)) hstage hresume
    · cases hresume
  | cancel call =>
    obtain ⟨w, hcall, hcancel⟩ := Option.bind_eq_some_iff.mp hstep
    split at hcancel
    · obtain rfl := Option.some.inj hcancel
      apply h.setWaiter
      constructor <;> simp [AcquireStage.awaits]
    · cases hcancel
  | tryAcquire id bytes =>
    obtain ⟨⟨permit, budgets⟩, hacquire, rfl⟩ := Option.map_eq_some_iff.mp hstep
    exact h.mono rfl (Nat.le_refl _) (fun _ _ => hasCapacity_of_tryAcquire hacquire)
      (List.Subset.refl _)
  | tryExtendBytes permit bytes =>
    simp only [WaitedBudgets.step] at hstep
    split at hstep
    · obtain ⟨⟨permit', budgets⟩, hextend, rfl⟩ := Option.map_eq_some_iff.mp hstep
      exact h.mono rfl (Nat.le_refl _) (fun _ _ => hasCapacity_of_tryExtend hextend)
        (List.Subset.refl _)
    · cases hstep
  | shrinkBytes permit bytes =>
    simp only [WaitedBudgets.step] at hstep
    split at hstep
    · obtain rfl := Option.some.inj hstep
      exact h.release rfl rfl (fun _ hne => Function.update_of_ne hne ..) rfl
    · cases hstep
  | drop permit =>
    simp only [WaitedBudgets.step] at hstep
    split at hstep
    · obtain rfl := Option.some.inj hstep
      exact h.release rfl rfl (fun _ hne => Function.update_of_ne hne ..) rfl
    · cases hstep
  | notifyWaiters id =>
    simp only [WaitedBudgets.step] at hstep
    split at hstep
    · obtain rfl := Option.some.inj hstep
      exact h.notify rfl rfl rfl fun id' hmem hne => (List.mem_erase_of_ne hne).mpr hmem
    · cases hstep
  | notifyOther id =>
    obtain rfl := Option.some.inj hstep
    exact h.notify rfl rfl rfl fun _ hmem _ => hmem

/-- Capacity is not missed, and a timeout is reported for its lack. -/
structure NoMissedWakeup (s : WaitedBudgets) : Prop where
  /-- While a call is parked and not woken beside room for it, a release has yet to notify. -/
  parked : ∀ w ∈ s.waiters, ∀ timer, w.stage = .parked timer → w.woken = false →
    (s.budgets w.budget).hasCapacity w.bytes = true → w.budget ∈ s.releasing
  /-- A timeout is not early, and the last check before it found no room. -/
  timedOut : ∀ w ∈ s.waiters, ∀ time, w.stage = .timedOut time →
    w.deadline ≤ time ∧ ∃ b rest, w.checks = b :: rest ∧ b.hasCapacity w.bytes = false

end WaitedBudgets

/-- No interleaving of calls and releases loses a notification. -/
theorem noMissedWakeup {s : WaitedBudgets} (h : waitingSystem.Reachable s) : s.NoMissedWakeup := by
  have hattended : s.Attended := by
    refine h.invariant (fun s hstart => ?_) fun _ _ _ hs hstep => hs.step hstep
    obtain ⟨-, hnone, -⟩ := hstart
    rw [WaitedBudgets.Attended, hnone]
    exact List.forall_mem_nil _
  refine ⟨fun w hw timer hstage => (hattended w hw).awaited ?_, fun w hw time hstage => ?_⟩
  · rw [hstage]
    rfl
  · exact ⟨(hattended w hw).late time hstage, (hattended w hw).found (Or.inr ⟨time, hstage⟩)⟩

/-- Two calls wait while the channel's bytes are taken; a drop has not notified yet. -/
def waitingActions : List WaitingAction :=
  let id : BudgetId := .channel 0
  let full : BudgetPermit := ⟨id, maxChannelBytes⟩
  [.tryAcquire id maxChannelBytes, .acquire id 1 0, .acquire id 2 5, .enable 0, .enable 1,
    .check 0, .check 1, .measure 0, .measure 1, .tick 1, .park 1, .drop full]

/-- One call has timed out, and the other is parked beside a free budget. -/
def waitingCheck (s : WaitedBudgets) : Bool :=
  s.waiters.map (·.stage) = [.timedOut 0, .parked 6] ∧ s.waiters.map (·.woken) = [false, false] ∧
    (s.budgets (.channel 0)).hasCapacity 2 = true

/-- In this run a call is parked beside a free budget whose drop is about to notify. -/
theorem noMissedWakeup_run : ∃ s, waitingSystem.run { budgets := processDefaults } waitingActions =
    some s ∧ waitingCheck s = true ∧ s.NoMissedWakeup := by
  obtain ⟨s, hrun, hcheck⟩ := waitingSystem.exists_of_run { budgets := processDefaults }
    waitingActions waitingCheck (by decide +kernel)
  have hstart : waitingSystem.start { budgets := processDefaults } :=
    ⟨rfl, rfl, rfl, fun id => by cases id <;> exact ⟨rfl, rfl⟩⟩
  exact ⟨s, hrun, hcheck, noMissedWakeup ((System.Reachable.start hstart).run hrun)⟩

end TgWsProxy.H2
