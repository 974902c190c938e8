import Mathlib.Data.Finset.Basic
import Mathlib.Logic.Function.Basic
import TgWsProxy.Core.Transition

/-!
# The shared connection of a lane

The generations of a lane's HTTP/2 connection: `connect`, `ready_sender` and
`start_request`, the guards of admitted requests, deferred invalidation and `abort`.
What the network does (a dial, `ready`, `send_request`, the end of a driver task) is
an input of its step; a section of code without an await is one step. Generations are
natural numbers, so the counter does not wrap.
-/

namespace TgWsProxy.H2

open TgWsProxy.Core

/-- Where a call of `start_request` stands; `attempt` counts the rounds of `ready_sender`. -/
inductive CallPhase
  /-- About to enter `connect`. -/
  | connecting (attempt : Nat)
  /-- Waiting for `connect_lock`. -/
  | locking (attempt : Nat)
  /-- Setting up TCP, TLS and H2 under the lock. -/
  | dialing (attempt : Nat)
  /-- Holding a sender clone of a generation, waiting until it is ready. -/
  | readying (attempt generation : Nat)
  /-- Waiting for the retirement of a poisoned generation. -/
  | retiring (notified : Bool)
  deriving DecidableEq

/-- The lane as far as its connection is concerned. A driver task is named by the
generation of its connection; the log of aborts has the latest first. -/
structure Connection where
  generation : Nat := 0
  /-- `sender.is_some()`. -/
  sender : Bool := false
  driver : Option Nat := none
  retiredDrivers : List Nat := []
  /-- Driver tasks that have ended. -/
  finished : Finset Nat := ∅
  closed : Bool := false
  /-- The call that holds `connect_lock`. -/
  connectLock : Option Nat := none
  counts : Nat → Option Nat := fun _ => none
  invalidateWhenIdle : Finset Nat := ∅
  /-- The generations of the live `ActiveRequestGuard`s. -/
  guards : List Nat := []
  calls : Nat → Option CallPhase := fun _ => none
  nextCall : Nat := 0
  /-- The streams submitted so far: the call and the generation. -/
  submitted : List (Nat × Nat) := []
  aborts : List Nat := []

/-- The steps of the callers, the drivers and the owner of a lane. -/
inductive ConnectionAction
  | call
  /-- The first check of `connect`. -/
  | connect (call : Nat)
  /-- `connect_lock` is acquired, and the second check. -/
  | locked (call : Nat)
  | dialed (call : Nat) (ok : Bool)
  /-- `ready` has returned; then admission, where `send_request` may refuse. -/
  | readied (call : Nat) (ready submits : Bool)
  | woken (call : Nat)
  | cancelled (call : Nat)
  | guardDropped (generation : Nat)
  /-- A request of the generation has timed out. -/
  | timedOut (generation : Nat)
  | driverEnded (generation : Nat)
  | abort
  | startClose

namespace Connection

/-- Set the phase of a call. -/
def enter (s : Connection) (call : Nat) (phase : CallPhase) : Connection :=
  { s with calls := Function.update s.calls call (some phase) }

/-- A call has returned or is dropped, and lets go of `connect_lock`. -/
def leave (s : Connection) (call : Nat) : Connection :=
  { s with
    calls := Function.update s.calls call none
    connectLock := if s.connectLock = some call then none else s.connectLock }

/-- `active_changed.notify_waiters`. -/
def notifyWaiters (s : Connection) : Connection :=
  { s with
    calls := fun call =>
      match s.calls call with
      | some (.retiring _) => some (.retiring true)
      | phase => phase }

/-- Keep a driver's handle, dropping those of ended tasks. -/
def retainDriver (s : Connection) (driver : Nat) : Connection :=
  { s with retiredDrivers := s.retiredDrivers.filter (· ∉ s.finished) ++ [driver] }

/-- Forget the sender of a generation that is still current and abort its driver. -/
def invalidateConnection (s : Connection) (generation : Nat) : Connection :=
  if s.generation = generation then
    match s.driver with
    | some driver =>
      { s with sender := false, driver := none, aborts := driver :: s.aborts }.retainDriver driver
    | none => { s with sender := false }
  else s

/-- Invalidate a generation now, or when its last active request is over. -/
def invalidateConnectionIfIdle (s : Connection) (generation : Nat) : Connection :=
  if (s.counts generation).getD 0 ≠ 0 then
    { s with invalidateWhenIdle := insert generation s.invalidateWhenIdle }
  else
    ({ s with invalidateWhenIdle := s.invalidateWhenIdle.erase generation }.invalidateConnection
      generation).notifyWaiters

/-- The driver of a generation has ended by itself. -/
def connectionFinished (s : Connection) (generation : Nat) : Connection :=
  if s.generation = generation then { s with sender := false }.notifyWaiters else s

/-- Drop one guard of a generation, and with the last one a generation that is marked. -/
def dropGuard (s : Connection) (generation : Nat) : Connection :=
  let guards := s.guards.erase generation
  match s.counts generation with
  | none => { s with guards }
  | some count =>
    let s := { s with
      guards
      counts := Function.update s.counts generation
        (if count - 1 = 0 then none else some (count - 1)) }
    if count - 1 = 0 ∧ generation ∈ s.invalidateWhenIdle then
      ({ s with invalidateWhenIdle := s.invalidateWhenIdle.erase generation }.invalidateConnection
        generation).notifyWaiters
    else s

/-- The check at the start of `connect`: closed, a sender to clone, or neither. -/
def connectCheck (s : Connection) (call attempt : Nat) (otherwise : Connection) : Connection :=
  if s.closed then s.leave call
  else if s.sender then
    { s with connectLock := if s.connectLock = some call then none else s.connectLock }.enter call
      (.readying attempt s.generation)
  else otherwise

/-- Publish a fresh connection under the next generation. -/
def publish (s : Connection) (call attempt : Nat) : Connection :=
  let s :=
    match s.driver with
    | some previous => s.retainDriver previous
    | none => s
  { s with
    generation := s.generation + 1
    sender := true
    driver := some (s.generation + 1)
    connectLock := none }.enter call (.readying attempt (s.generation + 1))

/-- Admission in `start_request`, with a ready sender of a generation. -/
def admission (s : Connection) (call generation : Nat) (submits : Bool) : Connection :=
  if generation ∈ s.invalidateWhenIdle then s.enter call (.retiring false)
  else if s.generation = generation ∧ s.sender then
    if submits then
      { s with
        counts := Function.update s.counts generation (some ((s.counts generation).getD 0 + 1))
        guards := generation :: s.guards
        submitted := (call, generation) :: s.submitted }.leave call
    else s.leave call
  else s.enter call (.connecting 0)

/-- Close the lane and abort its drivers; the requests' guards are dropped by their tasks. -/
def abortAll (s : Connection) : Connection :=
  { s with
    closed := true
    sender := false
    aborts := s.retiredDrivers.reverse ++ s.driver.toList ++ s.aborts }

/-- The effect of one step. -/
def step (s : Connection) : ConnectionAction → Option Connection
  | .call => some { s.enter s.nextCall (.connecting 0) with nextCall := s.nextCall + 1 }
  | .connect call =>
    match s.calls call with
    | some (.connecting attempt) =>
      some (s.connectCheck call attempt (s.enter call (.locking attempt)))
    | _ => none
  | .locked call =>
    match s.calls call, s.connectLock with
    | some (.locking attempt), none =>
      let s := { s with
        connectLock := some call
        retiredDrivers := s.retiredDrivers.filter (· ∉ s.finished) }
      some (s.connectCheck call attempt (s.enter call (.dialing attempt)))
    | _, _ => none
  | .dialed call ok =>
    match s.calls call with
    | some (.dialing attempt) =>
      some (if ok ∧ s.closed = false then s.publish call attempt else s.leave call)
    | _ => none
  | .readied call ready submits =>
    match s.calls call with
    | some (.readying attempt generation) =>
      if ready then some (s.admission call generation submits)
      else if attempt = 0 then
        some ((s.invalidateConnection generation).enter call (.connecting 1))
      else some (s.leave call)
    | _ => none
  | .woken call =>
    match s.calls call with
    | some (.retiring true) => some (s.enter call (.connecting 0))
    | _ => none
  | .cancelled call =>
    match s.calls call with
    | some _ => some (s.leave call)
    | none => none
  | .guardDropped generation =>
    if generation ∈ s.guards then some (s.dropGuard generation) else none
  | .timedOut generation => some (s.invalidateConnectionIfIdle generation)
  | .driverEnded generation =>
    if s.generation < generation then none
    else if generation ∈ s.aborts then some { s with finished := insert generation s.finished }
    else some ({ s with finished := insert generation s.finished }.connectionFinished generation)
  | .abort => some s.abortAll
  | .startClose => some { s.abortAll with driver := none, retiredDrivers := [] }

end Connection

/-- The connection of one lane, from its creation. -/
def connectionSystem : System Connection ConnectionAction := ⟨fun s => s = {}, Connection.step⟩

namespace Connection

/-- A step that admits nothing, drops no guard and marks nothing: at most the sender is
forgotten and the driver let go. -/
structure Quiet (s t : Connection) : Prop where
  generation : t.generation = s.generation
  sender : t.sender = true → s.sender = true
  driver : ∀ d, t.driver = some d → s.driver = some d
  counts : t.counts = s.counts
  idle : t.invalidateWhenIdle = s.invalidateWhenIdle
  guards : t.guards = s.guards
  submitted : t.submitted = s.submitted

/-- Nothing happens quietly. -/
theorem Quiet.refl (s : Connection) : Quiet s s := ⟨rfl, id, fun _ => id, rfl, rfl, rfl, rfl⟩

/-- Quiet steps in sequence are quiet. -/
theorem Quiet.trans {s t u : Connection} (h : Quiet s t) (h' : Quiet t u) : Quiet s u :=
  ⟨h'.generation.trans h.generation, h.sender ∘ h'.sender, fun d => h.driver d ∘ h'.driver d,
    h'.counts.trans h.counts, h'.idle.trans h.idle, h'.guards.trans h.guards,
    h'.submitted.trans h.submitted⟩

variable (s : Connection)

/-- A call that goes on to a phase is quiet. -/
theorem quiet_enter (call : Nat) (phase : CallPhase) : Quiet s (s.enter call phase) :=
  ⟨rfl, id, fun _ => id, rfl, rfl, rfl, rfl⟩

/-- A call that ends is quiet. -/
theorem quiet_leave (call : Nat) : Quiet s (s.leave call) :=
  ⟨rfl, id, fun _ => id, rfl, rfl, rfl, rfl⟩

/-- Waking the waiters is quiet. -/
theorem quiet_notifyWaiters : Quiet s s.notifyWaiters := ⟨rfl, id, fun _ => id, rfl, rfl, rfl, rfl⟩

/-- An invalidation is quiet. -/
theorem quiet_invalidateConnection (generation : Nat) :
    Quiet s (s.invalidateConnection generation) := by
  unfold invalidateConnection
  split
  · split
    · exact ⟨rfl, nofun, nofun, rfl, rfl, rfl, rfl⟩
    · exact ⟨rfl, nofun, fun _ => id, rfl, rfl, rfl, rfl⟩
  · exact Quiet.refl s

/-- The end of a driver is quiet. -/
theorem quiet_connectionFinished (generation : Nat) :
    Quiet s (s.connectionFinished generation) := by
  unfold connectionFinished
  split
  · exact ⟨rfl, nofun, fun _ => id, rfl, rfl, rfl, rfl⟩
  · exact Quiet.refl s

/-- A call that waits for a connection is quiet. -/
theorem quiet_connectCheck (call attempt : Nat) {otherwise : Connection}
    (h : Quiet s otherwise) : Quiet s (s.connectCheck call attempt otherwise) := by
  unfold connectCheck
  split
  · exact quiet_leave s call
  · split
    · exact ⟨rfl, id, fun _ => id, rfl, rfl, rfl, rfl⟩
    · exact h

/-- `abort_all` is quiet. -/
theorem quiet_abortAll : Quiet s s.abortAll := ⟨rfl, nofun, fun _ => id, rfl, rfl, rfl, rfl⟩

/-- Admission submits a stream on a current, unpoisoned generation, or does nothing. -/
theorem admission_cases (call generation : Nat) (submits : Bool) :
    Quiet s (s.admission call generation submits) ∨
      (generation ∉ s.invalidateWhenIdle ∧ s.generation = generation ∧ s.sender = true ∧
        submits = true) := by
  unfold admission
  split
  · exact Or.inl (quiet_enter s call _)
  · next hidle =>
    split
    · next hcurrent =>
      split
      · next hsubmits => exact Or.inr ⟨hidle, hcurrent.1, hcurrent.2, hsubmits⟩
      · exact Or.inl (quiet_leave s call)
    · exact Or.inl (quiet_enter s call _)

variable {s}

/-- What a step can do: nothing that counts, publish the next generation, admit one
stream on the current generation, drop a guard, or mark or invalidate a generation. -/
theorem step_cases {t : Connection} {a : ConnectionAction} (h : s.step a = some t) :
    Quiet s t ∨
    (∃ call attempt, a = .dialed call true ∧ t = s.publish call attempt) ∨
    (∃ call generation, s.calls call ≠ none ∧ generation ∉ s.invalidateWhenIdle ∧
      s.generation = generation ∧ s.sender = true ∧
      t = s.admission call generation true) ∨
    (∃ generation ∈ s.guards, a = .guardDropped generation ∧ t = s.dropGuard generation) ∨
    (∃ generation, a = .timedOut generation ∧ t = s.invalidateConnectionIfIdle generation) := by
  cases a with
  | call =>
    cases h
    exact Or.inl ⟨rfl, id, fun _ => id, rfl, rfl, rfl, rfl⟩
  | connect call =>
    simp only [step] at h
    split at h <;> cases h
    exact Or.inl (quiet_connectCheck s call _ (quiet_enter s call _))
  | locked call =>
    simp only [step] at h
    split at h <;> cases h
    refine Or.inl (Quiet.trans ?_ (quiet_connectCheck _ call _ (quiet_enter _ call _)))
    exact ⟨rfl, id, fun _ => id, rfl, rfl, rfl, rfl⟩
  | dialed call ok =>
    simp only [step] at h
    split at h <;> cases h
    split
    · next hok => exact Or.inr (Or.inl ⟨call, _, by rw [hok.1], rfl⟩)
    · exact Or.inl (quiet_leave s call)
  | readied call ready submits =>
    simp only [step] at h
    split at h
    · next attempt generation hcall =>
      split at h
      · cases h
        rcases admission_cases s call generation submits with hq | ⟨hidle, hgen, hsender, rfl⟩
        · exact Or.inl hq
        · exact Or.inr (Or.inr (Or.inl
            ⟨call, generation, by rw [hcall]; nofun, hidle, hgen, hsender, rfl⟩))
      · split at h <;> cases h
        · exact Or.inl ((quiet_invalidateConnection s generation).trans (quiet_enter _ call _))
        · exact Or.inl (quiet_leave s call)
    · cases h
  | woken call =>
    simp only [step] at h
    split at h <;> cases h
    exact Or.inl (quiet_enter s call _)
  | cancelled call =>
    simp only [step] at h
    split at h <;> cases h
    exact Or.inl (quiet_leave s call)
  | guardDropped generation =>
    simp only [step] at h
    split at h <;> cases h
    next hg => exact Or.inr (Or.inr (Or.inr (Or.inl ⟨generation, hg, rfl, rfl⟩)))
  | timedOut generation =>
    cases h
    exact Or.inr (Or.inr (Or.inr (Or.inr ⟨generation, rfl, rfl⟩)))
  | driverEnded generation =>
    simp only [step] at h
    split at h
    · cases h
    · split at h <;> cases h
      · exact Or.inl ⟨rfl, id, fun _ => id, rfl, rfl, rfl, rfl⟩
      · refine Or.inl (Quiet.trans ?_ (quiet_connectionFinished _ generation))
        exact ⟨rfl, id, fun _ => id, rfl, rfl, rfl, rfl⟩
  | abort =>
    cases h
    exact Or.inl (quiet_abortAll s)
  | startClose =>
    cases h
    exact Or.inl ⟨rfl, nofun, nofun, rfl, rfl, rfl, rfl⟩

end Connection

end TgWsProxy.H2
