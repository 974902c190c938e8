import Mathlib.Logic.Function.Basic
import TgWsProxy.Core.Transition

/-!
# Configuration changes

The panel handlers of `web.rs`, the queue of changes and the main loop of `serve` in
`main.rs`, as far as they decide which configuration a change is computed from. The
runtime has one thread, so code between two awaits is one step. A configuration and
what a request does to it are parameters; every outcome of a check or of `apply` is
an input of its step.
-/

namespace TgWsProxy

open TgWsProxy.Core

/-- A configuration type with `merge_config` and the assignment of a new secret. -/
structure ConfigOps (Config Body : Type) where
  mergeConfig : Config → Body → Except String Config
  setSecret : Config → String → Config

/-- What a panel POST asks for; the new secret is drawn by the handler. -/
inductive Edit (Body : Type)
  | config (body : Body)
  | secret (hex : String)
  | restart

variable {Config Body : Type}

/-- The configuration a handler computes from its snapshot. -/
def ConfigOps.next (ops : ConfigOps Config Body) (cfg : Config) :
    Edit Body → Except String Config
  | .config body => ops.mergeConfig cfg body
  | .secret hex => .ok (ops.setSecret cfg hex)
  | .restart => .ok cfg

/-- A queued change with the request it comes from and the snapshot it was computed from. -/
structure Change (Config Body : Type) where
  config : Config
  handler : Nat
  edit : Edit Body
  base : Config

/-- Where a panel handler stands. -/
inductive HandlerStage (Body : Type)
  /-- Waiting for the mutation lock. -/
  | locking (edit : Edit Body)
  /-- Its change is sent; waiting for the reply under the lock. -/
  | receiving
  /-- Writing its response under the lock. -/
  | responding

/-- What the main loop has in hand while it awaits `apply`. -/
inductive Applying (Config Body : Type)
  | panel (change : Change Config Body)
  | reload (config : Config)

/-- The configuration an application is going to save. -/
def Applying.saved : Applying Config Body → Config
  | panel change => change.config
  | reload config => config

/-- The control plane: what the panel shares with the main loop, and the log of the
panel changes applied so far, each with the saved configuration it replaced. -/
structure Control (Config Body : Type) where
  shared : Config
  currentSaved : Config
  mutation : Option Nat := none
  handlers : Nat → Option (HandlerStage Body) := fun _ => none
  nextHandler : Nat := 0
  changes : List (Change Config Body) := []
  applying : Option (Applying Config Body) := none
  applied : List (Change Config Body × Config) := []

/-- The steps of the handlers and of the main loop. -/
inductive ControlAction (Config Body : Type)
  | post (edit : Edit Body)
  | admitted (handler : Nat) (authorized : Bool)
  | responded (handler : Nat)
  | timedOut (handler : Nat)
  | received
  | reload (config : Config)
  | finished (ok : Bool)

/-- How many changes the queue holds. -/
def changeCapacity : Nat := 4

namespace Control

/-- A handler is gone, and with it its hold on the mutation lock. -/
def leave (s : Control Config Body) (handler : Nat) : Control Config Body :=
  { s with
    handlers := Function.update s.handlers handler none
    mutation := if s.mutation = some handler then none else s.mutation }

/-- Set the stage of a handler. -/
def enter (s : Control Config Body) (handler : Nat) (stage : HandlerStage Body) :
    Control Config Body :=
  { s with handlers := Function.update s.handlers handler (some stage) }

/-- Send the reply of a change; nobody reads it if the handler is gone. -/
def reply (s : Control Config Body) : Applying Config Body → Control Config Body
  | .panel change =>
    match s.handlers change.handler with
    | some .receiving => s.enter change.handler .responding
    | _ => s
  | .reload _ => s

/-- Snapshot, compute and `try_send`, all after the lock is taken and before the next await. -/
def submit (ops : ConfigOps Config Body) (s : Control Config Body) (handler : Nat)
    (edit : Edit Body) : Control Config Body :=
  match ops.next s.shared edit with
  | .error _ => s.enter handler .responding
  | .ok config =>
    if s.changes.length < changeCapacity then
      { s.enter handler .receiving with
        changes := s.changes ++ [⟨config, handler, edit, s.shared⟩] }
    else s.enter handler .responding

/-- The log after a successful application. -/
def logged (s : Control Config Body) : Applying Config Body → List (Change Config Body × Config)
  | .panel change => (change, s.currentSaved) :: s.applied
  | .reload _ => s.applied

/-- `apply` has returned: on success its configuration is in force; the reply is sent. -/
def finish (s : Control Config Body) (current : Applying Config Body) (ok : Bool) :
    Control Config Body :=
  let s := { s.reply current with applying := none }
  if ok then
    { s with currentSaved := current.saved, shared := current.saved, applied := s.logged current }
  else s

/-- The effect of one step. -/
def step (ops : ConfigOps Config Body) (s : Control Config Body) :
    ControlAction Config Body → Option (Control Config Body)
  | .post edit =>
    some { s.enter s.nextHandler (.locking edit) with nextHandler := s.nextHandler + 1 }
  | .admitted handler authorized =>
    match s.handlers handler, s.mutation with
    | some (.locking edit), none =>
      let s := { s with mutation := some handler }
      some (if authorized then s.submit ops handler edit else s.enter handler .responding)
    | _, _ => none
  | .responded handler =>
    match s.handlers handler with
    | some .responding => some (s.leave handler)
    | _ => none
  | .timedOut handler =>
    match s.handlers handler with
    | some _ => some (s.leave handler)
    | none => none
  | .received =>
    match s.applying, s.changes with
    | none, change :: changes => some { s with applying := some (.panel change), changes }
    | _, _ => none
  | .reload config =>
    match s.applying with
    | none => some { s with applying := some (.reload config) }
    | some _ => none
  | .finished ok => s.applying.map fun current => s.finish current ok

end Control

/-- The control plane of one process, from any saved configuration. -/
def controlSystem (ops : ConfigOps Config Body) :
    System (Control Config Body) (ControlAction Config Body) where
  start s := ∃ cfg, s = { shared := cfg, currentSaved := cfg }
  step := Control.step ops

/-! ## No lost update -/

/-- The request leaves a part of the configuration as it is. -/
def Leaves (ops : ConfigOps Config Body) (edit : Edit Body) {Value : Type}
    (field : Config → Value) : Prop :=
  ∀ cfg next, ops.next cfg edit = .ok next → field next = field cfg

/-- The change was computed from the configuration it replaced, so what its request
leaves alone is not reverted. -/
def NotLost (ops : ConfigOps Config Body) (entry : Change Config Body × Config) : Prop :=
  entry.1.base = entry.2 ∧ ops.next entry.2 entry.1.edit = .ok entry.1.config ∧
    ∀ (Value : Type) (field : Config → Value), Leaves ops entry.1.edit field →
      field entry.1.config = field entry.2

/-- When the main loop puts a different configuration in force, no panel change is waiting. -/
def NothingWaiting (s : Control Config Body) : ControlAction Config Body → Prop
  | .finished true => ∀ current, s.applying = some current →
      current.saved = s.currentSaved ∨ s.changes = []
  | _ => True

/-- Every outstanding change was computed from the configuration in force. -/
structure ControlInv (ops : ConfigOps Config Body) (s : Control Config Body) : Prop where
  /-- The panel reads the saved configuration. -/
  shared : s.shared = s.currentSaved
  /-- Queued changes start from it. -/
  queued : ∀ c ∈ s.changes, c.base = s.currentSaved ∧ ops.next c.base c.edit = .ok c.config
  /-- So does the change being applied. -/
  applying : ∀ c, s.applying = some (.panel c) →
    c.base = s.currentSaved ∧ ops.next c.base c.edit = .ok c.config
  /-- And so did those applied before. -/
  applied : ∀ entry ∈ s.applied, NotLost ops entry

variable {ops : ConfigOps Config Body}

/-- The part of the state that decides what changes are computed from and applied to. -/
def Control.core (s : Control Config Body) :
    Config × Config × List (Change Config Body) × Option (Applying Config Body) ×
      List (Change Config Body × Config) :=
  (s.shared, s.currentSaved, s.changes, s.applying, s.applied)

/-- The bookkeeping of handlers and lock does not touch it. -/
theorem controlInv_congr {s t : Control Config Body} (h : ControlInv ops s)
    (hcore : t.core = s.core) : ControlInv ops t := by
  simp only [Control.core, Prod.mk.injEq] at hcore
  obtain ⟨hshared, hsaved, hchanges, happlying, happlied⟩ := hcore
  constructor
  · rw [hshared, hsaved, h.shared]
  · rw [hchanges, hsaved]
    exact h.queued
  · rw [happlying, hsaved]
    exact h.applying
  · rw [happlied]
    exact h.applied

@[simp] theorem Control.core_reply (s : Control Config Body) (current : Applying Config Body) :
    (s.reply current).core = s.core := by
  unfold Control.reply
  split
  · split <;> rfl
  · rfl

/-- A submission adds at most one change, computed from the configuration in force. -/
theorem controlInv_submit {s : Control Config Body} (h : ControlInv ops s) (handler : Nat)
    (edit : Edit Body) : ControlInv ops (s.submit ops handler edit) := by
  unfold Control.submit
  split
  · exact controlInv_congr h rfl
  · next config hnext =>
    split
    · refine ⟨h.shared, ?_, h.applying, h.applied⟩
      intro c hc
      rcases List.mem_append.mp hc with hc | hc
      · exact h.queued c hc
      · obtain rfl := List.mem_singleton.mp hc
        exact ⟨h.shared, hnext⟩
    · exact controlInv_congr h rfl

/-- A change computed from the configuration it replaces is not lost. -/
theorem notLost_of_base {c : Change Config Body} {cfg : Config}
    (h : c.base = cfg ∧ ops.next c.base c.edit = .ok c.config) : NotLost ops (c, cfg) := by
  obtain ⟨rfl, hnext⟩ := h
  exact ⟨rfl, hnext, fun _ _ hleaves => hleaves _ _ hnext⟩

/-- A finished application is logged and leaves nothing stale behind. -/
theorem controlInv_finish {s : Control Config Body} {current : Applying Config Body} {ok : Bool}
    (h : ControlInv ops s) (hcurrent : s.applying = some current)
    (hok : NothingWaiting s (.finished ok)) : ControlInv ops (s.finish current ok) := by
  have hreply := Control.core_reply s current
  simp only [Control.core, Prod.mk.injEq] at hreply
  obtain ⟨hshared, hsaved, hchanges, _, happlied⟩ := hreply
  unfold Control.finish
  cases ok with
  | false => exact ⟨hshared ▸ hsaved ▸ h.shared, hchanges ▸ hsaved ▸ h.queued, nofun,
      happlied ▸ h.applied⟩
  | true =>
    refine ⟨rfl, ?_, nofun, ?_⟩
    · intro c hc
      have hc : c ∈ s.changes := hchanges ▸ hc
      rcases hok current hcurrent with hsame | hempty
      · exact hsame ▸ h.queued c hc
      · rw [hempty] at hc
        cases hc
    · simp only [if_true, Control.logged, happlied, hsaved]
      cases current with
      | panel change =>
        exact List.forall_mem_cons.mpr ⟨notLost_of_base (h.applying change hcurrent), h.applied⟩
      | reload config => exact h.applied

/-- Every step keeps the invariant, unless it puts a configuration in force over the
heads of waiting changes. -/
theorem controlInv_step {s t : Control Config Body} {a : ControlAction Config Body}
    (h : ControlInv ops s) (hok : NothingWaiting s a) (hst : s.step ops a = some t) :
    ControlInv ops t := by
  cases a with
  | post edit =>
    cases hst
    exact controlInv_congr h rfl
  | admitted handler authorized =>
    simp only [Control.step] at hst
    split at hst
    · next edit _ _ =>
      cases hst
      have hlocked : ControlInv ops { s with mutation := some handler } := controlInv_congr h rfl
      split
      · exact controlInv_submit hlocked handler edit
      · exact controlInv_congr h rfl
    · cases hst
  | responded handler =>
    simp only [Control.step] at hst
    split at hst
    · cases hst
      exact controlInv_congr h rfl
    · cases hst
  | timedOut handler =>
    simp only [Control.step] at hst
    split at hst
    · cases hst
      exact controlInv_congr h rfl
    · cases hst
  | received =>
    simp only [Control.step] at hst
    split at hst
    · next change changes _ hchanges =>
      cases hst
      have hqueued := hchanges ▸ h.queued
      refine ⟨h.shared, fun c hc => hqueued c (List.mem_cons_of_mem _ hc), fun c hc => ?_,
        h.applied⟩
      cases hc
      exact hqueued _ (List.mem_cons_self ..)
    · cases hst
  | reload config =>
    simp only [Control.step] at hst
    split at hst
    · cases hst
      exact ⟨h.shared, h.queued, nofun, h.applied⟩
    · cases hst
  | finished ok =>
    obtain ⟨current, hcurrent, rfl⟩ := Option.map_eq_some_iff.mp hst
    exact controlInv_finish h hcurrent hok

/-- In every run that puts no different configuration in force while a panel change
waits, each applied panel change was computed from the saved configuration it replaced. -/
theorem applied_not_lost {s : Control Config Body}
    (h : (controlSystem ops).Within NothingWaiting s) : ∀ entry ∈ s.applied, NotLost ops entry := by
  have hinv : ControlInv ops s := by
    refine h.induct ?_ fun s a t => controlInv_step
    rintro s ⟨cfg, rfl⟩
    exact ⟨rfl, nofun, nofun, nofun⟩
  exact hinv.applied

/-- Configurations as named string settings; a patch replaces those it names. -/
def settingsOps : ConfigOps (String → String) (List (String × String)) where
  mergeConfig cfg patch :=
    .ok (patch.foldl (fun cfg entry => Function.update cfg entry.1 entry.2) cfg)
  setSecret cfg hex := Function.update cfg "secret" hex

/-- A fresh process whose settings are all empty. -/
def noSettings : Control (String → String) (List (String × String)) :=
  { shared := fun _ => "", currentSaved := fun _ => "" }

/-- A reload, and two panel changes that are posted while it is applied: the second waits for the
response to the first. -/
def passwordRun : List (ControlAction (String → String) (List (String × String))) :=
  [.reload (Function.update (fun _ => "") "port" "8443"), .post (.config [("web_password", "new")]),
    .post (.config [("verbose", "true")]), .finished true, .admitted 0 true, .received,
    .finished true, .responded 0, .admitted 1 true, .received, .finished true, .responded 1]

/-- `apply` returns success only while the queue is empty. -/
def QueueEmpty (s : Control Config Body) : ControlAction Config Body → Prop
  | .finished true => s.changes.isEmpty = true
  | _ => True

instance (s : Control Config Body) : (a : ControlAction Config Body) → Decidable (QueueEmpty s a)
  | .finished true => inferInstanceAs (Decidable (s.changes.isEmpty = true))
  | .finished false | .post _ | .admitted .. | .responded _ | .timedOut _ | .received | .reload _ =>
    .isTrue trivial

/-- With an empty queue nothing waits. -/
theorem nothingWaiting_of_queueEmpty {s : Control Config Body} {a : ControlAction Config Body}
    (h : QueueEmpty s a) : NothingWaiting s a := by
  cases a with
  | finished ok => cases ok with
    | true => exact fun _ _ => .inr (List.isEmpty_iff.mp h)
    | false => trivial
  | _ => trivial

/-- Both changes and the reload are in force at the end. -/
theorem applied_not_lost_password :
    ∃ s, (controlSystem settingsOps).Within NothingWaiting s ∧ s.applied.length = 2 ∧
      s.currentSaved "web_password" = "new" ∧ s.currentSaved "verbose" = "true" ∧
      s.currentSaved "port" = "8443" ∧ ∀ entry ∈ s.applied, NotLost settingsOps entry := by
  obtain ⟨s, hs, hcheck⟩ := (controlSystem settingsOps).exists_of_run noSettings passwordRun
    (fun s => s.applied.length = 2 ∧ s.currentSaved "web_password" = "new" ∧
      s.currentSaved "verbose" = "true" ∧ s.currentSaved "port" = "8443") (by decide +kernel)
  obtain ⟨hlength, hpassword, hverbose, hport⟩ := of_decide_eq_true hcheck
  have hmeets : (controlSystem settingsOps).Meets QueueEmpty noSettings passwordRun := by
    decide +kernel
  have hwithin : (controlSystem settingsOps).Within NothingWaiting s :=
    System.Within.run_of_meets (.start ⟨_, rfl⟩)
      (hmeets.mono fun _ _ => nothingWaiting_of_queueEmpty) hs
  exact ⟨s, hwithin, hlength, hpassword, hverbose, hport, applied_not_lost hwithin⟩

/-- A handler snapshots the configuration while a reload with a new password is being
applied; its change is applied next and brings the old password back. -/
theorem reload_lost :
    ∃ s entry, (controlSystem settingsOps).Reachable s ∧ entry ∈ s.applied ∧
      ¬NotLost settingsOps entry ∧ entry.2 "web_password" = "new" ∧
      entry.1.edit = .config [("verbose", "true")] ∧ s.currentSaved "web_password" = "" := by
  have hstart : (controlSystem settingsOps).Reachable noSettings := .start ⟨_, rfl⟩
  obtain ⟨s, hs, hcheck⟩ := (controlSystem settingsOps).exists_of_run noSettings
    [.reload (Function.update (fun _ => "") "web_password" "new"),
      .post (.config [("verbose", "true")]), .admitted 0 true, .finished true, .received,
      .finished true]
    (fun s => s.currentSaved "web_password" == "" && s.applied.any fun entry =>
      entry.1.base "web_password" == "" && entry.2 "web_password" == "new" &&
        match entry.1.edit with
        | .config patch => patch == [("verbose", "true")]
        | _ => false)
    (by decide)
  simp only [Bool.and_eq_true, beq_iff_eq, List.any_eq_true] at hcheck
  obtain ⟨hcurrent, entry, hentry, ⟨hbase, hreplaced⟩, hedit⟩ := hcheck
  refine ⟨s, entry, hstart.run hs, hentry, fun hlost => ?_, hreplaced, ?_, hcurrent⟩
  · have := congrFun hlost.1 "web_password"
    rw [hbase, hreplaced] at this
    exact absurd this (by decide)
  · split at hedit
    · next heq => rw [heq, beq_iff_eq.mp hedit]
    · cases hedit

end TgWsProxy
