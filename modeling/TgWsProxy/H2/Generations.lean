import TgWsProxy.H2.Connection

/-!
# Generations of a connection

A generation that is replaced or marked admits nothing more, `abort` leaves none behind, and every
call submits its request at most once.
-/

namespace TgWsProxy.H2

open TgWsProxy.Core

namespace Connection

variable {s : Connection}

/-! ## Invariants -/

/-- The counts are those of the live guards, and what is marked has one. -/
structure Inv (s : Connection) : Prop where
  counted : ∀ g, s.counts g = if s.guards.count g = 0 then none else some (s.guards.count g)
  marked : ∀ g ∈ s.invalidateWhenIdle, g ∈ s.guards
  guarded : ∀ g ∈ s.guards, g ≤ s.generation
  driven : ∀ d, s.driver = some d → d = s.generation

private theorem Inv.getD_counts (h : Inv s) (g : Nat) : (s.counts g).getD 0 = s.guards.count g := by
  rw [h.counted]
  split
  · next hzero => exact hzero.symm
  · rfl

/-- Quiet steps keep the counts. -/
theorem Inv.quiet {t : Connection} (h : Inv s) (hq : Quiet s t) : Inv t where
  counted := by rw [hq.counts, hq.guards]; exact h.counted
  marked := by rw [hq.idle, hq.guards]; exact h.marked
  guarded := by rw [hq.guards, hq.generation]; exact h.guarded
  driven d hd := by rw [hq.generation]; exact h.driven d (hq.driver d hd)

/-- Fields that are neither calls nor aborts after publishing. -/
theorem publish_fields (call attempt : Nat) :
    (s.publish call attempt).generation = s.generation + 1 ∧
      (s.publish call attempt).driver = some (s.generation + 1) ∧
      (s.publish call attempt).counts = s.counts ∧
      (s.publish call attempt).invalidateWhenIdle = s.invalidateWhenIdle ∧
      (s.publish call attempt).guards = s.guards ∧
      (s.publish call attempt).submitted = s.submitted := by
  unfold publish
  split <;> exact ⟨rfl, rfl, rfl, rfl, rfl, rfl⟩

/-- A new generation has no guard yet. -/
theorem Inv.publish (h : Inv s) (call attempt : Nat) : Inv (s.publish call attempt) := by
  obtain ⟨hgen, hdriver, hcounts, hidle, hguards, _⟩ := publish_fields (s := s) call attempt
  refine ⟨?_, ?_, ?_, ?_⟩
  · rw [hcounts, hguards]
    exact h.counted
  · rw [hidle, hguards]
    exact h.marked
  · rw [hguards, hgen]
    exact fun g hg => Nat.le_succ_of_le (h.guarded g hg)
  · rw [hdriver, hgen]
    exact fun d hd => (Option.some.inj hd).symm

/-- Admission of one stream on a generation. -/
theorem admission_true {generation : Nat} (call : Nat) (hidle : generation ∉ s.invalidateWhenIdle)
    (hgen : s.generation = generation) (hsender : s.sender = true) :
    s.admission call generation true =
      { s with
        counts := Function.update s.counts generation (some ((s.counts generation).getD 0 + 1))
        guards := generation :: s.guards
        submitted := (call, generation) :: s.submitted }.leave call := by
  simp [admission, hidle, hgen, hsender]

/-- An admission counts its guard. -/
theorem Inv.admission {generation : Nat} (h : Inv s) (call : Nat)
    (hidle : generation ∉ s.invalidateWhenIdle) (hgen : s.generation = generation)
    (hsender : s.sender = true) : Inv (s.admission call generation true) := by
  rw [admission_true call hidle hgen hsender]
  refine Inv.quiet ?_ (quiet_leave _ call)
  refine ⟨fun g => ?_, fun g hg => List.mem_cons_of_mem _ (h.marked g hg), ?_, h.driven⟩
  · by_cases hg : g = generation
    · subst hg
      simp [h.getD_counts]
    · simp [hg, h.counted, List.count_cons_of_ne (Ne.symm hg)]
  · exact List.forall_mem_cons.mpr ⟨hgen.ge, h.guarded⟩

/-- Dropping a guard lowers its count; at zero the generation is invalidated if marked. -/
theorem dropGuard_spec {generation : Nat} (h : Inv s) (hg : generation ∈ s.guards) :
    ∃ u, Inv u ∧ u.guards = s.guards.erase generation ∧ u.generation = s.generation ∧
      u.sender = s.sender ∧ u.driver = s.driver ∧ u.submitted = s.submitted ∧
      u.aborts = s.aborts ∧
      ((s.dropGuard generation = u ∧ u.invalidateWhenIdle = s.invalidateWhenIdle) ∨
        (generation ∉ u.guards ∧
          u.invalidateWhenIdle = s.invalidateWhenIdle.erase generation ∧
          s.dropGuard generation = (u.invalidateConnection generation).notifyWaiters)) := by
  have hpos : 0 < s.guards.count generation := List.count_pos_iff.mpr hg
  have hcount : s.counts generation = some (s.guards.count generation) := by
    rw [h.counted, if_neg hpos.ne']
  have herase : (s.guards.erase generation).count generation = s.guards.count generation - 1 :=
    List.count_erase_self ..
  -- the counts afterwards are those of the remaining guards
  have hcounted (g : Nat) : Function.update s.counts generation
      (if s.guards.count generation - 1 = 0 then none
        else some (s.guards.count generation - 1)) g =
      if (s.guards.erase generation).count g = 0 then none
        else some ((s.guards.erase generation).count g) := by
    by_cases heq : g = generation
    · subst heq
      rw [Function.update_self, herase]
    · rw [Function.update_of_ne heq, List.count_erase_of_ne heq, h.counted]
  have hguarded : ∀ g ∈ s.guards.erase generation, g ≤ s.generation :=
    fun g hg => h.guarded g (List.mem_of_mem_erase hg)
  have hne {g : Nat} (hgm : g ∈ s.invalidateWhenIdle) (heq : g ≠ generation) :
      g ∈ s.guards.erase generation := (List.mem_erase_of_ne heq).mpr (h.marked g hgm)
  simp only [dropGuard, hcount]
  by_cases hlast : s.guards.count generation - 1 = 0 ∧ generation ∈ s.invalidateWhenIdle
  · rw [if_pos hlast]
    refine ⟨{ s with
      guards := s.guards.erase generation
      counts := Function.update s.counts generation
        (if s.guards.count generation - 1 = 0 then none
          else some (s.guards.count generation - 1))
      invalidateWhenIdle := s.invalidateWhenIdle.erase generation }, ?_, rfl, rfl, rfl, rfl,
      rfl, rfl, Or.inr ⟨?_, rfl, rfl⟩⟩
    · refine ⟨hcounted, fun g hgm => ?_, hguarded, h.driven⟩
      obtain ⟨heq, hgm⟩ := Finset.mem_erase.mp hgm
      exact hne hgm heq
    · exact List.count_eq_zero.mp (herase.trans hlast.1)
  · rw [if_neg hlast]
    refine ⟨{ s with
      guards := s.guards.erase generation
      counts := Function.update s.counts generation
        (if s.guards.count generation - 1 = 0 then none
          else some (s.guards.count generation - 1)) }, ?_, rfl, rfl, rfl, rfl, rfl, rfl,
      Or.inl ⟨rfl, rfl⟩⟩
    refine ⟨hcounted, fun g hgm => ?_, hguarded, h.driven⟩
    by_cases heq : g = generation
    · subst heq
      have hmore : s.guards.count g - 1 ≠ 0 := fun hzero => hlast ⟨hzero, hgm⟩
      exact List.count_pos_iff.mp (by rw [herase]; omega)
    · exact hne hgm heq

/-- A guard that is dropped is no longer counted. -/
theorem Inv.dropGuard {generation : Nat} (h : Inv s) (hg : generation ∈ s.guards) :
    Inv (s.dropGuard generation) := by
  obtain ⟨u, hu, _, _, _, _, _, _, ⟨heq, _⟩ | ⟨_, _, heq⟩⟩ := dropGuard_spec h hg
  · rwa [heq]
  · rw [heq]
    exact hu.quiet ((quiet_invalidateConnection u generation).trans (quiet_notifyWaiters _))

/-- A timeout marks a generation with live guards and invalidates one without. -/
theorem timedOut_spec (h : Inv s) (generation : Nat) :
    (generation ∈ s.guards ∧ s.invalidateConnectionIfIdle generation =
        { s with invalidateWhenIdle := insert generation s.invalidateWhenIdle }) ∨
      (generation ∉ s.guards ∧ s.invalidateConnectionIfIdle generation =
        (s.invalidateConnection generation).notifyWaiters) := by
  unfold invalidateConnectionIfIdle
  rw [h.getD_counts]
  split
  · next hlive => exact Or.inl ⟨List.count_pos_iff.mp (Nat.pos_of_ne_zero hlive), rfl⟩
  · next hidle =>
    have hg : generation ∉ s.guards := List.count_eq_zero.mp (not_not.mp hidle)
    refine Or.inr ⟨hg, ?_⟩
    rw [Finset.erase_eq_of_notMem fun hm => hg (h.marked _ hm)]

/-- A generation is marked only while it has a guard. -/
theorem Inv.timedOut (h : Inv s) (generation : Nat) :
    Inv (s.invalidateConnectionIfIdle generation) := by
  rcases timedOut_spec h generation with ⟨hg, heq⟩ | ⟨_, heq⟩ <;> rw [heq]
  · refine ⟨h.counted, fun g hgm => ?_, h.guarded, h.driven⟩
    rcases Finset.mem_insert.mp hgm with rfl | hgm
    · exact hg
    · exact h.marked g hgm
  · exact h.quiet ((quiet_invalidateConnection s generation).trans (quiet_notifyWaiters _))

/-- Every step keeps the invariant. -/
theorem Inv.step {t : Connection} {a : ConnectionAction} (h : Inv s) (hst : s.step a = some t) :
    Inv t := by
  rcases step_cases hst with hq | ⟨call, attempt, _, rfl⟩ |
    ⟨call, g, _, hidle, hgen, hsender, rfl⟩ | ⟨g, hg, _, rfl⟩ | ⟨g, _, rfl⟩
  · exact h.quiet hq
  · exact h.publish call attempt
  · exact h.admission call hidle hgen hsender
  · exact h.dropGuard hg
  · exact h.timedOut g

/-- The invariant holds in every run. -/
theorem inv_of_reachable (h : connectionSystem.Reachable s) : Inv s :=
  h.invariant (fun _ hs => hs ▸ ⟨fun _ => rfl, nofun, nofun, nofun⟩) fun _ _ _ => Inv.step

/-! ## Barred generations -/

/-- A generation that is marked, superseded, or current without a sender. -/
def Barred (s : Connection) (generation : Nat) : Prop :=
  generation ∈ s.invalidateWhenIdle ∨ generation < s.generation ∨
    (generation = s.generation ∧ s.sender = false)

/-- The streams submitted on a generation. -/
def streams (s : Connection) (generation : Nat) : Nat :=
  (s.submitted.map (·.2)).count generation

/-- Quiet steps keep a generation barred. -/
theorem Barred.quiet {t : Connection} {generation : Nat} (h : Barred s generation)
    (hq : Quiet s t) : Barred t generation := by
  rcases h with hidle | hold | ⟨hgen, hsender⟩
  · exact Or.inl (hq.idle ▸ hidle)
  · exact Or.inr (Or.inl (hq.generation ▸ hold))
  · refine Or.inr (Or.inr ⟨hgen.trans hq.generation.symm, ?_⟩)
    by_contra hsome
    have := hq.sender (Bool.not_eq_false _ ▸ hsome)
    rw [hsender] at this
    cases this

/-- An invalidated generation has lost its sender or was superseded before. -/
theorem barred_invalidateConnection {generation : Nat} (h : generation ≤ s.generation) :
    Barred (s.invalidateConnection generation) generation := by
  unfold invalidateConnection
  split
  · next hgen =>
    split
    · exact Or.inr (Or.inr ⟨hgen.symm, rfl⟩)
    · exact Or.inr (Or.inr ⟨hgen.symm, rfl⟩)
  · next hgen => exact Or.inr (Or.inl (by omega))

/-- No step lifts a bar, and no step submits a stream on a barred generation. -/
theorem Barred.step {t : Connection} {a : ConnectionAction} {generation : Nat}
    (h : Barred s generation) (hinv : Inv s) (hst : s.step a = some t) :
    Barred t generation ∧ t.streams generation = s.streams generation := by
  rcases step_cases hst with hq | ⟨call, attempt, _, rfl⟩ |
    ⟨call, g, _, hidle, hgen, hsender, rfl⟩ | ⟨g, hg, _, rfl⟩ | ⟨g, _, rfl⟩
  · exact ⟨h.quiet hq, by rw [streams, streams, hq.submitted]⟩
  · obtain ⟨hgen, _, _, hidle, _, hsubmitted⟩ := publish_fields (s := s) call attempt
    refine ⟨?_, by rw [streams, streams, hsubmitted]⟩
    rw [Barred, hidle, hgen]
    rcases h with h | h | h
    · exact Or.inl h
    · exact Or.inr (Or.inl (by omega))
    · exact Or.inr (Or.inl (by omega))
  · rw [admission_true call hidle hgen hsender]
    refine ⟨h, ?_⟩
    have hne : g ≠ generation := by
      rintro rfl
      rcases h with h | h | ⟨_, h⟩
      · exact hidle h
      · omega
      · rw [hsender] at h
        cases h
    exact List.count_cons_of_ne hne
  · obtain ⟨u, _, hguards, hgen, hsender, _, hsubmitted, _, hcases⟩ := dropGuard_spec hinv hg
    have hstreams : u.streams generation = s.streams generation := by
      rw [streams, streams, hsubmitted]
    rcases hcases with ⟨heq, hidle⟩ | ⟨_, hidle, heq⟩
    · rw [heq]
      exact ⟨by rwa [Barred, hidle, hgen, hsender], hstreams⟩
    · have hq := (quiet_invalidateConnection u g).trans (quiet_notifyWaiters _)
      rw [heq]
      refine ⟨?_, by rw [streams, hq.submitted]; exact hstreams⟩
      by_cases hgg : generation = g
      · subst hgg
        exact (barred_invalidateConnection (hgen ▸ hinv.guarded _ hg)).quiet
          (quiet_notifyWaiters _)
      · refine Barred.quiet ?_ hq
        rw [Barred, hidle, hgen, hsender]
        exact h.imp (fun h => Finset.mem_erase.mpr ⟨hgg, h⟩) id
  · rcases timedOut_spec hinv g with ⟨_, heq⟩ | ⟨_, heq⟩ <;> rw [heq]
    · exact ⟨h.imp (fun h => Finset.mem_insert_of_mem h) id, rfl⟩
    · have hq := (quiet_invalidateConnection s g).trans (quiet_notifyWaiters _)
      exact ⟨h.quiet hq, by rw [streams, streams, hq.submitted]⟩

/-- Over any run, a barred generation gets no further stream. -/
theorem Barred.run {t : Connection} {actions : List ConnectionAction} {generation : Nat}
    (h : Barred s generation) (hinv : Inv s) (hrun : connectionSystem.run s actions = some t) :
    t.streams generation = s.streams generation := by
  have hall := System.run_preserves (P := fun u => Barred u generation ∧ Inv u ∧
      u.streams generation = s.streams generation)
    (fun u a v hu hst =>
      have hstep := hu.1.step hu.2.1 hst
      ⟨hstep.1, hu.2.1.step hst, hstep.2.trans hu.2.2⟩)
    ⟨h, hinv, rfl⟩ hrun
  exact hall.2.2

/-! ## Aborts -/

/-- Invalidation aborts at most the driver of the invalidated generation. -/
theorem aborts_invalidateConnection (h : ∀ d, s.driver = some d → d = s.generation)
    {generation g : Nat}
    (hg : s.aborts.count g < (s.invalidateConnection generation).aborts.count g) :
    g = generation := by
  unfold invalidateConnection at hg
  split at hg
  · next hgen =>
    split at hg
    · next driver hdriver =>
      by_contra hne
      have hd : driver ≠ g := fun heq => hne (heq ▸ (h driver hdriver).trans hgen)
      have hcount : (driver :: s.aborts).count g = s.aborts.count g := List.count_cons_of_ne hd
      exact absurd hg (by rw [Nat.not_lt]; exact hcount.le)
    · exact absurd hg (Nat.lt_irrefl _)
  · exact absurd hg (Nat.lt_irrefl _)

/-- The last guard's drop and a request timeout spare generations with a live request. -/
theorem aborts_idle {t : Connection} {a : ConnectionAction} (hinv : Inv s)
    (ha : ∃ g, a = .guardDropped g ∨ a = .timedOut g) (hst : s.step a = some t) {g : Nat}
    (hg : s.aborts.count g < t.aborts.count g) : g ∉ t.guards := by
  obtain ⟨generation, rfl | rfl⟩ := ha
  · simp only [step] at hst
    split at hst <;> cases hst
    next hmem =>
    obtain ⟨u, hu, hguards, _, _, hdriver, _, haborts, hcases⟩ := dropGuard_spec hinv hmem
    rw [← haborts] at hg
    rcases hcases with ⟨heq, _⟩ | ⟨hlast, _, heq⟩ <;> rw [heq] at hg ⊢
    · exact absurd hg (Nat.lt_irrefl _)
    · have hq := (quiet_invalidateConnection u generation).trans (quiet_notifyWaiters _)
      rw [hq.guards, aborts_invalidateConnection hu.driven hg]
      exact hlast
  · cases hst
    rcases timedOut_spec hinv generation with ⟨_, heq⟩ | ⟨hidle, heq⟩ <;> rw [heq] at hg ⊢
    · exact absurd hg (Nat.lt_irrefl _)
    · have hq := (quiet_invalidateConnection s generation).trans (quiet_notifyWaiters _)
      rw [hq.guards, aborts_invalidateConnection hinv.driven hg]
      exact hidle

/-! ## One stream for each call -/

/-- Calls that are over stay over, and no call begins. -/
structure Calm (s t : Connection) : Prop where
  ended : ∀ c, s.calls c = none → t.calls c = none
  nextCall : t.nextCall = s.nextCall

/-- Nothing begins or revives a call. -/
theorem Calm.refl (s : Connection) : Calm s s := ⟨fun _ => id, rfl⟩

variable {u : Connection}

/-- A call that is there may go on. -/
theorem Calm.enter (h : Calm s u) {call : Nat} (hcall : s.calls call ≠ none) (phase : CallPhase) :
    Calm s (u.enter call phase) := by
  refine ⟨fun c hc => ?_, h.nextCall⟩
  have hne : c ≠ call := fun heq => hcall (heq ▸ hc)
  simp [Connection.enter, hne, h.ended c hc]

/-- A call may end. -/
theorem Calm.leave (h : Calm s u) (call : Nat) : Calm s (u.leave call) := by
  refine ⟨fun c hc => ?_, h.nextCall⟩
  by_cases heq : c = call <;> simp [Connection.leave, heq, h.ended c hc]

/-- Waking the waiters is calm. -/
theorem Calm.notifyWaiters (h : Calm s u) : Calm s u.notifyWaiters := by
  refine ⟨fun c hc => ?_, h.nextCall⟩
  simp only [Connection.notifyWaiters, h.ended c hc]

/-- An invalidation is calm. -/
theorem Calm.invalidateConnection (h : Calm s u) (generation : Nat) :
    Calm s (u.invalidateConnection generation) := by
  unfold Connection.invalidateConnection
  split
  · split <;> exact ⟨h.ended, h.nextCall⟩
  · exact h

/-- A call that is there may wait for a connection. -/
theorem Calm.connectCheck (h : Calm s u) {call : Nat} (hcall : s.calls call ≠ none)
    (attempt : Nat) {otherwise : Connection} (hother : Calm s otherwise) :
    Calm s (u.connectCheck call attempt otherwise) := by
  unfold Connection.connectCheck
  split
  · exact h.leave call
  · split
    · refine Calm.enter ?_ hcall _
      exact ⟨h.ended, h.nextCall⟩
    · exact hother

private theorem calm_publish {call : Nat} (hcall : s.calls call ≠ none) (attempt : Nat) :
    Calm s (s.publish call attempt) := by
  unfold publish
  split
  · refine Calm.enter ?_ hcall _
    exact ⟨fun _ => id, rfl⟩
  · refine Calm.enter ?_ hcall _
    exact ⟨fun _ => id, rfl⟩

private theorem calm_admission {call : Nat} (hcall : s.calls call ≠ none) (generation : Nat)
    (submits : Bool) : Calm s (s.admission call generation submits) := by
  unfold admission
  split
  · exact (Calm.refl s).enter hcall _
  · split
    · split
      · refine Calm.leave ?_ call
        exact ⟨fun _ => id, rfl⟩
      · exact (Calm.refl s).leave call
    · exact (Calm.refl s).enter hcall _

private theorem calm_dropGuard (generation : Nat) : Calm s (s.dropGuard generation) := by
  unfold dropGuard
  split
  · exact ⟨fun _ => id, rfl⟩
  · dsimp only
    split
    · refine (Calm.invalidateConnection ?_ generation).notifyWaiters
      exact ⟨fun _ => id, rfl⟩
    · exact ⟨fun _ => id, rfl⟩

private theorem calm_invalidateConnectionIfIdle (generation : Nat) :
    Calm s (s.invalidateConnectionIfIdle generation) := by
  unfold invalidateConnectionIfIdle
  split
  · exact ⟨fun _ => id, rfl⟩
  · refine (Calm.invalidateConnection ?_ generation).notifyWaiters
    exact ⟨fun _ => id, rfl⟩

private theorem calm_connectionFinished (h : Calm s u) (generation : Nat) :
    Calm s (u.connectionFinished generation) := by
  unfold connectionFinished
  split
  · refine Calm.notifyWaiters ?_
    exact ⟨h.ended, h.nextCall⟩
  · exact h

/-- A step begins the next call or is calm. -/
theorem calm_of_step {t : Connection} {a : ConnectionAction} (h : s.step a = some t) :
    t = { s.enter s.nextCall (.connecting 0) with nextCall := s.nextCall + 1 } ∨ Calm s t := by
  have hsome {call : Nat} {phase : CallPhase} (hcall : s.calls call = some phase) :
      s.calls call ≠ none := by
    rw [hcall]
    nofun
  cases a with
  | call => exact Or.inl (Option.some.inj h).symm
  | connect call =>
    simp only [step] at h
    split at h <;> cases h
    next hcall =>
    exact Or.inr ((Calm.refl s).connectCheck (hsome hcall) _ ((Calm.refl s).enter (hsome hcall) _))
  | locked call =>
    simp only [step] at h
    split at h <;> cases h
    next hcall _ =>
    refine Or.inr (Calm.connectCheck ?_ (hsome hcall) _ (Calm.enter ?_ (hsome hcall) _))
    · exact ⟨fun _ => id, rfl⟩
    · exact ⟨fun _ => id, rfl⟩
  | dialed call ok =>
    simp only [step] at h
    split at h <;> cases h
    next hcall =>
    split
    · exact Or.inr (calm_publish (hsome hcall) _)
    · exact Or.inr ((Calm.refl s).leave call)
  | readied call ready submits =>
    simp only [step] at h
    split at h
    · next hcall =>
      split at h
      · cases h
        exact Or.inr (calm_admission (hsome hcall) _ submits)
      · split at h <;> cases h
        · exact Or.inr (((Calm.refl s).invalidateConnection _).enter (hsome hcall) _)
        · exact Or.inr ((Calm.refl s).leave call)
    · cases h
  | woken call =>
    simp only [step] at h
    split at h <;> cases h
    next hcall => exact Or.inr ((Calm.refl s).enter (hsome hcall) _)
  | cancelled call =>
    simp only [step] at h
    split at h <;> cases h
    exact Or.inr ((Calm.refl s).leave call)
  | guardDropped generation =>
    simp only [step] at h
    split at h <;> cases h
    exact Or.inr (calm_dropGuard generation)
  | timedOut generation =>
    cases h
    exact Or.inr (calm_invalidateConnectionIfIdle generation)
  | driverEnded generation =>
    simp only [step] at h
    split at h
    · cases h
    · split at h <;> cases h
      · exact Or.inr ⟨fun _ => id, rfl⟩
      · refine Or.inr (calm_connectionFinished ?_ generation)
        exact ⟨fun _ => id, rfl⟩
  | abort | startClose =>
    cases h
    exact Or.inr ⟨fun _ => id, rfl⟩

/-- Calls get fresh names, and one that has submitted a stream is over. -/
structure Once (s : Connection) : Prop where
  fresh : ∀ c, s.nextCall ≤ c → s.calls c = none
  ended : ∀ x ∈ s.submitted, x.1 < s.nextCall ∧ s.calls x.1 = none
  nodup : (s.submitted.map (·.1)).Nodup

/-- Every step keeps the calls to one submission each. -/
theorem Once.step {t : Connection} {a : ConnectionAction} (h : Once s) (hinv : Inv s)
    (hst : s.step a = some t) : Once t := by
  -- nothing is submitted except by an admission
  have hsame (hcalm : Calm s t) (hsubmitted : t.submitted = s.submitted) : Once t := by
    refine ⟨fun c hc => hcalm.ended c (h.fresh c (hcalm.nextCall ▸ hc)), ?_, ?_⟩
    · rw [hsubmitted, hcalm.nextCall]
      exact fun x hx => ⟨(h.ended x hx).1, hcalm.ended _ (h.ended x hx).2⟩
    · rw [hsubmitted]
      exact h.nodup
  rcases calm_of_step hst with rfl | hcalm
  · have hcalls (c : Nat) (hne : c ≠ s.nextCall) :
        (s.enter s.nextCall (.connecting 0)).calls c = s.calls c :=
      Function.update_of_ne hne ..
    refine ⟨fun c hc => ?_, fun x hx => ?_, h.nodup⟩
    · have hc : s.nextCall + 1 ≤ c := hc
      exact (hcalls c (by omega)).trans (h.fresh c (by omega))
    · obtain ⟨hlt, hover⟩ := h.ended x hx
      exact ⟨Nat.lt_succ_of_lt hlt, (hcalls x.1 (by omega)).trans hover⟩
  rcases step_cases hst with hq | ⟨call, attempt, _, rfl⟩ |
    ⟨call, g, hcall, hidle, hgen, hsender, rfl⟩ | ⟨g, hg, _, rfl⟩ | ⟨g, _, rfl⟩
  · exact hsame hcalm hq.submitted
  · exact hsame hcalm (publish_fields call attempt).2.2.2.2.2
  · have hlt : call < s.nextCall := Nat.lt_of_not_le fun hle => hcall (h.fresh call hle)
    rw [admission_true call hidle hgen hsender] at hcalm ⊢
    refine ⟨fun c hc => hcalm.ended c (h.fresh c hc), List.forall_mem_cons.mpr ⟨⟨hlt, ?_⟩, ?_⟩, ?_⟩
    · exact Function.update_self ..
    · exact fun x hx => ⟨(h.ended x hx).1, hcalm.ended _ (h.ended x hx).2⟩
    · refine List.nodup_cons.mpr ⟨fun hmem => ?_, h.nodup⟩
      obtain ⟨x, hx, rfl⟩ := List.mem_map.mp hmem
      exact hcall (h.ended x hx).2
  · obtain ⟨u, _, _, _, _, _, hsubmitted, _, ⟨heq, _⟩ | ⟨_, _, heq⟩⟩ := dropGuard_spec hinv hg
    · exact hsame hcalm (heq ▸ hsubmitted)
    · have hq := (quiet_invalidateConnection u g).trans (quiet_notifyWaiters _)
      exact hsame hcalm (by rw [heq, hq.submitted, hsubmitted])
  · rcases timedOut_spec hinv g with ⟨_, heq⟩ | ⟨_, heq⟩
    · exact hsame hcalm (by rw [heq])
    · have hq := (quiet_invalidateConnection s g).trans (quiet_notifyWaiters _)
      exact hsame hcalm (by rw [heq, hq.submitted])

/-- In every run each call has submitted at most once. -/
theorem once_of_reachable (h : connectionSystem.Reachable s) : Once s := by
  refine h.strengthen (fun _ => inv_of_reachable) ?_ fun _ _ _ hinv honce => honce.step hinv
  rintro s rfl
  exact ⟨fun _ _ => rfl, nofun, List.nodup_nil⟩

end Connection

/-- The counts are those of the live guards and marked generations have one; a marked or
cleared generation gets no further stream; timeouts and guard drops abort no driver
under a live request; and a call submits at most one stream. -/
theorem generations_sound {s : Connection} (h : connectionSystem.Reachable s) :
    (∀ g, s.counts g = if s.guards.count g = 0 then none else some (s.guards.count g)) ∧
    (∀ g ∈ s.invalidateWhenIdle, 1 ≤ (s.counts g).getD 0) ∧
    (∀ g, g ∈ s.invalidateWhenIdle ∨ (g = s.generation ∧ s.sender = false) →
      ∀ actions t, connectionSystem.run s actions = some t → t.streams g = s.streams g) ∧
    (∀ a t g, (∃ g', a = .guardDropped g' ∨ a = .timedOut g') → s.step a = some t →
      s.aborts.count g < t.aborts.count g → g ∉ t.guards) ∧
    (s.submitted.map (·.1)).Nodup := by
  have hinv := Connection.inv_of_reachable h
  refine ⟨hinv.counted, fun g hg => ?_, fun g hg actions t hrun => ?_,
    fun a t g ha hst => Connection.aborts_idle hinv ha hst,
    (Connection.once_of_reachable h).nodup⟩
  · rw [hinv.getD_counts]
    exact List.count_pos_iff.mpr (hinv.marked g hg)
  · have hbarred : s.Barred g := hg.imp id Or.inr
    exact hbarred.run hinv hrun

/-- Two requests share a connection; one times out while the other is live. -/
theorem generations_sound_shared :
    ∃ s, connectionSystem.Reachable s ∧ s.guards = [1] ∧ 1 ∈ s.invalidateWhenIdle ∧
      s.counts 1 = some 1 ∧
      ∀ actions t, connectionSystem.run s actions = some t → t.streams 1 = s.streams 1 := by
  obtain ⟨s, hs, hcheck⟩ := connectionSystem.exists_of_run {}
    [.call, .call, .connect 0, .locked 0, .dialed 0 true, .connect 1, .readied 0 true true,
      .readied 1 true true, .guardDropped 1, .timedOut 1]
    (fun s => s.guards = [1] && 1 ∈ s.invalidateWhenIdle) (by decide)
  simp only [Bool.and_eq_true, decide_eq_true_eq] at hcheck
  obtain ⟨hguards, hmarked⟩ := hcheck
  have hreach : connectionSystem.Reachable s := System.Reachable.run (.start rfl) hs
  obtain ⟨hcounts, _, hbarred, _, _⟩ := generations_sound hreach
  refine ⟨s, hreach, hguards, hmarked, ?_, hbarred 1 (Or.inl hmarked)⟩
  rw [hcounts, hguards]
  rfl

end TgWsProxy.H2
