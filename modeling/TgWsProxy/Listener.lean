import TgWsProxy.Core.Tally
import TgWsProxy.Core.Transition
import TgWsProxy.Stats

/-!
# The listener

`Proxy::start`, its accept loop, `shutdown` and `Drop` of `proxy.rs`, for all the proxies that a
process starts one after another or side by side: they share the counters. The runtime has one
thread, so what a future drops at its end is dropped in one step. A job that ends by itself and one
that is aborted drop the same things.
-/

namespace TgWsProxy

open TgWsProxy.Core

/-- The futures of the `JoinSet`. -/
inductive JobKind
  | maintain
  | refreshDomains
  /-- `serve`, with its `Active` and its permit. -/
  | serve
  deriving DecidableEq

/-- A task of the `JoinSet`; a future that is dropped stays in the set until it is joined. -/
structure Job where
  kind : JobKind
  live : Bool := true
  deriving DecidableEq

/-- Where the task of a proxy is. -/
inductive ListenerPhase
  | accepting
  /-- Behind an error of the listener. -/
  | sleeping
  /-- Behind `abort_all`. -/
  | draining
  /-- `upstream.close`. -/
  | closing
  | finished
  /-- The task is aborted before its end, and the `JoinSet` with it. -/
  | dropped
  deriving DecidableEq

/-- `Proxy` with the locals of its task. -/
structure Proxy where
  maxConnections : Nat
  /-- The free permits of `slots`. -/
  permits : Nat
  jobs : List Job
  phase : ListenerPhase := .accepting
  /-- `stop` is sent, or its sender is dropped. -/
  stop : Bool := false
  /-- How many sockets `accept` has returned. -/
  sockets : Nat := 0
  deriving DecidableEq

/-- What happens at one proxy. -/
inductive ProxyAction
  /-- `accept` returns a socket. -/
  | accept
  | acceptError
  | wake
  /-- A future of the set is dropped: it has ended, or is aborted. -/
  | finish (job : Nat)
  | join (job : Nat)
  /-- `shutdown` sends `stop`, or the sender is dropped. -/
  | stop
  /-- The loop sees `stop`. -/
  | break
  /-- `join_next` has returned `None`. -/
  | drained
  | closed
  /-- The abort of `Drop` takes effect. -/
  | abort
  deriving DecidableEq

namespace Proxy

/-- `Proxy::start`, behind the fallible part. -/
def start (maxConnections : Nat) : Proxy where
  maxConnections := maxConnections
  permits := maxConnections
  jobs := [{ kind := .maintain }, { kind := .refreshDomains }]

/-- A socket is admitted where a permit is free. -/
def accept (p : Proxy) (stats : Stats) : Proxy × Stats :=
  let p := { p with sockets := p.sockets + 1 }
  if p.permits = 0 then (p, stats.reject)
  else ({ p with permits := p.permits - 1, jobs := p.jobs ++ [{ kind := .serve }] }, stats.accepted)

/-- The end of a future; that of `serve` lets go of its permit and of its `Active`. -/
def drop (p : Proxy) (stats : Stats) (i : Nat) (job : Job) : Proxy × Stats :=
  let p := { p with jobs := p.jobs.set i { job with live := false } }
  if job.kind = .serve then ({ p with permits := p.permits + 1 }, stats.closed) else (p, stats)

/-- One step of a proxy and of the counters. -/
def step (p : Proxy) (stats : Stats) : ProxyAction → Option (Proxy × Stats)
  | .accept => if p.phase = .accepting then some (p.accept stats) else none
  | .acceptError =>
    if p.phase = .accepting then some ({ p with phase := .sleeping }, stats) else none
  | .wake => if p.phase = .sleeping then some ({ p with phase := .accepting }, stats) else none
  | .finish i => p.jobs[i]?.bind fun job => if job.live then some (p.drop stats i job) else none
  | .join i => p.jobs[i]?.bind fun job =>
    if !job.live && (p.phase = .accepting ∨ p.phase = .draining) then
      some ({ p with jobs := p.jobs.eraseIdx i }, stats)
    else none
  | .stop => if p.stop then none else some ({ p with stop := true }, stats)
  | .break =>
    if p.stop ∧ p.phase = .accepting then some ({ p with phase := .draining }, stats) else none
  | .drained =>
    if p.phase = .draining ∧ p.jobs = [] then some ({ p with phase := .closing }, stats) else none
  | .closed => if p.phase = .closing then some ({ p with phase := .finished }, stats) else none
  | .abort =>
    if p.phase = .finished ∨ p.phase = .dropped then none
    else some ({ p with phase := .dropped }, stats)

/-- The connections that are served. -/
def serving (p : Proxy) : Nat :=
  tally (fun job => if job.live ∧ job.kind = .serve then 1 else 0) p.jobs

/-- The task is past its loop. -/
def leaving (p : Proxy) : Bool :=
  p.phase = .draining || p.phase = .closing || p.phase = .finished || p.phase = .dropped

/-- The steps that are left of a shutdown, at most. -/
def left (p : Proxy) : Nat :=
  tally (fun job => if job.live then 2 else 1) p.jobs + (if p.stop then 0 else 1) +
    if p.phase = .draining then 2 else if p.phase = .closing then 1 else 0

end Proxy

/-- The proxies of a process, in the order in which they are started. -/
structure Listeners where
  stats : Stats := {}
  proxies : List Proxy := []

/-- `Proxy::start`, or a step of a proxy. -/
inductive ListenerAction
  | start (maxConnections : Nat)
  | at (proxy : Nat) (action : ProxyAction)
  deriving DecidableEq

/-- One step of the process. -/
def Listeners.step (s : Listeners) : ListenerAction → Option Listeners
  | .start maxConnections => some { s with proxies := s.proxies ++ [.start maxConnections] }
  | .at i action => s.proxies[i]?.bind fun p => (p.step s.stats action).map fun (p', stats) =>
    { stats := stats, proxies := s.proxies.set i p' }

/-- The proxies of a process from its start. -/
def listenerSystem : System Listeners ListenerAction where
  start s := s = {}
  step := Listeners.step

namespace Proxy

variable {p p' : Proxy} {stats stats' : Stats} {action : ProxyAction}

/-- Every permit is free or belongs to a connection, and behind the drain no job is left. -/
structure Sound (p : Proxy) : Prop where
  permits : p.permits + p.serving = p.maxConnections
  gone : p.phase = .closing ∨ p.phase = .finished → p.jobs = []

/-- What a step changes of the counters, next to what it changes of the proxy. -/
structure Accounts (p p' : Proxy) (stats stats' : Stats) : Prop where
  active : stats'.connectionsActive + p.serving = stats.connectionsActive + p'.serving
  sockets : stats'.connectionsTotal + stats'.rejected + p.sockets =
    stats.connectionsTotal + stats.rejected + p'.sockets

/-- A step that keeps connections and sockets is accounted for by nothing. -/
theorem Accounts.of_eq (hserving : p'.serving = p.serving) (hsockets : p'.sockets = p.sockets) :
    p.Accounts p' stats stats := by
  constructor
  · rw [hserving]
  · rw [hsockets]

/-- A proxy starts sound. -/
theorem sound_start (maxConnections : Nat) : (start maxConnections).Sound := by
  constructor
  · rfl
  · rintro (h | h) <;> cases h

/-- A dropped future was served if it was one of `serve`. -/
theorem serving_set {i : Nat} {job : Job} (hjob : p.jobs[i]? = some job) (hlive : job.live = true) :
    serving { p with jobs := p.jobs.set i { job with live := false } } +
      (if job.kind = .serve then 1 else 0) = p.serving := by
  have h := tally_set (fun job : Job => if job.live ∧ job.kind = .serve then 1 else 0) hjob
    { job with live := false }
  simpa [serving, hlive] using h

/-- Joining a future ends no connection. -/
theorem serving_eraseIdx {i : Nat} {job : Job} (hjob : p.jobs[i]? = some job)
    (hlive : job.live = false) :
    serving { p with jobs := p.jobs.eraseIdx i } = p.serving := by
  have h := tally_eraseIdx (fun job : Job => if job.live ∧ job.kind = .serve then 1 else 0) hjob
  simpa [serving, hlive] using h

/-- A socket is turned away just where every permit is taken. -/
theorem Sound.accept (h : p.Sound) (hphase : p.phase = .accepting) :
    (p.accept stats).1.Sound ∧ p.Accounts (p.accept stats).1 stats (p.accept stats).2 := by
  have hpermits := h.permits
  rw [Proxy.accept]
  dsimp only
  split
  · refine ⟨⟨hpermits, fun hgone => h.gone hgone⟩, rfl, ?_⟩
    simp only [Stats.reject]
    omega
  · next hfree =>
    have hserving : serving { p with jobs := p.jobs ++ [{ kind := .serve }] } = p.serving + 1 := by
      simp [serving]
    refine ⟨⟨?_, ?_⟩, ?_, ?_⟩
    · change p.permits - 1 + serving { p with jobs := p.jobs ++ [{ kind := .serve }] } =
        p.maxConnections
      omega
    · intro hgone
      simp [hphase] at hgone
    · change stats.connectionsActive + 1 + p.serving = stats.connectionsActive +
        serving { p with jobs := p.jobs ++ [{ kind := .serve }] }
      omega
    · simp only [Stats.accepted]
      omega

/-- The end of a future lets go of what it held. -/
theorem Sound.drop (h : p.Sound) {i : Nat} {job : Job} (hjob : p.jobs[i]? = some job)
    (hlive : job.live = true) (hactive : p.serving ≤ stats.connectionsActive) :
    (p.drop stats i job).1.Sound ∧
      p.Accounts (p.drop stats i job).1 stats (p.drop stats i job).2 := by
  have hpermits := h.permits
  have hserving := serving_set hjob hlive
  have hnil : ¬(p.phase = .closing ∨ p.phase = .finished) := fun hgone => by
    simp [h.gone hgone] at hjob
  rw [Proxy.drop]
  dsimp only
  split
  · next hkind =>
    rw [if_pos hkind] at hserving
    refine ⟨⟨?_, fun hgone => absurd hgone hnil⟩, ?_, rfl⟩
    · change p.permits + 1 + serving { p with jobs := p.jobs.set i { job with live := false } } =
        p.maxConnections
      omega
    · change stats.connectionsActive - 1 + p.serving = stats.connectionsActive +
        serving { p with jobs := p.jobs.set i { job with live := false } }
      omega
  · next hkind =>
    rw [if_neg hkind, Nat.add_zero] at hserving
    refine ⟨⟨?_, fun hgone => absurd hgone hnil⟩, .of_eq hserving rfl⟩
    rw [hserving]
    exact hpermits

/-- One step of a proxy. -/
theorem Sound.step (h : p.Sound) (hactive : p.serving ≤ stats.connectionsActive)
    (hstep : p.step stats action = some (p', stats')) :
    p'.Sound ∧ p.Accounts p' stats stats' := by
  cases action with
  | accept =>
    rw [Proxy.step] at hstep
    split at hstep
    · next hphase =>
      rw [Option.some.injEq, Prod.ext_iff] at hstep
      obtain ⟨rfl, rfl⟩ := hstep
      exact h.accept hphase
    · cases hstep
  | acceptError | wake | stop | «break» =>
    simp only [Proxy.step, Option.ite_none_right_eq_some, Option.ite_none_left_eq_some,
      Option.some.injEq, Prod.mk.injEq] at hstep
    obtain ⟨hphase, rfl, rfl⟩ := hstep
    refine ⟨⟨h.permits, ?_⟩, .of_eq rfl rfl⟩
    first
      | exact h.gone
      | rintro (hgone | hgone) <;> cases hgone
  | finish i =>
    rw [Proxy.step, Option.bind_eq_some_iff] at hstep
    obtain ⟨job, hjob, hstep⟩ := hstep
    split at hstep
    · next hlive =>
      rw [Option.some.injEq, Prod.ext_iff] at hstep
      obtain ⟨rfl, rfl⟩ := hstep
      exact h.drop hjob hlive hactive
    · cases hstep
  | join i =>
    rw [Proxy.step, Option.bind_eq_some_iff] at hstep
    obtain ⟨job, hjob, hstep⟩ := hstep
    split at hstep
    · next hjoin =>
      cases hstep
      simp only [Bool.and_eq_true, Bool.not_eq_true', decide_eq_true_eq] at hjoin
      have hserving := serving_eraseIdx hjob hjoin.1
      refine ⟨⟨?_, fun hgone => ?_⟩, .of_eq hserving rfl⟩
      · rw [hserving]
        exact h.permits
      · rcases hjoin.2 with hphase | hphase <;> simp [hphase] at hgone
    · cases hstep
  | drained =>
    simp only [Proxy.step, Option.ite_none_right_eq_some, Option.some.injEq, Prod.mk.injEq] at hstep
    obtain ⟨⟨-, hnil⟩, rfl, rfl⟩ := hstep
    exact ⟨⟨h.permits, fun _ => hnil⟩, .of_eq rfl rfl⟩
  | closed =>
    simp only [Proxy.step, Option.ite_none_right_eq_some, Option.some.injEq, Prod.mk.injEq] at hstep
    obtain ⟨hphase, rfl, rfl⟩ := hstep
    exact ⟨⟨h.permits, fun _ => h.gone (.inl hphase)⟩, .of_eq rfl rfl⟩
  | abort =>
    simp only [Proxy.step, Option.ite_none_left_eq_some, Option.some.injEq, Prod.mk.injEq] at hstep
    obtain ⟨-, rfl, rfl⟩ := hstep
    refine ⟨⟨h.permits, ?_⟩, .of_eq rfl rfl⟩
    rintro (hgone | hgone) <;> cases hgone

/-- Behind the loop every step is one step less to the end, and serves no further connection. -/
theorem leaving_step (hleaving : p.leaving = true)
    (hstep : p.step stats action = some (p', stats')) :
    p'.leaving = true ∧ p'.left < p.left ∧ p'.serving ≤ p.serving := by
  have haccepting : p.phase ≠ .accepting := fun h => by simp [leaving, h] at hleaving
  have hsleeping : p.phase ≠ .sleeping := fun h => by simp [leaving, h] at hleaving
  cases action with
  | accept | acceptError | wake | «break» => simp [Proxy.step, haccepting, hsleeping] at hstep
  | finish i =>
    rw [Proxy.step, Option.bind_eq_some_iff] at hstep
    obtain ⟨job, hjob, hstep⟩ := hstep
    split at hstep
    · next hlive =>
      have hserving := serving_set hjob hlive
      have hleft := tally_set (fun job : Job => if job.live then 2 else 1) hjob
        { job with live := false }
      simp only [hlive, if_true, Bool.false_eq_true, if_false] at hleft
      rw [Option.some.injEq, Prod.ext_iff] at hstep
      obtain ⟨rfl, -⟩ := hstep
      -- of what is left only the jobs change
      have hjobs (q : Proxy) (hq : q.jobs = p.jobs.set i { job with live := false })
          (hstop : q.stop = p.stop) (hphase : q.phase = p.phase) :
          q.leaving = true ∧ q.left < p.left ∧ q.serving ≤ p.serving := by
        have hq' :
            q.serving = serving { p with jobs := p.jobs.set i { job with live := false } } := by
          rw [serving, hq]
          rfl
        refine ⟨by rwa [leaving, hphase], ?_, by omega⟩
        rw [left, left, hq, hstop, hphase]
        omega
      rw [Proxy.drop]
      dsimp only
      split
      · exact hjobs _ rfl rfl rfl
      · exact hjobs _ rfl rfl rfl
    · cases hstep
  | join i =>
    rw [Proxy.step, Option.bind_eq_some_iff] at hstep
    obtain ⟨job, hjob, hstep⟩ := hstep
    split at hstep
    · next hjoin =>
      cases hstep
      simp only [Bool.and_eq_true, Bool.not_eq_true'] at hjoin
      have hserving := serving_eraseIdx hjob hjoin.1
      have hleft := tally_eraseIdx (fun job : Job => if job.live then 2 else 1) hjob
      simp only [hjoin.1, Bool.false_eq_true, if_false] at hleft
      refine ⟨hleaving, ?_, Nat.le_of_eq hserving⟩
      rw [left, left]
      dsimp only
      omega
    · cases hstep
  | stop =>
    simp only [Proxy.step, Option.ite_none_left_eq_some, Option.some.injEq, Prod.mk.injEq] at hstep
    obtain ⟨hstop, rfl, rfl⟩ := hstep
    refine ⟨hleaving, ?_, Nat.le_refl _⟩
    rw [left, left, if_pos rfl, if_neg hstop]
    dsimp only
    omega
  | drained =>
    simp only [Proxy.step, Option.ite_none_right_eq_some, Option.some.injEq, Prod.mk.injEq] at hstep
    obtain ⟨⟨hphase, -⟩, rfl, rfl⟩ := hstep
    refine ⟨rfl, ?_, Nat.le_refl _⟩
    simp [left, hphase]
  | closed =>
    simp only [Proxy.step, Option.ite_none_right_eq_some, Option.some.injEq, Prod.mk.injEq] at hstep
    obtain ⟨hphase, rfl, rfl⟩ := hstep
    refine ⟨rfl, ?_, Nat.le_refl _⟩
    simp [left, hphase]
  | abort =>
    simp only [Proxy.step, Option.ite_none_left_eq_some, Option.some.injEq, Prod.mk.injEq] at hstep
    obtain ⟨hphase, rfl, rfl⟩ := hstep
    have hwhere : p.phase = .draining ∨ p.phase = .closing := by
      simpa [leaving, not_or.mp hphase] using hleaving
    refine ⟨rfl, ?_, Nat.le_refl _⟩
    rcases hwhere with hphase | hphase <;> simp [left, hphase]

/-- Nothing of the proxy is left: neither its task nor a future that it has spawned. -/
def Gone (p : Proxy) : Prop :=
  (p.phase = .finished ∨ p.phase = .dropped) ∧ ∀ job ∈ p.jobs, job.live = false

/-- Behind the loop there is a step to take until nothing is left. -/
theorem gone_or_step (hleaving : p.leaving = true) (stats : Stats) :
    p.Gone ∨ ∃ action, action ≠ .stop ∧ action ≠ .abort ∧ (p.step stats action).isSome = true := by
  by_cases hlive : ∃ (i : Nat) (job : Job), p.jobs[i]? = some job ∧ job.live = true
  · obtain ⟨i, job, hjob, hlive⟩ := hlive
    refine .inr ⟨.finish i, by simp, by simp, ?_⟩
    simp [Proxy.step, hjob, hlive]
  have hdead : ∀ job ∈ p.jobs, job.live = false := by
    intro job hmem
    obtain ⟨i, hjob⟩ := List.getElem?_of_mem hmem
    rw [← Bool.not_eq_true]
    exact fun hjoblive => hlive ⟨i, job, hjob, hjoblive⟩
  cases hphase : p.phase with
  | accepting | sleeping => simp [leaving, hphase] at hleaving
  | draining =>
    right
    cases hjobs : p.jobs with
    | nil => exact ⟨.drained, by decide, by decide, by simp [Proxy.step, hphase, hjobs]⟩
    | cons job jobs =>
      refine ⟨.join 0, by decide, by decide, ?_⟩
      simp [Proxy.step, hphase, hjobs, hdead job (hjobs ▸ List.mem_cons_self ..)]
  | closing => exact .inr ⟨.closed, by decide, by decide, by simp [Proxy.step, hphase]⟩
  | finished => exact .inl ⟨.inl hphase, hdead⟩
  | dropped => exact .inl ⟨.inr hphase, hdead⟩

end Proxy

namespace Listeners

variable {s t : Listeners}

/-- The counters agree with the proxies. -/
structure Sound (s : Listeners) : Prop where
  each : ∀ p ∈ s.proxies, p.Sound
  active : s.stats.connectionsActive = tally Proxy.serving s.proxies
  sockets : s.stats.connectionsTotal + s.stats.rejected = tally Proxy.sockets s.proxies

/-- A step is the start of a proxy or a step of one. -/
theorem step_cases {action : ListenerAction} (h : s.step action = some t) :
    (∃ maxConnections, action = .start maxConnections ∧
      t = { s with proxies := s.proxies ++ [.start maxConnections] }) ∨
    ∃ i own p p' stats, action = .at i own ∧ s.proxies[i]? = some p ∧
      p.step s.stats own = some (p', stats) ∧
      t = { stats := stats, proxies := s.proxies.set i p' } := by
  cases action with
  | start maxConnections => exact .inl ⟨maxConnections, rfl, (Option.some.inj h).symm⟩
  | «at» i own =>
    obtain ⟨p, hp, h⟩ := Option.bind_eq_some_iff.mp h
    obtain ⟨⟨p', stats⟩, hstep, rfl⟩ := Option.map_eq_some_iff.mp h
    exact .inr ⟨i, own, p, p', stats, rfl, hp, hstep, rfl⟩

/-- Every step keeps the listeners sound. -/
theorem Sound.step (h : s.Sound) {action : ListenerAction} (hstep : s.step action = some t) :
    t.Sound := by
  obtain ⟨maxConnections, -, rfl⟩ | ⟨i, own, p, p', stats, -, hp, hown, rfl⟩ := step_cases hstep
  · refine ⟨List.forall_mem_append.mpr ⟨h.each, ?_⟩, ?_, ?_⟩
    · exact List.forall_mem_singleton.mpr (Proxy.sound_start maxConnections)
    · rw [tally_append]
      exact h.active
    · rw [tally_append]
      exact h.sockets
  · have hmem := List.mem_of_getElem? hp
    have hserving := tally_set Proxy.serving hp p'
    have hsockets := tally_set Proxy.sockets hp p'
    have hactive := h.active
    have htotal := h.sockets
    have hle : p.serving ≤ s.stats.connectionsActive := by
      rw [hactive]
      exact le_tally_of_mem hmem
    obtain ⟨hsound, haccounts⟩ := (h.each p hmem).step hle hown
    have hstats := haccounts.active
    have hstats' := haccounts.sockets
    refine ⟨fun q hq => ?_, ?_, ?_⟩
    · exact (List.mem_or_eq_of_mem_set hq).elim (h.each q) fun hq => hq ▸ hsound
    · dsimp only
      omega
    · dsimp only
      omega

/-- What is known of the proxies of a process. -/
structure Exact (s : Listeners) : Prop where
  /-- `connections_active` counts the connections that are served. -/
  active : s.stats.connectionsActive = tally Proxy.serving s.proxies
  /-- Every accepted socket is counted once. -/
  sockets : s.stats.connectionsTotal + s.stats.rejected = tally Proxy.sockets s.proxies
  limit : ∀ p ∈ s.proxies, p.serving ≤ p.maxConnections
  /-- A socket is turned away where the limit is reached, and nowhere else. -/
  refuses : ∀ i p t, s.proxies[i]? = some p → s.step (.at i .accept) = some t →
    t.stats = if p.serving = p.maxConnections then s.stats.reject else s.stats.accepted
  /-- The upstream is closed behind the last job. -/
  closes : ∀ p ∈ s.proxies, p.phase = .closing ∨ p.phase = .finished → p.jobs = []

/-- Sound listeners count exactly. -/
theorem Sound.exact (h : s.Sound) : s.Exact where
  active := h.active
  sockets := h.sockets
  limit p hp := (h.each p hp).permits ▸ Nat.le_add_left _ _
  refuses i p t hp hstep := by
    have hpermits := (h.each p (List.mem_of_getElem? hp)).permits
    obtain ⟨_, haction, -⟩ | ⟨_, _, q, q', stats, haction, hq, hown, rfl⟩ := step_cases hstep
    · cases haction
    cases haction
    cases hp.symm.trans hq
    simp only [Proxy.step, Option.ite_none_right_eq_some, Option.some.injEq, Prod.ext_iff] at hown
    obtain ⟨-, -, rfl⟩ := hown
    rw [Proxy.accept]
    by_cases hfree : p.permits = 0
    · simp only [hfree, if_true]
      rw [if_pos (by omega)]
    · simp only [hfree, if_false]
      rw [if_neg (by omega)]
  closes p hp := (h.each p hp).gone

end Listeners

/-- For every interleaving of starts, stops, drops, accepted sockets and ending jobs: the counters
are exact, no proxy serves more than its limit, and one that is shut down has no job left. -/
theorem listenerExact {s : Listeners} (h : listenerSystem.Reachable s) : s.Exact := by
  refine Listeners.Sound.exact (h.invariant ?_ ?_)
  · rintro _ rfl
    exact ⟨nofun, rfl, rfl⟩
  · exact fun _ _ _ hs hstep => hs.step hstep

/-- The actions of one proxy. -/
def ListenerAction.isAt (i : Nat) : ListenerAction → Bool
  | .at j _ => i = j
  | .start _ => false

namespace Listeners

variable {s t : Listeners} {i : Nat} {p : Proxy}

/-- Over a run every step of a leaving proxy is paid for by what is left. -/
theorem leaving_run {actions : List ListenerAction} (hp : s.proxies[i]? = some p)
    (hleaving : p.leaving = true) (hrun : listenerSystem.run s actions = some t) :
    ∃ q, t.proxies[i]? = some q ∧ q.leaving = true ∧ q.serving ≤ p.serving ∧
      actions.countP (·.isAt i) + q.left ≤ p.left := by
  induction actions generalizing s p with
  | nil =>
    cases hrun
    exact ⟨p, hp, hleaving, Nat.le_refl _, by simp⟩
  | cons action actions ih =>
    obtain ⟨u, hu, hrun⟩ := Option.bind_eq_some_iff.mp hrun
    obtain ⟨maxConnections, rfl, rfl⟩ | ⟨j, own, q, q', stats, rfl, hq, hown, rfl⟩ := step_cases hu
    · rw [List.countP_cons_of_neg (by simp [ListenerAction.isAt])]
      refine ih ?_ hleaving hrun
      exact List.getElem?_append_left (List.getElem?_eq_some_iff.mp hp).1 ▸ hp
    · by_cases hij : i = j
      · subst hij
        cases hp.symm.trans hq
        obtain ⟨hleaving', hleft, hserving⟩ := Proxy.leaving_step hleaving hown
        have hlt := (List.getElem?_eq_some_iff.mp hp).1
        obtain ⟨r, hr, hrleaving, hrserving, hcount⟩ :=
          ih (List.getElem?_set_self hlt) hleaving' hrun
        refine ⟨r, hr, hrleaving, Nat.le_trans hrserving hserving, ?_⟩
        rw [List.countP_cons_of_pos (by simp [ListenerAction.isAt])]
        omega
      · rw [List.countP_cons_of_neg (by simpa [ListenerAction.isAt] using hij)]
        refine ih ?_ hleaving hrun
        rwa [List.getElem?_set_ne fun h => hij h.symm]

end Listeners

/-- A proxy for one connection that is told to stop while it serves one and has turned one away. -/
def busyRun : List ListenerAction :=
  [.start 1, .at 0 .accept, .at 0 .accept, .at 0 .stop, .at 0 .break]

/-- A run with a connection that is refused. -/
theorem listenerExact_busy :
    ∃ s, listenerSystem.run {} busyRun = some s ∧ s.Exact ∧
      (s.stats.rejected = 1 ∧ s.stats.connectionsActive = 1) := by
  obtain ⟨s, hs, hcheck⟩ := listenerSystem.exists_of_run {} busyRun
    (fun s => s.stats.rejected = 1 ∧ s.stats.connectionsActive = 1) (by decide)
  exact ⟨s, hs, listenerExact ((System.Reachable.start rfl).run hs), by simpa using hcheck⟩

/-- A shutdown ends, whatever the other proxies do: once its loop is left, a proxy takes at most
`left` steps more, serves no further connection, and has a step to take until its task and every
future that it has spawned are gone. -/
theorem shutdownCompletes {s t : Listeners} {i : Nat} {p : Proxy} (hp : s.proxies[i]? = some p)
    (hleaving : p.leaving = true) {actions : List ListenerAction}
    (hrun : listenerSystem.run s actions = some t) :
    ∃ q, t.proxies[i]? = some q ∧ actions.countP (·.isAt i) ≤ p.left ∧ q.serving ≤ p.serving ∧
      (q.Gone ∨ ∃ own, own ≠ .stop ∧ own ≠ .abort ∧ (t.step (.at i own)).isSome = true) := by
  obtain ⟨q, hq, hqleaving, hserving, hcount⟩ := Listeners.leaving_run hp hleaving hrun
  refine ⟨q, hq, Nat.le_trans (Nat.le_add_right _ _) hcount, hserving, ?_⟩
  obtain hgone | ⟨own, hstop, habort, hsome⟩ := Proxy.gone_or_step hqleaving t.stats
  · exact .inl hgone
  · refine .inr ⟨own, hstop, habort, ?_⟩
    simpa [Listeners.step, hq] using hsome

/-- The shutdown of the busy proxy, while a second proxy is started. -/
theorem shutdownCompletes_busy :
    ∃ s t p q, listenerSystem.run {} busyRun = some s ∧ s.proxies[0]? = some p ∧
      listenerSystem.run s [.at 0 (.finish 2), .start 1, .at 1 .accept, .at 0 (.finish 0)] =
        some t ∧
      t.proxies[0]? = some q ∧ q.serving ≤ p.serving ∧
      (q.Gone ∨ ∃ own, own ≠ .stop ∧ own ≠ .abort ∧ (t.step (.at 0 own)).isSome = true) := by
  let actions : List ListenerAction :=
    [.at 0 (.finish 2), .start 1, .at 1 .accept, .at 0 (.finish 0)]
  obtain ⟨s, hs, hcheck⟩ := listenerSystem.exists_of_run {} busyRun
    (fun s => (s.proxies[0]?.any (·.leaving)) && (listenerSystem.run s actions).isSome) (by decide)
  simp only [Bool.and_eq_true, Option.any_eq_true, Option.isSome_iff_exists] at hcheck
  obtain ⟨⟨p, hp, hleaving⟩, t, ht⟩ := hcheck
  obtain ⟨q, hq, -, hserving, hend⟩ := shutdownCompletes hp hleaving ht
  exact ⟨s, t, p, q, hs, hp, ht, hq, hserving, hend⟩

end TgWsProxy
