import TgWsProxy.Upstream.RouteLog
import TgWsProxy.Upstream.RouteTimers

/-!
# Routes, their times and their cool-downs

In every run the routes of a client are tried in their order, each only where it may be and with the
certificate checks that it needs; a client is done with all of them before the timer of `connect`
fires; a direct route rests as long as its failures say; and the counters tell the routes that were
returned.
-/

namespace TgWsProxy

open TgWsProxy.Core

variable {cfg : Config} {now client : Nat} {c : RouteClient} {st : RouteState}

/-! ## The system -/

/-- A dial is one that its client may make, behind its dials on the routes before. -/
structure DialSound (cfg : Config) (clients : List RouteClient) (client : Nat) (rung : Rung)
    (dial : Dial) (limit : Nat) (older : List RouteEvent) (c : RouteClient) : Prop where
  here : clients[client]? = some c
  allowed : Allowed cfg c older limit rung dial
  reached : rung.height ≤ c.stage.height
  ordered : ∀ rung' dial' limit', .dialled client rung' dial' limit' ∈ older →
    rung'.height ≤ rung.height

/-- What the return of a route counts for. -/
def Rung.counters : Rung → Nat × Nat × Nat × Nat
  | .direct => (1, 0, 0, 0)
  | .worker | .cf => (0, 1, 0, 0)
  | .h2 => (0, 1, 1, 0)
  | .tcp => (0, 0, 0, 1)

def RouteClient.counters (c : RouteClient) : Nat × Nat × Nat × Nat :=
  match c.stage with
  | .returned rung => rung.counters
  | _ => (0, 0, 0, 0)

/-- The counters are those of the routes that were returned. -/
structure RoutesCounted (stats : Stats) (clients : List RouteClient) : Prop where
  ws : stats.connectionsWs = tally (·.counters.1) clients
  cf : stats.connectionsCfproxy = tally (·.counters.2.1) clients
  h2 : stats.connectionsH2 = tally (·.counters.2.2.1) clients
  tcp : stats.connectionsTcpFallback = tally (·.counters.2.2.2) clients

/-- What holds in every run. -/
structure Routing.Sound (s : Routing) : Prop where
  served : ∀ c ∈ s.clients, (fallbackIp c.dc c.test).isSome = true
  knows : ∀ c ∈ s.clients, Knows s.config s.state.log c
  dials : ∀ client rung dial limit older, .dialled client rung dial limit :: older <:+ s.state.log →
    ∃ c, DialSound s.config s.clients client rung dial limit older c
  cooled : Cooled s.config s.state
  counted : RoutesCounted s.state.stats s.clients

/-- A DC that is accepted has an address. -/
theorem isSome_fallbackIp {index dc : Int} {forceTest media test : Bool}
    (h : normalizeDc index forceTest = .ok (dc, media, test)) :
    (fallbackIp dc test).isSome = true := by
  have hknown (n : Nat) (b : Bool)
      (hn : ¬(!(n ∈ [1, 2, 3, 4, 5, 203]) || (b && !(n ∈ [1, 2, 3]))) = true) :
      (fallbackIp (n : Int) b).isSome = true := by
    simp only [Bool.or_eq_true, Bool.and_eq_true, Bool.not_eq_true', decide_eq_false_iff_not,
      not_or, not_and, not_not] at hn
    obtain ⟨hmem, htest⟩ := hn
    cases b with
    | true =>
      have hmem := htest rfl
      simp only [List.mem_cons, List.not_mem_nil, or_false] at hmem
      rcases hmem with rfl | rfl | rfl <;> rfl
    | false =>
      simp only [List.mem_cons, List.not_mem_nil, or_false] at hmem
      rcases hmem with rfl | rfl | rfl | rfl | rfl | rfl <;> rfl
  unfold normalizeDc at h
  split at h
  · cases h
  · dsimp only at h
    generalize hn : (if 10000 ≤ index.natAbs then index.natAbs - 10000 else index.natAbs) = n at h
    generalize hb : (decide (10000 ≤ index.natAbs) || forceTest) = b at h
    split at h
    · cases h
    · next hdc =>
      rw [Except.ok.injEq, Prod.mk.injEq, Prod.mk.injEq] at h
      obtain ⟨rfl, -, rfl⟩ := h
      exact hknown n b hdc

/-- A client that is over takes no step. -/
theorem ended_of_stepClient {answer : RouteAnswer} {r : RouteStep}
    (hstep : stepClient cfg now client c st answer = some r) : c.stage.ended = false := by
  cases hstage : c.stage with
  | returned rung | failed error | gone =>
    cases answer <;>
      simp [stepClient, runClient, pooledClient, dialClient, expireClient, hstage,
        RouteClientStage.ended] at hstep
  | _ => rfl

private theorem counters_of_ended (h : c.stage.ended = false) : c.counters = (0, 0, 0, 0) := by
  unfold RouteClient.counters
  split
  · next rung hstage =>
    rw [hstage] at h
    cases h
  · rfl

/-- A dial among events that are none. -/
theorem suffix_of_quiet {front log older : List RouteEvent} {e : RouteEvent}
    (hfront : ∀ e ∈ front, e.isDial = false) (he : e.isDial = true)
    (h : e :: older <:+ front ++ log) : e :: older <:+ log := by
  induction front with
  | nil => exact h
  | cons first front ih =>
    rcases List.suffix_cons_iff.mp h with heq | h
    · have hfirst := hfront first (List.mem_cons_self ..)
      rw [← (List.cons.inj heq).1, he] at hfirst
      cases hfirst
    · exact ih (fun e' he' => hfront e' (List.mem_cons_of_mem _ he')) h

namespace Routing

variable {s t : Routing} {action : RoutingAction}

/-- A step lets time pass, serves a client or is a section of one. -/
theorem step_cases (h : s.step action = some t) :
    (∃ d, action = .tick d ∧ (∀ c ∈ s.clients, c.waits s.config (s.clock + d) = true) ∧
      t = { s with clock := s.clock + d }) ∨
    (∃ index, action = .connect index ∧ (t = s ∨ ∃ dc media test,
      normalizeDc index s.config.forceTestDc = .ok (dc, media, test) ∧
      t = { s with clients := s.clients ++ [{ dc, media, test, began := s.clock }] })) ∨
    ∃ i answer c r, action = .client i answer ∧ s.clients[i]? = some c ∧
      stepClient s.config s.clock i c s.state answer = some r ∧
      t = { s with state := r.1, clients := s.clients.set i { c with stage := r.2 } } := by
  cases action with
  | tick d =>
    obtain ⟨hwaits, h⟩ := Option.ite_none_right_eq_some.mp h
    exact .inl ⟨d, rfl, List.all_eq_true.mp hwaits, (Option.some.inj h).symm⟩
  | connect index =>
    refine .inr (.inl ⟨index, rfl, ?_⟩)
    unfold Routing.step at h
    dsimp only at h
    split at h
    · exact .inl (Option.some.inj h).symm
    · next dc media test hdc => exact .inr ⟨dc, media, test, hdc, (Option.some.inj h).symm⟩
  | client i answer =>
    obtain ⟨c, hc, h⟩ := Option.bind_eq_some_iff.mp h
    obtain ⟨⟨state, stage⟩, hstep, rfl⟩ := Option.map_eq_some_iff.mp h
    exact .inr (.inr ⟨i, answer, c, (state, stage), rfl, hc, hstep, rfl⟩)

/-- Time passes. -/
theorem Sound.tick (h : s.Sound) (d : Nat) : Sound { s with clock := s.clock + d } :=
  ⟨h.served, h.knows, h.dials, h.cooled, h.counted⟩

/-- A client that is served has not dialled. -/
theorem Sound.connect (h : s.Sound) {index dc : Int} {media test : Bool}
    (hdc : normalizeDc index s.config.forceTestDc = .ok (dc, media, test)) :
    Sound { s with clients := s.clients ++ [{ dc, media, test, began := s.clock }] } where
  served := List.forall_mem_append.mpr
    ⟨h.served, List.forall_mem_singleton.mpr (isSome_fallbackIp hdc)⟩
  knows := List.forall_mem_append.mpr ⟨h.knows, List.forall_mem_singleton.mpr trivial⟩
  dials client rung dial limit older hlog := by
    obtain ⟨c, hc⟩ := h.dials client rung dial limit older hlog
    have hlt := (List.getElem?_eq_some_iff.mp hc.here).1
    exact ⟨c, (List.getElem?_append_left hlt).trans hc.here, hc.allowed, hc.reached, hc.ordered⟩
  cooled := h.cooled
  counted := by
    constructor <;> rw [tally_append]
    · exact h.counted.ws
    · exact h.counted.cf
    · exact h.counted.h2
    · exact h.counted.tcp

/-- The clients behind a section of one of them. -/
theorem forall_mem_set {i : Nat} {c' : RouteClient} {P Q : RouteClient → Prop}
    (h : ∀ c ∈ s.clients, P c) (hPQ : ∀ c, P c → Q c) (hc' : Q c') :
    ∀ c ∈ s.clients.set i c', Q c := fun c hc =>
  (List.mem_or_eq_of_mem_set hc).elim (fun hc => hPQ c (h c hc)) fun hc => hc ▸ hc'

/-- A section keeps the dials to those that their clients may make. -/
theorem dials_client (h : s.Sound) {i : Nat} {c : RouteClient} {log : List RouteEvent}
    {stage : RouteClientStage} (hc : s.clients[i]? = some c)
    (hadds : Adds s.config i c stage s.state.log log) (hle : c.stage.height ≤ stage.height)
    {client : Nat} {rung : Rung} {dial : Dial} {limit : Nat} {older : List RouteEvent}
    (hlog : .dialled client rung dial limit :: older <:+ log) :
    ∃ c',
      DialSound s.config (s.clients.set i { c with stage }) client rung dial limit older c' := by
  have hself : (s.clients.set i { c with stage })[i]? = some { c with stage } :=
    List.getElem?_set_self (List.getElem?_eq_some_iff.mp hc).1
  -- a dial made before
  have hold (hlog : .dialled client rung dial limit :: older <:+ s.state.log) :
      ∃ c',
        DialSound s.config (s.clients.set i { c with stage }) client rung dial limit older c' := by
    obtain ⟨c', hc'⟩ := h.dials client rung dial limit older hlog
    by_cases hi : i = client
    · subst hi
      obtain rfl := Option.some.inj (hc.symm.trans hc'.here)
      exact ⟨_, hself, hc'.allowed, Nat.le_trans hc'.reached hle, hc'.ordered⟩
    · refine ⟨c', ?_, hc'.allowed, hc'.reached, hc'.ordered⟩
      rw [List.getElem?_set_ne hi, hc'.here]
  cases hadds with
  | quiet front hfront => exact hold (suffix_of_quiet hfront rfl hlog)
  | dial front hfront hallowed hfrom hto =>
    rcases List.suffix_cons_iff.mp hlog with heq | hlog
    · cases heq
      refine ⟨_, hself, hallowed, Nat.le_of_eq hto, fun rung' dial' limit' hmem => ?_⟩
      have hmem : .dialled i rung' dial' limit' ∈ s.state.log :=
        (List.mem_append.mp hmem).resolve_left fun hmem => by cases hfront _ hmem
      obtain ⟨newer, older', heq⟩ := List.append_of_mem hmem
      obtain ⟨c', hc'⟩ := h.dials i rung' dial' limit' older' (heq ▸ List.suffix_append ..)
      obtain rfl := Option.some.inj (hc.symm.trans hc'.here)
      exact Nat.le_trans hc'.reached hfrom
    · exact hold (suffix_of_quiet hfront rfl hlog)

/-- A route that is returned is counted. -/
theorem counted_client (h : RoutesCounted s.state.stats s.clients) {i : Nat} {c : RouteClient}
    {now client : Nat} {st' : RouteState} {stage : RouteClientStage} (hc : s.clients[i]? = some c)
    (hended : c.stage.ended = false) (hmove : RouteMove s.config now client c s.state st' stage) :
    RoutesCounted st'.stats (s.clients.set i { c with stage }) := by
  have hset (weight : Nat × Nat × Nat × Nat → Nat) (hzero : weight (0, 0, 0, 0) = 0) :
      tally (fun c => weight c.counters) (s.clients.set i { c with stage }) =
        tally (fun c => weight c.counters) s.clients +
          weight ({ c with stage } : RouteClient).counters := by
    have hset := tally_set (fun c : RouteClient => weight c.counters) hc { c with stage }
    rw [counters_of_ended hended, hzero] at hset
    exact hset
  have hws := hset (·.1) rfl
  have hcf := hset (·.2.1) rfl
  have hh2 := hset (·.2.2.1) rfl
  have htcp := hset (·.2.2.2) rfl
  obtain ⟨hsws, hscf, hsh2, hstcp⟩ := h
  rcases hmove.routes with ⟨hreturned, hroutes⟩ | ⟨rung, rfl, hroutes⟩
  · have hnone : ({ c with stage } : RouteClient).counters = (0, 0, 0, 0) := by
      unfold RouteClient.counters
      split
      · next rung hrung => exact absurd hrung (hreturned rung)
      · rfl
    simp only [hnone, Stats.routes, Prod.mk.injEq] at hws hcf hh2 htcp hroutes
    constructor <;> omega
  · have hrung : ({ c with stage := .returned rung } : RouteClient).counters = rung.counters := rfl
    rw [hrung] at hws hcf hh2 htcp
    cases rung <;>
      simp only [Rung.counters, Stats.routes, Stats.returned, Stats.ws, Stats.cf, Stats.h2,
        Stats.tcp, Prod.mk.injEq] at hws hcf hh2 htcp hroutes <;>
      constructor <;> omega

/-- One client takes a step. -/
theorem Sound.serve (h : s.Sound) {i : Nat} {answer : RouteAnswer} {c : RouteClient}
    {r : RouteStep} (hc : s.clients[i]? = some c)
    (hstep : stepClient s.config s.clock i c s.state answer = some r) :
    Sound { s with state := r.1, clients := s.clients.set i { c with stage := r.2 } } := by
  have hmem := List.mem_of_getElem? hc
  have hgoes := goes_stepClient (h.served c hmem) (h.knows c hmem) hstep
  obtain ⟨hadds, hle⟩ := hgoes.move.adds
  exact {
    served := forall_mem_set h.served (fun _ => id) (h.served c hmem)
    knows := forall_mem_set h.knows (fun _ hknows => hknows.mono hadds.subset) hgoes.knows
    dials := fun _ _ _ _ _ hlog => dials_client h hc hadds hle hlog
    cooled := hgoes.move.cooled h.cooled
    counted := counted_client h.counted hc (ended_of_stepClient hstep) hgoes.move }

/-- Every step keeps the routing sound. -/
theorem Sound.step (h : s.Sound) (hstep : s.step action = some t) : t.Sound := by
  obtain ⟨d, -, -, rfl⟩ | ⟨index, -, rfl | ⟨dc, media, test, hdc, rfl⟩⟩ |
    ⟨i, answer, c, r, -, hc, hown, rfl⟩ := step_cases hstep
  · exact h.tick d
  · exact h
  · exact h.connect hdc
  · exact h.serve hc hown

/-- Nothing is dialled or cooled down at the start. -/
theorem sound_start (h : routingSystem.start s) : s.Sound := by
  have hs : s = { config := s.config } := h
  rw [hs]
  refine ⟨List.forall_mem_nil _, List.forall_mem_nil _, ?_, ⟨fun _ => rfl, fun _ => rfl, ?_, ?_⟩,
    ⟨rfl, rfl, rfl, rfl⟩⟩
  · intro client rung dial limit older hlog
    cases List.suffix_nil.mp hlog
  · exact fun key => ⟨(fun h => by cases h), (fun h => by cases h)⟩
  · intro key ip limit time older hlog
    cases List.suffix_nil.mp hlog

/-- In every run the routing is sound. -/
theorem sound_reachable (h : routingSystem.Reachable s) : s.Sound :=
  h.invariant (fun _ => sound_start) fun _ _ _ hs hstep => hs.step hstep

/-- The clients have the time that they need. -/
theorem timely_step (h : ∀ c ∈ s.clients, Timely s.config s.clock c) (hok : ProbesBriefly s action)
    (hstep : s.step action = some t) :
    t.config = s.config ∧ ∀ c ∈ t.clients, Timely t.config t.clock c := by
  obtain ⟨d, rfl, hwaits, rfl⟩ | ⟨index, -, rfl | ⟨dc, media, test, hdc, rfl⟩⟩ |
    ⟨i, answer, c, r, -, hc, hown, rfl⟩ := step_cases hstep
  · refine ⟨rfl, fun c hc => ?_⟩
    have hnow := h c hc
    have hwait := hwaits c hc
    have hprobe := hok c hc
    unfold Timely at hnow ⊢
    unfold RouteClient.waits at hwait
    cases hstage : c.stage <;>
      simp [hstage, RouteClientStage.ended, RouteClientStage.runs,
        RouteClientStage.deadline, RouteClientStage.probing] at hnow hwait hprobe ⊢
    case workerPool target since => exact ⟨hnow.1, hprobe⟩
    all_goals exact ⟨hwait.1, hnow.2⟩
  · exact ⟨rfl, h⟩
  · exact ⟨rfl, List.forall_mem_append.mpr ⟨h, List.forall_mem_singleton.mpr (Nat.le_refl _)⟩⟩
  · exact ⟨rfl, forall_mem_set h (fun _ => id)
      (timely_stepClient (h c (List.mem_of_getElem? hc)) hown)⟩

/-- In a run whose probes are brief every client keeps its time. -/
theorem timely_within (h : routingSystem.Within ProbesBriefly s) :
    ∀ c ∈ s.clients, Timely s.config s.clock c := by
  refine h.induct (fun s hs => ?_) fun s action t hs hok hstep => (timely_step hs hok hstep).2
  have hs : s = { config := s.config } := hs
  rw [hs]
  exact List.forall_mem_nil _

end Routing

variable {s : Routing}

/-- `connect` leaves every route its whole timer, the fallback over TCP included: every route is
over before the timer of `connect`, which never fires. -/
theorem connectBudget (h : routingSystem.Within ProbesBriefly s) :
    (∀ i, s.step (.client i .expireAll) = none) ∧
      ∀ c ∈ s.clients, c.stage.ended = false →
        s.clock < c.began + seconds 60 + s.config.connectLimit ∧
        ∀ expiry, c.stage.deadline = some expiry →
          expiry < c.began + seconds 60 + s.config.connectLimit := by
  have htimely := Routing.timely_within h
  refine ⟨fun i => ?_, fun c hc hended => ⟨(htimely c hc).lt hended, fun expiry hexpiry => ?_⟩⟩
  · cases hc : s.clients[i]? with
    | none => rw [Routing.step, hc, Option.bind_none]
    | some c =>
      rw [Routing.step, hc, Option.bind_some, stepClient, if_neg, Option.map_none]
      rintro ⟨hended, hlate⟩
      rw [Bool.not_eq_true'] at hended
      exact Nat.not_lt_of_le hlate ((htimely c (List.mem_of_getElem? hc)).lt hended)
  · have htime := htimely c hc
    unfold Timely at htime
    unfold seconds at htime ⊢
    cases hstage : c.stage <;>
      simp only [hstage, RouteClientStage.deadline, Option.some.injEq,
        reduceCtorEq] at htime hexpiry <;>
      omega

/-- Fronting, and one worker. -/
def fallingConfig : Config := { sniFronting := true, cfproxyWorkerDomains := ["edge.example.dev"] }

/-- A client whose routes fail one by one, down to TCP. -/
def fallingRun : List RoutingAction := [
  .connect (-2), .client 0 (.run []), .tick (seconds 5), .client 0 (.dial (.error timedOut)),
  .client 0 (.dial (.error timedOut)), .client 0 (.run []), .client 0 (.run ["edge.example.dev"]),
  .tick (seconds 10), .client 0 (.dial (.error timedOut)), .client 0 (.run ["pool.example"]),
  .tick (seconds 8), .client 0 .expire, .client 0 (.run ["pool.example"]),
  .client 0 (.dial (.error timedOut)), .client 0 (.run [])]

private theorem start_fallingConfig : routingSystem.start { config := fallingConfig } := rfl

/-- The client that falls through every rung, and the time it has taken. -/
theorem connectBudget_falling :
    ∃ s c, routingSystem.run { config := fallingConfig } fallingRun = some s ∧ c ∈ s.clients ∧
      c.stage = .tcpDial "149.154.167.51" (seconds 33) ∧
      s.clock < c.began + seconds 60 + s.config.connectLimit := by
  obtain ⟨s, hrun, hcheck⟩ := routingSystem.exists_of_run { config := fallingConfig } fallingRun
    (fun s => s.clients.map (·.stage) = [.tcpDial "149.154.167.51" (seconds 33)])
    (by decide +kernel)
  have hwithin : routingSystem.Within ProbesBriefly s :=
    System.Within.run_of_meets (.start start_fallingConfig) (by decide +kernel) hrun
  obtain ⟨c, hc, hstage⟩ : ∃ c ∈ s.clients, c.stage = .tcpDial "149.154.167.51" (seconds 33) :=
    List.mem_map.mp (of_decide_eq_true hcheck ▸ List.mem_singleton_self _)
  exact ⟨s, c, hrun, hc, hstage, ((connectBudget hwithin).2 c hc (by rw [hstage]; rfl)).1⟩

/-- Every dial of every run: it is one that its client may make, on a route that is not before those
that the client has dialled, and not behind the one at which it is. -/
theorem routeLadder (h : routingSystem.Reachable s) {client : Nat} {rung : Rung} {dial : Dial}
    {limit : Nat} {older : List RouteEvent}
    (hlog : .dialled client rung dial limit :: older <:+ s.state.log) :
    ∃ c, s.clients[client]? = some c ∧ Allowed s.config c older limit rung dial ∧
      rung.height ≤ c.stage.height ∧
      ∀ rung' dial' limit', .dialled client rung' dial' limit' ∈ older →
        rung'.height ≤ rung.height := by
  obtain ⟨c, hc⟩ := (Routing.sound_reachable h).dials client rung dial limit older hlog
  exact ⟨c, hc.here, hc.allowed, hc.reached, hc.ordered⟩

/-- The TCP dial of the same run. -/
theorem routeLadder_falling :
    ∃ s older c, routingSystem.run { config := fallingConfig } fallingRun = some s ∧
      s.state.log = .dialled 0 .tcp (.tcp "149.154.167.51") (seconds 10) :: older ∧
      s.clients[0]? = some c ∧ 4 ≤ c.stage.height := by
  obtain ⟨s, hrun, hcheck⟩ := routingSystem.exists_of_run { config := fallingConfig } fallingRun
    (fun s => s.state.log.head? = some (.dialled 0 .tcp (.tcp "149.154.167.51") (seconds 10)))
    (by decide +kernel)
  obtain ⟨older, hlog⟩ := List.head?_eq_some_iff.mp (of_decide_eq_true hcheck)
  have hsuffix : .dialled 0 .tcp (.tcp "149.154.167.51") (seconds 10) :: older <:+ s.state.log :=
    hlog ▸ List.suffix_refl _
  obtain ⟨c, hc, -, hheight, -⟩ :=
    routeLadder (System.Reachable.run (.start start_fallingConfig) hrun) hsuffix
  exact ⟨s, older, c, hrun, hlog, hc, hheight⟩

/-- Every loop of `direct_route` begins where the failures before it let it. -/
theorem directCooldown (h : routingSystem.Reachable s) {key : RouteKey} {ip : String}
    {limit time : Nat} {older : List RouteEvent}
    (hlog : .round key ip limit time :: older <:+ s.state.log) :
    RoundAllowed s.config key ip limit time older :=
  (Routing.sound_reachable h).cooled.rounds key ip limit time older hlog

/-- The address of the falling client is dialled again an hour after it has timed out. -/
def restingRun : List RoutingAction :=
  fallingRun ++ [.client 0 (.dial (.ok ())), .tick (seconds 3582), .connect 2, .client 1 (.run [])]

/-- The loop an hour after the time-out, with its five seconds. -/
theorem directCooldown_falling :
    ∃ s dial older, routingSystem.run { config := fallingConfig } restingRun = some s ∧
      s.state.log = dial ::
        .round (2, false, false) "149.154.167.220" (seconds 5) (seconds 3605) :: older ∧
      lastTimeOut "149.154.167.220" older = some (seconds 5) ∧
      .redirected (2, false, false) ∉ older := by
  obtain ⟨s, hrun, hcheck⟩ := routingSystem.exists_of_run { config := fallingConfig } restingRun
    (fun s => s.state.log.tail.head? =
        some (.round (2, false, false) "149.154.167.220" (seconds 5) (seconds 3605)) ∧
      lastTimeOut "149.154.167.220" s.state.log.tail.tail = some (seconds 5)) (by decide +kernel)
  obtain ⟨hround, hlast⟩ := of_decide_eq_true hcheck
  obtain ⟨dial, newer, hlog⟩ : ∃ dial newer, s.state.log = dial :: newer := by
    cases hlog : s.state.log with
    | nil => simp [hlog] at hround
    | cons dial newer => exact ⟨dial, newer, rfl⟩
  rw [hlog, List.tail_cons] at hround hlast
  obtain ⟨older, rfl⟩ := List.head?_eq_some_iff.mp hround
  have hsound := directCooldown (System.Reachable.run (.start start_fallingConfig) hrun)
    (hlog ▸ List.suffix_cons dial _)
  exact ⟨s, dial, older, hrun, hlog, hlast, hsound.redirects⟩

/-- The counters tell the routes that `connect` has returned. -/
theorem routeCounters (h : routingSystem.Reachable s) : RoutesCounted s.state.stats s.clients :=
  (Routing.sound_reachable h).counted

/-- The counters of the same run. -/
theorem routeCounters_falling :
    ∃ s, routingSystem.run { config := fallingConfig } restingRun = some s ∧
      1 = tally (·.counters.2.2.2) s.clients := by
  obtain ⟨s, hrun, hcheck⟩ := routingSystem.exists_of_run { config := fallingConfig } restingRun
    (fun s => s.state.stats.connectionsTcpFallback = 1) (by decide +kernel)
  have hcounted := routeCounters (System.Reachable.run (.start start_fallingConfig) hrun)
  exact ⟨s, hrun, of_decide_eq_true hcheck ▸ hcounted.tcp⟩

end TgWsProxy
