import Mathlib.Tactic.MkIffOfInductiveProp
import TgWsProxy.Upstream.Routing

/-!
# The moves of a client

What a client may dial where it is, and how it moves from one route to the next: each only where it
may be and with the certificate checks that it needs.
-/

namespace TgWsProxy

open TgWsProxy.Core

/-! ## What may be dialled -/

/-- How far a client has got. -/
def RouteClientStage.height : RouteClientStage → Nat
  | .entered | .directPool .. | .directDial .. => 0
  | .fallbacks | .workerPool .. | .workers _ | .workerDial .. => 1
  | .cloudflare _ | .h2Dial .. => 2
  | .domains _ | .cfDial .. => 3
  | .tcp _ | .tcpDial .. | .failed _ | .gone => 4
  | .returned rung => rung.height

/-- A dial of a client on a route, with its limit, behind this log. -/
def Allowed (cfg : Config) (c : RouteClient) (log : List RouteEvent) (limit : Nat) :
    Rung → Dial → Prop
  -- only a configured address is dialled without a check of its certificate
  | .direct, .ws r => cfg.poolSize = 0 ∧ cfg.dcRedirects[c.dc]? = some r.host ∧
      r.domain ∈ wsDomains c.dc c.media ∧
      (r.sni = r.domain ∨ cfg.sniFronting = true ∧ r.sni = "sprinthost.ru") ∧
      r.path = wsPath c.test ∧ r.direct = true ∧ r.secure = true ∧
      ∃ time, .round c.key r.host limit time ∈ log
  | .worker, .ws r => r.host ∈ cfg.cfproxyWorkerDomains ∧ r.domain = r.host ∧ r.sni = r.host ∧
      (∃ target, fallbackIp c.dc c.test = some target ∧ r.path = workerPath c.dc target) ∧
      r.direct = false ∧ r.secure = !cfg.disableSecure
  | .h2, .h2 host => c.test = false ∧ c.media = true ∧ cfg.h2Enabled = true ∧
      ∃ base : String, host = s!"kws{c.dc}.{base}"
  | .cf, .ws r =>
    c.test = false ∧ cfg.cfproxy = true ∧ (∃ base : String, r.host = s!"kws{c.dc}.{base}") ∧
      r.domain = r.host ∧ r.sni = r.host ∧ r.path = "/apiws" ∧ r.direct = false ∧
      r.secure = !cfg.disableSecure
  | .tcp, .tcp ip => fallbackIp c.dc c.test = some ip
  | _, _ => False

/-- What is known of a client by its stage. -/
def Knows (cfg : Config) (log : List RouteEvent) (c : RouteClient) : Prop :=
  match c.stage with
  | .entered | .fallbacks | .failed _ | .gone => True
  | .directPool ip _ => cfg.dcRedirects[c.dc]? = some ip
  | .directDial _ dial => cfg.poolSize = 0 ∧ cfg.dcRedirects[c.dc]? = some dial.ip ∧
      dial.domain ∈ wsDomains c.dc c.media ∧ dial.rest ⊆ wsDomains c.dc c.media ∧
      (∀ kind, dial.fronted = some kind → dial.allRedirects = false) ∧
      ∃ time, .round c.key dial.ip dial.limit time ∈ log
  | .workerPool target _ => fallbackIp c.dc c.test = some target ∧ c.test = false
  | .workers target | .cloudflare target | .tcp target | .tcpDial target _ =>
    fallbackIp c.dc c.test = some target
  | .workerDial target _ rest =>
    fallbackIp c.dc c.test = some target ∧ rest ⊆ cfg.cfproxyWorkerDomains
  | .h2Dial target _ _ => fallbackIp c.dc c.test = some target ∧ c.test = false ∧ c.media = true ∧
      cfg.h2Enabled = true
  | .domains target | .cfDial target _ _ =>
    fallbackIp c.dc c.test = some target ∧ c.test = false ∧ cfg.cfproxy = true
  | .returned .h2 => c.test = false ∧ c.media = true ∧ cfg.h2Enabled = true
  | .returned .cf => c.test = false ∧ cfg.cfproxy = true
  | .returned _ => True

/-! ## The time that is left -/

/-- The routes before have taken no more than their timers. -/
def Timely (cfg : Config) (now : Nat) (c : RouteClient) : Prop :=
  match c.stage with
  | .entered => now ≤ c.began
  | .directPool _ expiry | .directDial expiry _ => now ≤ expiry ∧ expiry ≤ c.began + seconds 15
  | .fallbacks => now ≤ c.began + seconds 15
  | .workerPool _ since => since ≤ c.began + seconds 15 ∧ now < since + seconds 7
  | .workers _ => now < c.began + seconds 22
  | .workerDial _ expiry _ => now ≤ expiry ∧ expiry < c.began + seconds 37
  | .cloudflare _ => now < c.began + seconds 37
  | .h2Dial _ expiry _ => now ≤ expiry ∧ expiry < c.began + seconds 45
  | .domains _ => now < c.began + seconds 45
  | .cfDial _ expiry _ => now ≤ expiry ∧ expiry < c.began + seconds 60
  | .tcp _ => now < c.began + seconds 60
  | .tcpDial _ expiry => now ≤ expiry ∧ expiry < c.began + seconds 60 + cfg.connectLimit
  | .returned _ | .failed _ | .gone => True

variable {cfg : Config} {now client : Nat} {c : RouteClient} {st st' : RouteState}
  {stage : RouteClientStage}

/-- The timer of `connect` is not over. -/
theorem Timely.lt (h : Timely cfg now c) (hended : c.stage.ended = false) :
    now < c.began + seconds 60 + cfg.connectLimit := by
  unfold Timely at h
  unfold seconds at h ⊢
  cases hstage : c.stage <;> simp only [hstage] at h hended <;>
    first
    | omega
    | cases hended

/-! ## Moves -/

/-- The counters of the routes that were returned. -/
def Stats.routes (s : Stats) : Nat × Nat × Nat × Nat :=
  (s.connectionsWs, s.connectionsCfproxy, s.connectionsH2, s.connectionsTcpFallback)

/-- Behind the return of a route. -/
def Stats.returned (s : Stats) : Rung → Stats
  | .direct => s.ws
  | .worker | .cf => s.cf
  | .h2 => s.cf.h2
  | .tcp => s.tcp

/-- The same log, cool-downs and routes. -/
structure RouteState.Alike (st st' : RouteState) : Prop where
  log : st'.log = st.log
  blacklisted : st'.blacklisted = st.blacklisted
  failedDc : st'.failedDc = st.failedDc
  failedIp : st'.failedIp = st.failedIp
  routes : st'.stats.routes = st.stats.routes

/-- A state is like itself. -/
theorem RouteState.Alike.refl (st : RouteState) : st.Alike st := ⟨rfl, rfl, rfl, rfl, rfl⟩

/-- What a section of a client can be. -/
inductive RouteMove (cfg : Config) (now client : Nat) (c : RouteClient) (st st' : RouteState) :
    RouteClientStage → Prop
  | pass {stage : RouteClientStage} (hsame : st.Alike st') (hheight : c.stage.height ≤ stage.height)
    (hreturned : ∀ rung, stage ≠ .returned rung) :
    RouteMove cfg now client c st st' stage
  /-- The loop of `direct_route` begins. -/
  | round {ip : String} {limit : Nat} {dial : Dial} {stage : RouteClientStage}
    (hentered : c.stage = .entered)
    (hsame : RouteState.Alike ({ st with log := .round c.key ip limit now :: st.log }.dial client
      .direct dial limit) st')
    (hblacklisted : st.blacklisted c.key = false)
    (hip : cfg.hasCf c.test = true → ∀ until_, st.failedIp ip = some until_ → until_ ≤ now)
    (hlimit : limit =
      min cfg.connectLimit (seconds (if (st.failedDc c.key).any (now < ·) then 2 else 5)))
    (hallowed : Allowed cfg c (.round c.key ip limit now :: st.log) limit .direct dial)
    (hstage : stage.height = 0) (hreturned : ∀ rung, stage ≠ .returned rung) :
    RouteMove cfg now client c st st' stage
  | dial {rung : Rung} {dial : Dial} {limit : Nat} {st₁ : RouteState} {stage : RouteClientStage}
    (hbefore : st.Alike st₁) (hsame : (st₁.dial client rung dial limit).Alike st')
    (hallowed : Allowed cfg c st.log limit rung dial) (hheight : c.stage.height ≤ rung.height)
    (hstage : stage.height = rung.height) (hreturned : ∀ rung, stage ≠ .returned rung) :
    RouteMove cfg now client c st st' stage
  /-- The loop of `direct_route` is over. -/
  | exhaust (allRedirects : Bool) {st₁ : RouteState} (hbefore : st.Alike st₁)
    (hheight : c.stage.height = 0) (hsame : (st₁.exhaust c.key allRedirects now).Alike st') :
    RouteMove cfg now client c st st' .fallbacks
  /-- It is left behind a dial that has timed out. -/
  | timeOut (ip : String) {st₁ : RouteState} (hbefore : st.Alike st₁) (hheight : c.stage.height = 0)
    (hsame : ((st₁.failIp ip now).exhaust c.key false now).Alike st') :
    RouteMove cfg now client c st st' .fallbacks
  | reach (ip : String) {st₁ : RouteState} (hbefore : st.Alike st₁) (hheight : c.stage.height = 0)
    (hsame : ((st₁.directSuccess c.key ip).count .ws).Alike st') :
    RouteMove cfg now client c st st' (.returned .direct)
  | back (rung : Rung) {st₁ : RouteState} (hbefore : st.Alike st₁)
    (hheight : c.stage.height = rung.height)
    (hsame : (st₁.count (·.returned rung)).Alike st') :
    RouteMove cfg now client c st st' (.returned rung)

/-- A section is such a move, and leaves what is known of its client. -/
structure Goes (cfg : Config) (now client : Nat) (c : RouteClient) (st : RouteState)
    (r : RouteStep) :
    Prop where
  move : RouteMove cfg now client c st r.1 r.2
  knows : Knows cfg r.1.log { c with stage := r.2 }

variable {ip target : String} {limit expiry : Nat} {allRedirects : Bool} {st₁ : RouteState}
  {names : List String}

/-- The loop of `direct_route` goes on. -/
theorem goes_directNext (hstage : c.stage.height = 0) (hbefore : st.Alike st₁)
    (hpool : cfg.poolSize = 0) (hip : cfg.dcRedirects[c.dc]? = some ip)
    (hround : ∃ time, .round c.key ip limit time ∈ st.log)
    (hnames : names ⊆ wsDomains c.dc c.media) :
    Goes cfg now client c st (directNext now client c st₁ expiry ip limit allRedirects names) := by
  cases names with
  | nil => exact ⟨.exhaust allRedirects hbefore hstage (.refl _), trivial⟩
  | cons domain rest =>
    have hdomain : domain ∈ wsDomains c.dc c.media := hnames (List.mem_cons_self ..)
    refine ⟨.dial hbefore (.refl _) ?_ (Nat.le_of_eq hstage) rfl (fun rung h => by cases h), ?_⟩
    · exact ⟨hpool, hip, hdomain, .inl rfl, rfl, rfl, rfl, hround⟩
    · obtain ⟨time, htime⟩ := hround
      refine ⟨hpool, hip, hdomain, fun name hname => hnames (List.mem_cons_of_mem _ hname),
        (fun kind h => by cases h), time, ?_⟩
      exact List.mem_cons_of_mem _ (hbefore.log ▸ htime)

private theorem wsDomains_eq_cons (dc : Int) (media : Bool) :
    ∃ domain rest, wsDomains dc media = domain :: rest := by
  cases media <;> exact ⟨_, _, rfl⟩

/-- Where the direct route begins. -/
theorem goes_directRoute (hstage : c.stage = .entered) :
    Goes cfg now client c st (directRoute cfg now client c st) := by
  have hskip : Goes cfg now client c st (st, .fallbacks) :=
    ⟨.pass (.refl st) (by rw [hstage]; exact Nat.zero_le _) (fun rung h => by cases h), trivial⟩
  rw [directRoute]
  split
  · exact hskip
  · next ip hip =>
    split
    · refine ⟨.pass (.refl st) (by rw [hstage]; exact Nat.zero_le _) (fun rung h => by cases h), ?_⟩
      exact hip
    · next hpool =>
      have hpool : cfg.poolSize = 0 := by
        rw [UInt64.lt_iff_toNat_lt] at hpool
        exact UInt64.toNat.inj (Nat.le_zero.mp (Nat.le_of_not_lt hpool))
      split
      · exact hskip
      · next hblacklisted =>
        split
        · exact hskip
        · next hcool =>
          rw [Bool.not_eq_true] at hblacklisted
          obtain ⟨domain, rest, hdomains⟩ := wsDomains_eq_cons c.dc c.media
          rw [hdomains]
          refine ⟨.round hstage (.refl _) hblacklisted (fun hcf expiry hexpiry => ?_) rfl ?_ rfl
            (fun rung h => by cases h), ?_⟩
          · simpa [hcf, hexpiry] using hcool
          · refine ⟨hpool, hip, ?_, .inl rfl, rfl, rfl, rfl, now, List.mem_cons_self ..⟩
            rw [hdomains]
            exact List.mem_cons_self ..
          · refine ⟨hpool, hip, ?_, ?_, (fun kind h => by cases h), now,
              List.mem_cons_of_mem _ (List.mem_cons_self ..)⟩
            · rw [hdomains]
              exact List.mem_cons_self ..
            · rw [hdomains]
              exact fun name hname => List.mem_cons_of_mem _ hname

/-- A counter that tells no route. -/
theorem alike_count {f : Stats → Stats} (hf : (f st.stats).routes = st.stats.routes) :
    st.Alike (st.count f) := ⟨rfl, rfl, rfl, rfl, hf⟩

/-- The answer to a direct dial. -/
theorem goes_directAnswer {dial : DirectDial} (hstage : c.stage = .directDial expiry dial)
    (hknows : Knows cfg st.log c) (result : Except WsError Unit) :
    Goes cfg now client c st (directAnswer cfg now client c st expiry dial result) := by
  have hheight : c.stage.height = 0 := by rw [hstage]; rfl
  simp only [Knows, hstage] at hknows
  obtain ⟨hpool, hip, hdomain, hrest, hfronted, hround⟩ := hknows
  have hcount : st.Alike (st.count .wsError) := alike_count rfl
  unfold directAnswer
  cases result with
  | ok _ =>
    refine ⟨.reach dial.ip (.refl st) hheight ?_, trivial⟩
    dsimp only
    split <;> exact ⟨rfl, rfl, rfl, rfl, rfl⟩
  | error e =>
    dsimp only
    split
    · next kind hkind =>
      split
      · rw [hfronted kind hkind]
        exact ⟨.timeOut dial.ip (.refl st) hheight (.refl _), trivial⟩
      · exact goes_directNext hheight (.refl st) hpool hip hround hrest
    · split
      · exact goes_directNext hheight hcount hpool hip hround hrest
      · split
        · next hfront =>
          rw [Bool.and_eq_true] at hfront
          refine ⟨.dial hcount (.refl _) ?_ (Nat.le_of_eq hheight) rfl
            (fun rung h => by cases h), ?_⟩
          · exact ⟨hpool, hip, hdomain, .inr ⟨hfront.1, rfl⟩, rfl, rfl, rfl, hround⟩
          · obtain ⟨time, htime⟩ := hround
            refine ⟨hpool, hip, hdomain, hrest, fun kind _ => rfl, time, ?_⟩
            exact List.mem_cons_of_mem _ htime
        · split
          · exact ⟨.timeOut dial.ip hcount hheight (.refl _), trivial⟩
          · exact goes_directNext hheight hcount hpool hip hround hrest

/-- The fallbacks begin. -/
theorem goes_fallbackRoutes (hstage : c.stage = .fallbacks)
    (hserved : (fallbackIp c.dc c.test).isSome = true) :
    Goes cfg now client c st (fallbackRoutes cfg now c st) := by
  obtain ⟨target, htarget⟩ := Option.isSome_iff_exists.mp hserved
  have hpass {stage : RouteClientStage} (h : 1 ≤ stage.height)
      (hr : ∀ rung, stage ≠ .returned rung) :
      RouteMove cfg now client c st st stage := .pass (.refl st) (by rw [hstage]; exact h) hr
  simp only [fallbackRoutes, htarget]
  split
  · exact ⟨hpass (Nat.le_succ 1) (fun rung h => by cases h), htarget⟩
  · split
    · next htest =>
      rw [Bool.and_eq_true, Bool.not_eq_true'] at htest
      exact ⟨hpass (Nat.le_refl 1) (fun rung h => by cases h), htarget, htest.1⟩
    · exact ⟨hpass (Nat.le_refl 1) (fun rung h => by cases h), htarget⟩

/-- The next worker, or the rung behind the workers. -/
theorem goes_workerNext (hheight : c.stage.height = 1) (hbefore : st.Alike st₁)
    (htarget : fallbackIp c.dc c.test = some target) (hnames : names ⊆ cfg.cfproxyWorkerDomains) :
    Goes cfg now client c st (workerNext cfg client c st₁ target expiry names) := by
  cases names with
  | nil =>
    exact ⟨.pass hbefore (by rw [hheight]; exact Nat.le_succ 1) (fun rung h => by cases h), htarget⟩
  | cons domain rest =>
    refine ⟨.dial hbefore (.refl _) ?_ (Nat.le_of_eq hheight) rfl (fun rung h => by cases h), ?_⟩
    · exact ⟨hnames (List.mem_cons_self ..), rfl, rfl, ⟨target, htarget, rfl⟩, rfl, rfl⟩
    · exact ⟨htarget, fun name hname => hnames (List.mem_cons_of_mem _ hname)⟩

/-- The next domain under HTTP/2, or the rung behind it. -/
theorem goes_h2Next (hheight : c.stage.height = 2) (hbefore : st.Alike st₁)
    (htarget : fallbackIp c.dc c.test = some target) (htest : c.test = false)
    (hmedia : c.media = true) (hh2 : cfg.h2Enabled = true) :
    Goes cfg now client c st (h2Next now client c st₁ target expiry names) := by
  cases names with
  | nil =>
    refine ⟨.pass ?_ (by rw [hheight]; exact Nat.le_succ 2) (fun rung h => by cases h), ?_⟩
    · exact ⟨hbefore.log, hbefore.blacklisted, hbefore.failedDc, hbefore.failedIp, hbefore.routes⟩
    · refine ⟨htarget, htest, ?_⟩
      simp only [Config.h2Enabled, Bool.and_eq_true] at hh2
      exact hh2.1.1.2
  | cons base rest =>
    refine ⟨.dial hbefore (.refl _) ?_ (Nat.le_of_eq hheight) rfl (fun rung h => by cases h), ?_⟩
    · exact ⟨htest, hmedia, hh2, base, rfl⟩
    · exact ⟨htarget, htest, hmedia, hh2⟩

/-- Where the Cloudflare route begins. -/
theorem goes_cloudflareRoute (hstage : c.stage = .cloudflare target) (hknows : Knows cfg st.log c) :
    Goes cfg now client c st (cloudflareRoute cfg now client c st target names) := by
  have hheight : c.stage.height = 2 := by rw [hstage]; rfl
  simp only [Knows, hstage] at hknows
  unfold cloudflareRoute
  split
  · refine ⟨.pass (.refl st) ?_ (fun rung h => by cases h), hknows⟩
    rw [hheight]
    exact Nat.le_add_left 2 2
  · next hcf =>
    rw [Bool.or_eq_true, Bool.not_eq_true', not_or, Bool.not_eq_false, Bool.not_eq_true] at hcf
    have hskip : Goes cfg now client c st (st, .domains target) :=
      ⟨.pass (.refl st) (by rw [hheight]; exact Nat.le_succ 2) (fun rung h => by cases h),
        hknows, hcf.2, hcf.1⟩
    split
    · exact hskip
    · next hh2 =>
      rw [Bool.not_eq_true', Bool.not_eq_false, Bool.and_eq_true] at hh2
      split
      · exact hskip
      · exact goes_h2Next hheight ⟨rfl, rfl, rfl, rfl, rfl⟩ hknows hcf.2 hh2.1 hh2.2

/-- The next domain of Cloudflare, or the rung behind it. -/
theorem goes_cfNext (hheight : c.stage.height = 3) (hbefore : st.Alike st₁)
    (htarget : fallbackIp c.dc c.test = some target) (htest : c.test = false)
    (hcf : cfg.cfproxy = true) :
    Goes cfg now client c st (cfNext cfg client c st₁ target expiry names) := by
  cases names with
  | nil =>
    exact ⟨.pass hbefore (by rw [hheight]; exact Nat.le_succ 3) (fun rung h => by cases h), htarget⟩
  | cons base rest =>
    refine ⟨.dial hbefore (.refl _) ?_ (Nat.le_of_eq hheight) rfl (fun rung h => by cases h), ?_⟩
    · exact ⟨htest, hcf, ⟨base, rfl⟩, rfl, rfl, rfl, rfl, rfl⟩
    · exact ⟨htarget, htest, hcf⟩

/-- Where the TCP route begins. -/
theorem goes_tcpRoute (hstage : c.stage = .tcp target) (hknows : Knows cfg st.log c) :
    Goes cfg now client c st (tcpRoute cfg now client st target) := by
  have hheight : c.stage.height = 4 := by rw [hstage]; rfl
  simp only [Knows, hstage] at hknows
  unfold tcpRoute
  split
  · exact ⟨.pass (.refl st) (Nat.le_of_eq hheight) (fun rung h => by cases h), trivial⟩
  · next tcp _ =>
    have hbefore : st.Alike { st with tcp } := ⟨rfl, rfl, rfl, rfl, rfl⟩
    have hallowed : Allowed cfg c st.log cfg.connectLimit .tcp (.tcp target) := hknows
    exact ⟨.dial hbefore (.refl _) hallowed (Nat.le_of_eq hheight) rfl (fun rung h => by cases h),
      hknows⟩

/-- The answer to a TCP dial. -/
theorem goes_tcpAnswer (hheight : c.stage.height = 4) (result : Except WsError Unit) :
    Goes cfg now client c st (tcpAnswer now st target result) := by
  cases result with
  | ok _ => exact ⟨.back .tcp (.refl st) hheight ⟨rfl, rfl, rfl, rfl, rfl⟩, trivial⟩
  | error e =>
    exact ⟨.pass ⟨rfl, rfl, rfl, rfl, rfl⟩ (Nat.le_of_eq hheight) (fun rung h => by cases h),
      trivial⟩

/-- One section of a client. -/
theorem goes_stepClient (hserved : (fallbackIp c.dc c.test).isSome = true)
    (hknows : Knows cfg st.log c) {answer : RouteAnswer} {r : RouteStep}
    (hstep : stepClient cfg now client c st answer = some r) : Goes cfg now client c st r := by
  have hdrop {stage : RouteClientStage} (h : stage.height = 4)
      (hr : ∀ rung, stage ≠ .returned rung) (hk : ∀ log, Knows cfg log { c with stage }) :
      Goes cfg now client c st (dropClient c st stage) := by
    have hle : c.stage.height ≤ stage.height := by
      rw [h]
      cases c.stage with
      | returned rung => cases rung <;> exact Nat.le_of_ble_eq_true rfl
      | _ => exact Nat.le_of_ble_eq_true rfl
    unfold dropClient
    split
    · exact ⟨.pass ⟨rfl, rfl, rfl, rfl, rfl⟩ hle hr, hk _⟩
    · exact ⟨.pass (.refl st) hle hr, hk _⟩
  cases answer with
  | run names =>
    unfold stepClient runClient at hstep
    cases hstage : c.stage <;> simp only [hstage, Option.some.injEq, reduceCtorEq] at hstep
    case entered => exact hstep ▸ goes_directRoute hstage
    case fallbacks => exact hstep ▸ goes_fallbackRoutes hstage hserved
    case workers target =>
      obtain ⟨hperm, hstep⟩ := Option.ite_none_right_eq_some.mp hstep
      obtain rfl := Option.some.inj hstep
      simp only [Knows, hstage] at hknows
      exact goes_workerNext (by rw [hstage]; rfl) (.refl st) hknows hperm.subset
    case cloudflare target => exact hstep ▸ goes_cloudflareRoute hstage hknows
    case domains target =>
      simp only [Knows, hstage] at hknows
      exact hstep ▸ goes_cfNext (by rw [hstage]; rfl) (.refl st) hknows.1 hknows.2.1 hknows.2.2
    case tcp target => exact hstep ▸ goes_tcpRoute hstage hknows
  | pooled hit =>
    unfold stepClient pooledClient at hstep
    cases hstage : c.stage <;> simp only [hstage, Option.some.injEq, reduceCtorEq] at hstep
    case directPool ip expiry =>
      subst hstep
      cases hit with
      | true =>
        refine ⟨.reach ip (alike_count rfl : st.Alike (st.count .poolHit)) (by rw [hstage]; rfl)
          (.refl _), trivial⟩
      | false =>
        refine ⟨.pass (alike_count rfl) (by rw [hstage]; exact Nat.zero_le _)
          (fun rung h => by cases h), trivial⟩
    case workerPool target since =>
      simp only [Knows, hstage] at hknows
      subst hstep
      cases hit with
      | true =>
        exact ⟨.back .worker (alike_count rfl : st.Alike (st.count .poolHit)) (by rw [hstage]; rfl)
          (.refl _), trivial⟩
      | false =>
        exact ⟨.pass (alike_count rfl) (by rw [hstage]; exact Nat.le_refl 1)
          (fun rung h => by cases h), hknows.1⟩
  | dial result =>
    unfold stepClient dialClient at hstep
    cases hstage : c.stage <;> simp only [hstage, Option.some.injEq, reduceCtorEq] at hstep
    case directDial expiry dial => exact hstep ▸ goes_directAnswer hstage hknows result
    case tcpDial target expiry => exact hstep ▸ goes_tcpAnswer (by rw [hstage]; rfl) result
    case workerDial target expiry rest =>
      simp only [Knows, hstage] at hknows
      have hheight : c.stage.height = 1 := by rw [hstage]; rfl
      subst hstep
      cases result with
      | ok _ => exact ⟨.back .worker (.refl st) hheight (.refl _), trivial⟩
      | error e => exact goes_workerNext hheight (alike_count rfl) hknows.1 hknows.2
    case h2Dial target expiry rest =>
      simp only [Knows, hstage] at hknows
      have hheight : c.stage.height = 2 := by rw [hstage]; rfl
      obtain ⟨htarget, htest, hmedia, hh2⟩ := hknows
      subst hstep
      cases result with
      | ok _ => exact ⟨.back .h2 (.refl st) hheight (.refl _), htest, hmedia, hh2⟩
      | error e => exact goes_h2Next hheight (.refl st) htarget htest hmedia hh2
    case cfDial target expiry rest =>
      simp only [Knows, hstage] at hknows
      have hheight : c.stage.height = 3 := by rw [hstage]; rfl
      obtain ⟨htarget, htest, hcf⟩ := hknows
      subst hstep
      cases result with
      | ok _ => exact ⟨.back .cf (.refl st) hheight (.refl _), htest, hcf⟩
      | error e => exact goes_cfNext hheight (alike_count rfl) htarget htest hcf
  | expire =>
    unfold stepClient expireClient at hstep
    cases hstage : c.stage <;>
      simp only [hstage, Option.ite_none_right_eq_some, Option.some.injEq, reduceCtorEq] at hstep
    case directPool ip expiry | directDial expiry dial =>
      rw [← hstep.2]
      exact ⟨.pass (.refl st) (by rw [hstage]; exact Nat.zero_le _) (fun rung h => by cases h),
        trivial⟩
    case workerDial target expiry rest =>
      simp only [Knows, hstage] at hknows
      rw [← hstep.2]
      exact ⟨.pass (.refl st) (by rw [hstage]; exact Nat.le_succ 1) (fun rung h => by cases h),
        hknows.1⟩
    case h2Dial target expiry rest =>
      simp only [Knows, hstage] at hknows
      rw [← hstep.2]
      have hcf := hknows.2.2.2
      simp only [Config.h2Enabled, Bool.and_eq_true] at hcf
      exact ⟨.pass ⟨rfl, rfl, rfl, rfl, rfl⟩ (by rw [hstage]; exact Nat.le_succ 2)
        (fun rung h => by cases h), hknows.1, hknows.2.1, hcf.1.1.2⟩
    case cfDial target expiry rest =>
      simp only [Knows, hstage] at hknows
      rw [← hstep.2]
      exact ⟨.pass (.refl st) (by rw [hstage]; exact Nat.le_succ 3) (fun rung h => by cases h),
        hknows.1⟩
    case tcpDial target expiry =>
      rw [← hstep.2]
      exact goes_tcpAnswer (by rw [hstage]; rfl) _
  | expireAll =>
    obtain ⟨-, hstep⟩ := Option.ite_none_right_eq_some.mp hstep
    rw [← Option.some.inj hstep]
    exact hdrop rfl (fun rung h => by cases h) (fun log => trivial)
  | cancel =>
    obtain ⟨-, hstep⟩ := Option.ite_none_left_eq_some.mp hstep
    rw [← Option.some.inj hstep]
    exact hdrop rfl (fun rung h => by cases h) (fun log => trivial)

end TgWsProxy
