import TgWsProxy.Upstream.RouteMoves

/-!
# The timers of the routes

A client is done with every route before the time that is left to it, so long as it gets on.
-/

namespace TgWsProxy

open TgWsProxy.Core

variable {cfg : Config} {now client : Nat} {c : RouteClient} {st : RouteState}
  {ip target : String} {limit expiry : Nat} {allRedirects : Bool} {names : List String}

/-- The next direct dial is in time. -/
theorem timely_directNext (hnow : now ≤ expiry) (hexpiry : expiry ≤ c.began + seconds 15) :
    Timely cfg now
      { c with stage := (directNext now client c st expiry ip limit allRedirects names).2 } := by
  cases names with
  | nil => exact Nat.le_trans hnow hexpiry
  | cons domain rest => exact ⟨hnow, hexpiry⟩

/-- The next worker is. -/
theorem timely_workerNext (hnow : now ≤ expiry) (hexpiry : expiry < c.began + seconds 37) :
    Timely cfg now { c with stage := (workerNext cfg client c st target expiry names).2 } := by
  cases names with
  | nil => exact Nat.lt_of_le_of_lt hnow hexpiry
  | cons domain rest => exact ⟨hnow, hexpiry⟩

/-- The next domain under HTTP/2 is. -/
theorem timely_h2Next (hnow : now ≤ expiry) (hexpiry : expiry < c.began + seconds 45) :
    Timely cfg now { c with stage := (h2Next now client c st target expiry names).2 } := by
  cases names with
  | nil => exact Nat.lt_of_le_of_lt hnow hexpiry
  | cons base rest => exact ⟨hnow, hexpiry⟩

/-- The next domain of Cloudflare is. -/
theorem timely_cfNext (hnow : now ≤ expiry) (hexpiry : expiry < c.began + seconds 60) :
    Timely cfg now { c with stage := (cfNext cfg client c st target expiry names).2 } := by
  cases names with
  | nil => exact Nat.lt_of_le_of_lt hnow hexpiry
  | cons base rest => exact ⟨hnow, hexpiry⟩

/-- The direct route begins in time. -/
theorem timely_directRoute (h : now ≤ c.began) :
    Timely cfg now { c with stage := (directRoute cfg now client c st).2 } := by
  have hlate : now + seconds 15 ≤ c.began + seconds 15 := Nat.add_le_add_right h _
  have hskip : Timely cfg now { c with stage := .fallbacks } :=
    Nat.le_trans (Nat.le_add_right ..) hlate
  unfold directRoute
  split
  · exact hskip
  · split
    · exact ⟨Nat.le_add_right .., hlate⟩
    · split
      · exact hskip
      · split
        · exact hskip
        · exact timely_directNext (Nat.le_add_right ..) hlate

/-- What follows a direct dial is in time. -/
theorem timely_directAnswer {dial : DirectDial} (hnow : now ≤ expiry)
    (hexpiry : expiry ≤ c.began + seconds 15) (result : Except WsError Unit) :
    Timely cfg now
      { c with stage := (directAnswer cfg now client c st expiry dial result).2 } := by
  have hskip : Timely cfg now { c with stage := .fallbacks } := Nat.le_trans hnow hexpiry
  unfold directAnswer
  cases result with
  | ok _ => trivial
  | error e =>
    dsimp only
    split
    · split
      · exact hskip
      · exact timely_directNext hnow hexpiry
    · split
      · exact timely_directNext hnow hexpiry
      · split
        · exact ⟨hnow, hexpiry⟩
        · split
          · exact hskip
          · exact timely_directNext hnow hexpiry

/-- The fallbacks begin in time. -/
theorem timely_fallbackRoutes (h : now ≤ c.began + seconds 15) :
    Timely cfg now { c with stage := (fallbackRoutes cfg now c st).2 } := by
  unfold fallbackRoutes
  split
  · trivial
  · split
    · show now < c.began + seconds 37
      unfold seconds at *
      omega
    · split
      · exact ⟨h, Nat.lt_add_of_pos_right (by decide)⟩
      · show now < c.began + seconds 22
        unfold seconds at *
        omega

/-- The Cloudflare route begins in time. -/
theorem timely_cloudflareRoute (h : now < c.began + seconds 37) :
    Timely cfg now { c with stage := (cloudflareRoute cfg now client c st target names).2 } := by
  have hskip : Timely cfg now { c with stage := .domains target } := by
    show now < c.began + seconds 45
    unfold seconds at *
    omega
  unfold cloudflareRoute
  split
  · show now < c.began + seconds 60
    unfold seconds at *
    omega
  · split
    · exact hskip
    · split
      · exact hskip
      · refine timely_h2Next (Nat.le_add_right ..) ?_
        unfold seconds at *
        omega

/-- The TCP route begins in time. -/
theorem timely_tcpRoute (h : now < c.began + seconds 60) :
    Timely cfg now { c with stage := (tcpRoute cfg now client st target).2 } := by
  unfold tcpRoute
  split
  · trivial
  · exact ⟨Nat.le_add_right .., Nat.add_lt_add_right h _⟩

/-- A section leaves its client the time that it needs for the routes to come. -/
theorem timely_stepClient (h : Timely cfg now c) {answer : RouteAnswer} {r : RouteStep}
    (hstep : stepClient cfg now client c st answer = some r) :
    Timely cfg now { c with stage := r.2 } := by
  have hdrop {stage : RouteClientStage} : (dropClient c st stage).2 = stage := by
    unfold dropClient
    split <;> rfl
  cases answer with
  | run names =>
    unfold stepClient runClient at hstep
    cases hstage : c.stage <;> simp only [hstage, Option.some.injEq, reduceCtorEq] at hstep <;>
      simp only [Timely, hstage] at h
    case entered => exact hstep ▸ timely_directRoute h
    case fallbacks => exact hstep ▸ timely_fallbackRoutes h
    case workers target =>
      obtain ⟨-, hstep⟩ := Option.ite_none_right_eq_some.mp hstep
      obtain rfl := Option.some.inj hstep
      refine timely_workerNext (Nat.le_add_right ..) ?_
      unfold seconds at *
      omega
    case cloudflare target => exact hstep ▸ timely_cloudflareRoute h
    case domains target =>
      refine hstep ▸ timely_cfNext (Nat.le_add_right ..) ?_
      unfold seconds at *
      omega
    case tcp target => exact hstep ▸ timely_tcpRoute h
  | pooled hit =>
    unfold stepClient pooledClient at hstep
    cases hstage : c.stage <;> simp only [hstage, Option.some.injEq, reduceCtorEq] at hstep <;>
      simp only [Timely, hstage] at h
    case directPool ip expiry =>
      subst hstep
      cases hit with
      | true => trivial
      | false => exact Nat.le_trans h.1 h.2
    case workerPool target since =>
      subst hstep
      cases hit with
      | true => trivial
      | false =>
        show now < c.began + seconds 22
        unfold seconds at *
        omega
  | dial result =>
    unfold stepClient dialClient at hstep
    cases hstage : c.stage <;> simp only [hstage, Option.some.injEq, reduceCtorEq] at hstep <;>
      simp only [Timely, hstage] at h
    case directDial expiry dial => exact hstep ▸ timely_directAnswer h.1 h.2 result
    case tcpDial target expiry => subst hstep; cases result <;> trivial
    case workerDial target expiry rest =>
      subst hstep
      cases result with
      | ok _ => trivial
      | error e => exact timely_workerNext h.1 h.2
    case h2Dial target expiry rest =>
      subst hstep
      cases result with
      | ok _ => trivial
      | error e => exact timely_h2Next h.1 h.2
    case cfDial target expiry rest =>
      subst hstep
      cases result with
      | ok _ => trivial
      | error e => exact timely_cfNext h.1 h.2
  | expire =>
    unfold stepClient expireClient at hstep
    cases hstage : c.stage <;>
      simp only [hstage, Option.ite_none_right_eq_some, Option.some.injEq,
        reduceCtorEq] at hstep <;>
      simp only [Timely, hstage] at h <;> obtain ⟨-, rfl⟩ := hstep
    case directPool ip expiry | directDial expiry dial => exact Nat.le_trans h.1 h.2
    case workerDial target expiry rest | h2Dial target expiry rest | cfDial target expiry rest =>
      exact Nat.lt_of_le_of_lt h.1 h.2
    case tcpDial target expiry => trivial
  | expireAll =>
    obtain ⟨-, hstep⟩ := Option.ite_none_right_eq_some.mp hstep
    rw [← Option.some.inj hstep, hdrop]
    trivial
  | cancel =>
    obtain ⟨-, hstep⟩ := Option.ite_none_left_eq_some.mp hstep
    rw [← Option.some.inj hstep, hdrop]
    trivial

end TgWsProxy
