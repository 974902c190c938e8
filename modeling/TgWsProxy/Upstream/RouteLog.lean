import TgWsProxy.Upstream.RouteMoves

/-!
# The log of the routes

The cool-downs are those of the log, and a move adds to the log and to the counters what it dials
and returns.
-/

namespace TgWsProxy

open TgWsProxy.Core

variable {cfg : Config} {now client : Nat} {c : RouteClient} {st st' : RouteState}
  {stage : RouteClientStage} {ip : String} {limit : Nat}

/-- A dial. -/
def RouteEvent.isDial : RouteEvent → Bool
  | .dialled .. => true
  | _ => false

/-- When a direct dial of an address has timed out last, since the address was reached. -/
def lastTimeOut (ip : String) : List RouteEvent → Option Nat
  | [] => none
  | .timedOut ip' time :: log => if ip' = ip then some time else lastTimeOut ip log
  | .reached _ ip' :: log => if ip' = ip then none else lastTimeOut ip log
  | _ :: log => lastTimeOut ip log

/-- When the direct route of a key has failed last, since it was reached. -/
def lastExhausted (key : RouteKey) : List RouteEvent → Option Nat
  | [] => none
  | .exhausted key' time :: log => if key' = key then some time else lastExhausted key log
  | .reached key' _ :: log => if key' = key then none else lastExhausted key log
  | _ :: log => lastExhausted key log

/-- When the loop of `direct_route` may begin, behind this log, and the limit of its dials. -/
structure RoundAllowed (cfg : Config) (key : RouteKey) (ip : String) (limit time : Nat)
    (log : List RouteEvent) : Prop where
  /-- A key whose names are all redirects is never tried again. -/
  redirects : .redirected key ∉ log
  /-- An address that has timed out and was not reached since is not dialled for an hour, where
  there is another route. -/
  rests : cfg.hasCf key.2.2 = true → ∀ last, lastTimeOut ip log = some last →
    last + seconds 3600 ≤ time
  /-- A dial takes five seconds at most, and two in the minute behind a failure of its key, unless
  the key was reached since. -/
  limit : limit = min cfg.connectLimit
    (seconds (if (lastExhausted key log).any (time < · + seconds 60) then 2 else 5))

/-- The cool-downs are those of the log. -/
structure Cooled (cfg : Config) (st : RouteState) : Prop where
  failedIp : ∀ ip, st.failedIp ip = (lastTimeOut ip st.log).map (· + seconds 3600)
  failedDc : ∀ key, st.failedDc key = (lastExhausted key st.log).map (· + seconds 60)
  blacklisted : ∀ key, st.blacklisted key = true ↔ .redirected key ∈ st.log
  rounds : ∀ key ip limit time older, .round key ip limit time :: older <:+ st.log →
    RoundAllowed cfg key ip limit time older

/-- Cool-downs depend on the state only as far as it is alike. -/
theorem Cooled.alike (h : Cooled cfg st) (hsame : st.Alike st') : Cooled cfg st' where
  failedIp ip := by rw [hsame.failedIp, hsame.log, h.failedIp]
  failedDc key := by rw [hsame.failedDc, hsame.log, h.failedDc]
  blacklisted key := by rw [hsame.blacklisted, hsame.log, h.blacklisted]
  rounds := hsame.log.symm ▸ h.rounds

/-- Counters cool nothing down. -/
theorem Cooled.count (h : Cooled cfg st) (f : Stats → Stats) : Cooled cfg (st.count f) :=
  ⟨h.failedIp, h.failedDc, h.blacklisted, h.rounds⟩

/-- A dial cools nothing down. -/
theorem Cooled.dial (h : Cooled cfg st) (rung : Rung) (dial : Dial) :
    Cooled cfg (st.dial client rung dial limit) where
  failedIp := h.failedIp
  failedDc := h.failedDc
  blacklisted key := (h.blacklisted key).trans (by simp [RouteState.dial])
  rounds key ip limit time older hsuffix := by
    rcases List.suffix_cons_iff.mp hsuffix with heq | hsuffix
    · cases heq
    · exact h.rounds key ip limit time older hsuffix

/-- A loop that begins where the cool-downs allow it. -/
theorem Cooled.round (h : Cooled cfg st) {key : RouteKey}
    (hblacklisted : st.blacklisted key = false)
    (hip : cfg.hasCf key.2.2 = true → ∀ expiry, st.failedIp ip = some expiry → expiry ≤ now)
    (hlimit : limit =
      min cfg.connectLimit (seconds (if (st.failedDc key).any (now < ·) then 2 else 5))) :
    Cooled cfg { st with log := .round key ip limit now :: st.log } where
  failedIp := h.failedIp
  failedDc := h.failedDc
  blacklisted key := (h.blacklisted key).trans (by simp)
  rounds key' ip' limit' time older hsuffix := by
    rcases List.suffix_cons_iff.mp hsuffix with heq | hsuffix
    · cases heq
      refine ⟨fun hmem => ?_, fun hcf last hlast => hip hcf _ ?_, hlimit.trans ?_⟩
      · rw [(h.blacklisted _).mpr hmem] at hblacklisted
        cases hblacklisted
      · rw [h.failedIp, hlast, Option.map_some]
      · rw [h.failedDc, Option.any_map]
    · exact h.rounds key' ip' limit' time older hsuffix

/-- An exhausted key is logged as it is noted. -/
theorem Cooled.exhaust (h : Cooled cfg st) (key : RouteKey) (allRedirects : Bool) (now : Nat) :
    Cooled cfg (st.exhaust key allRedirects now) := by
  rw [RouteState.exhaust]
  cases allRedirects with
  | true =>
    refine ⟨h.failedIp, h.failedDc, fun other => ?_, fun key' ip limit time older hsuffix => ?_⟩
    · by_cases hkey : other = key
      · subst hkey
        simp
      · simp [hkey, h.blacklisted]
    · rcases List.suffix_cons_iff.mp hsuffix with heq | hsuffix
      · cases heq
      · exact h.rounds key' ip limit time older hsuffix
  | false =>
    refine ⟨h.failedIp, fun other => ?_, fun other => ?_,
      fun key' ip limit time older hsuffix => ?_⟩
    · by_cases hkey : other = key
      · subst hkey
        simp [lastExhausted]
      · simp [Function.update_of_ne hkey, lastExhausted, Ne.symm hkey, h.failedDc]
    · exact (h.blacklisted other).trans (by simp)
    · rcases List.suffix_cons_iff.mp hsuffix with heq | hsuffix
      · cases heq
      · exact h.rounds key' ip limit time older hsuffix

/-- A failed address is logged as it is noted. -/
theorem Cooled.failIp (h : Cooled cfg st) (ip : String) (now : Nat) :
    Cooled cfg (st.failIp ip now) := by
  refine ⟨fun other => ?_, h.failedDc, fun other => ?_, fun key' ip' limit time older hsuffix => ?_⟩
  · rw [RouteState.failIp]
    by_cases hip : other = ip
    · subst hip
      simp [lastTimeOut]
    · simp [Function.update_of_ne hip, lastTimeOut, Ne.symm hip, h.failedIp]
  · exact (h.blacklisted other).trans (by simp [RouteState.failIp])
  · rcases List.suffix_cons_iff.mp hsuffix with heq | hsuffix
    · cases heq
    · exact h.rounds key' ip' limit time older hsuffix

/-- A success is logged as it clears its key and address. -/
theorem Cooled.directSuccess (h : Cooled cfg st) (key : RouteKey) (ip : String) :
    Cooled cfg (st.directSuccess key ip) := by
  refine ⟨fun other => ?_, fun other => ?_, fun other => ?_,
    fun key' ip' limit time older hsuffix => ?_⟩
  · rw [RouteState.directSuccess]
    by_cases hip : other = ip
    · subst hip
      simp [lastTimeOut]
    · simp [Function.update_of_ne hip, lastTimeOut, Ne.symm hip, h.failedIp]
  · rw [RouteState.directSuccess]
    by_cases hkey : other = key
    · subst hkey
      simp [lastExhausted]
    · simp [Function.update_of_ne hkey, lastExhausted, Ne.symm hkey, h.failedDc]
  · exact (h.blacklisted other).trans (by simp [RouteState.directSuccess])
  · rcases List.suffix_cons_iff.mp hsuffix with heq | hsuffix
    · cases heq
    · exact h.rounds key' ip' limit time older hsuffix

/-- A section keeps the cool-downs to the log. -/
theorem RouteMove.cooled (h : RouteMove cfg now client c st st' stage) (hcooled : Cooled cfg st) :
    Cooled cfg st' := by
  cases h with
  | pass hsame => exact hcooled.alike hsame
  | round hentered hsame hblacklisted hip hlimit =>
    exact ((hcooled.round hblacklisted hip hlimit).dial _ _).alike hsame
  | dial hbefore hsame => exact ((hcooled.alike hbefore).dial _ _).alike hsame
  | exhaust allRedirects hbefore _ hsame =>
    exact ((hcooled.alike hbefore).exhaust _ allRedirects now).alike hsame
  | timeOut ip hbefore _ hsame =>
    exact (((hcooled.alike hbefore).failIp ip now).exhaust _ false now).alike hsame
  | reach ip hbefore _ hsame =>
    exact (((hcooled.alike hbefore).directSuccess _ ip).count _).alike hsame
  | back rung hbefore _ hsame => exact ((hcooled.alike hbefore).count _).alike hsame

/-- What a section adds to the log: at most one dial, and that as the latest event. -/
inductive Adds (cfg : Config) (client : Nat) (c : RouteClient) (stage : RouteClientStage)
    (log : List RouteEvent) : List RouteEvent → Prop
  | quiet (front : List RouteEvent) (hfront : ∀ e ∈ front, e.isDial = false) :
    Adds cfg client c stage log (front ++ log)
  | dial (front : List RouteEvent) {rung : Rung} {dial : Dial} {limit : Nat}
    (hfront : ∀ e ∈ front, e.isDial = false)
    (hallowed : Allowed cfg c (front ++ log) limit rung dial) (hfrom : c.stage.height ≤ rung.height)
    (hto : rung.height = stage.height) :
    Adds cfg client c stage log (.dialled client rung dial limit :: (front ++ log))

private theorem exhaust_log (st : RouteState) (key : RouteKey) (allRedirects : Bool) (now : Nat) :
    ∃ e : RouteEvent, e.isDial = false ∧ (st.exhaust key allRedirects now).log = e :: st.log := by
  cases allRedirects <;> exact ⟨_, rfl, rfl⟩

/-- What a move logs, and that it goes up the ladder. -/
theorem RouteMove.adds (h : RouteMove cfg now client c st st' stage) :
    Adds cfg client c stage st.log st'.log ∧ c.stage.height ≤ stage.height := by
  cases h with
  | pass hsame hheight => exact ⟨hsame.log ▸ .quiet [] (List.forall_mem_nil _), hheight⟩
  | round hentered hsame _ _ _ hallowed hstage =>
    have hfrom : c.stage.height = 0 := by rw [hentered]; rfl
    refine ⟨hsame.log ▸ ?_, by omega⟩
    exact .dial [_] (List.forall_mem_singleton.mpr rfl) hallowed (Nat.le_of_eq hfrom) hstage.symm
  | dial hbefore hsame hallowed hheight hstage =>
    refine ⟨?_, hstage ▸ hheight⟩
    rw [hsame.log, RouteState.dial, hbefore.log]
    exact .dial [] (List.forall_mem_nil _) hallowed hheight hstage.symm
  | exhaust allRedirects hbefore hheight hsame =>
    refine ⟨?_, by rw [hheight]; exact Nat.zero_le _⟩
    obtain ⟨e, he, hlog⟩ := exhaust_log _ c.key allRedirects now
    rw [hsame.log, hlog, hbefore.log]
    exact .quiet [e] (List.forall_mem_singleton.mpr he)
  | timeOut ip hbefore hheight hsame =>
    refine ⟨?_, by rw [hheight]; exact Nat.zero_le _⟩
    obtain ⟨e, he, hlog⟩ := exhaust_log _ c.key false now
    rw [hsame.log, hlog, RouteState.failIp, hbefore.log]
    exact .quiet [e, _] (List.forall_mem_cons.mpr ⟨he, List.forall_mem_singleton.mpr rfl⟩)
  | reach ip hbefore hheight hsame =>
    refine ⟨?_, by rw [hheight]; exact Nat.zero_le _⟩
    rw [hsame.log, RouteState.count, RouteState.directSuccess, hbefore.log]
    exact .quiet [_] (List.forall_mem_singleton.mpr rfl)
  | back rung hbefore hheight hsame =>
    refine ⟨?_, Nat.le_of_eq hheight⟩
    rw [hsame.log, RouteState.count, hbefore.log]
    exact .quiet [] (List.forall_mem_nil _)

/-- A move takes nothing from the log. -/
theorem Adds.subset {log log' : List RouteEvent} (h : Adds cfg client c stage log log') :
    log ⊆ log' := by
  cases h with
  | quiet front => exact List.subset_append_right ..
  | dial front => exact fun e he => List.mem_cons_of_mem _ (List.mem_append_right _ he)

/-- What is known of a client stays known. -/
theorem Knows.mono {log log' : List RouteEvent} (h : Knows cfg log c) (hlog : log ⊆ log') :
    Knows cfg log' c := by
  unfold Knows at h ⊢
  cases hstage : c.stage with
  | directDial expiry dial =>
    simp only [hstage] at h ⊢
    obtain ⟨hpool, hip, hdomain, hrest, hfronted, time, htime⟩ := h
    exact ⟨hpool, hip, hdomain, hrest, hfronted, time, hlog htime⟩
  | returned rung =>
    simp only [hstage] at h ⊢
    cases rung <;> exact h
  | _ =>
    simp only [hstage] at h ⊢
    try exact h

/-- What a move does to the counters of the routes. -/
theorem RouteMove.routes (h : RouteMove cfg now client c st st' stage) :
    (∀ rung, stage ≠ .returned rung) ∧ st'.stats.routes = st.stats.routes ∨
      ∃ rung, stage = .returned rung ∧ st'.stats.routes = (st.stats.returned rung).routes := by
  have hexhaust (st₁ : RouteState) (key : RouteKey) (allRedirects : Bool) :
      (st₁.exhaust key allRedirects now).stats = st₁.stats := by cases allRedirects <;> rfl
  have hreturned {st₁ : RouteState} (hbefore : st.Alike st₁) (rung : Rung) :
      (st₁.stats.returned rung).routes = (st.stats.returned rung).routes := by
    have hroutes := hbefore.routes
    simp only [Stats.routes, Prod.mk.injEq] at hroutes
    obtain ⟨hws, hcf, hh2, htcp⟩ := hroutes
    cases rung <;> simp [Stats.routes, Stats.returned, Stats.ws, Stats.cf, Stats.h2, Stats.tcp, *]
  cases h with
  | pass hsame _ hreturned => exact .inl ⟨hreturned, hsame.routes⟩
  | round _ hsame _ _ _ _ _ hreturned => exact .inl ⟨hreturned, hsame.routes⟩
  | dial hbefore hsame _ _ _ hreturned => exact .inl ⟨hreturned, hsame.routes.trans hbefore.routes⟩
  | exhaust allRedirects hbefore _ hsame =>
    refine .inl ⟨(fun rung h => by cases h), ?_⟩
    rw [hsame.routes, hexhaust, hbefore.routes]
  | timeOut ip hbefore _ hsame =>
    refine .inl ⟨(fun rung h => by cases h), ?_⟩
    rw [hsame.routes, hexhaust]
    exact hbefore.routes
  | reach ip hbefore _ hsame =>
    exact .inr ⟨.direct, rfl, hsame.routes.trans (hreturned hbefore .direct)⟩
  | back rung hbefore _ hsame => exact .inr ⟨rung, rfl, hsame.routes.trans (hreturned hbefore rung)⟩

end TgWsProxy
