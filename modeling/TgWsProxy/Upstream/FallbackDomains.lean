import Mathlib.Data.Finset.Basic
import Mathlib.Data.List.Perm.Basic
import Mathlib.Logic.Function.Basic
import TgWsProxy.Config
import TgWsProxy.Core.Transition

/-!
# The fallback domains

The list of fallback domains of `upstream.rs`: how it is read, `domains_for`, the two routes
that try its domains one by one, and `refresh_domains`. A route keeps the list it began with
while it dials.
-/

namespace TgWsProxy

open TgWsProxy.Core

/-! ## Reading a list -/

namespace Upstream

/-- `valid_domain` of `upstream.rs`: the last label has two characters and a letter besides. -/
def validDomain (domain : String) : Bool :=
  TgWsProxy.validDomain domain &&
    ((domain.toList.splitOn '.').getLast?.any fun last =>
      last.length ≥ 2 && last.any Char.isAlpha)

/-- A letter, turned back by the shift; other bytes become characters of their own. -/
def unshift (shift : Nat) (c : Char) : List Char :=
  if c.isAlpha then
    let base := if c.isLower then 'a'.toNat else 'A'.toNat
    [Char.ofNat (base + (c.toNat - base + 26 - shift) % 26)]
  else (String.utf8EncodeChar c).map fun b => Char.ofNat b.toNat

/-- `decode_domain`. -/
def decodeDomain (line : List Char) : List Char :=
  let suffix := ".com".toList
  if suffix.isSuffixOf line then
    let body := line.take (line.length - suffix.length)
    let shift := (body.filter Char.isAlpha).length % 26
    body.flatMap (unshift shift) ++ ".co.uk".toList
  else line

/-- The filter of `parse_domain_pool` with its set of what it has seen. -/
def distinct (seen : List String) : List String → List String
  | [] => []
  | domain :: domains =>
    if domain ∈ seen then distinct seen domains
    else domain :: distinct (domain :: seen) domains

/-- `parse_domain_pool` of a text, given as its lines. -/
def parseDomainPool (lines : List String) : List String :=
  let names := (lines.map fun line => trim line.toList).filter fun line =>
    line ≠ [] ∧ line.head? ≠ some '#'
  let domains := names.map fun line => String.ofList (decodeDomain (line.map Char.toLower))
  (distinct [] (domains.filter validDomain)).take 128

/-- The lines of `ENCODED_DOMAINS`. -/
def encodedDomains : List String :=
  ["virkgj.com", "vmmzovy.com", "mkuosckvso.com", "zaewayzmplad.com", "twdmbzcm.com",
    "awzwsldi.com", "clngqrflngqin.com", "tjacxbqtj.com", "bxaxtxmrw.com", "dmohrsgmohcrwb.com",
    "vwbmtmoi.com", "khgrre.com", "ulihssf.com", "tmhqsdqmfpmk.com", "xwuwoqbm.com",
    "orgcnunpj.com", "zhkuldz.com", "zypoljnslxa.com", "efabnxaowuzs.com", "zaftuzsftqdq.com"]

/-- The list that `Upstream::new` begins with. -/
def initialDomains (cfg : Config) : List String :=
  if cfg.cfproxyUserDomains = [] then parseDomainPool encodedDomains else cfg.cfproxyUserDomains

/-- `distinct` gives new names, each one once. -/
theorem distinct_spec (seen domains : List String) :
    (distinct seen domains).Nodup ∧ ∀ domain ∈ distinct seen domains, domain ∉ seen := by
  induction domains generalizing seen with
  | nil => exact ⟨List.nodup_nil, List.forall_mem_nil _⟩
  | cons domain domains ih =>
    unfold distinct
    split
    · exact ih seen
    · next hnew =>
      obtain ⟨hnodup, hseen⟩ := ih (domain :: seen)
      refine ⟨List.nodup_cons.mpr ⟨fun hmem => ?_, hnodup⟩, List.forall_mem_cons.mpr ⟨hnew, ?_⟩⟩
      · exact hseen domain hmem (List.mem_cons_self ..)
      · exact fun other hmem hold => hseen other hmem (List.mem_cons_of_mem _ hold)

/-- No domain of a parsed list stands there twice. -/
theorem nodup_parseDomainPool (lines : List String) : (parseDomainPool lines).Nodup :=
  (distinct_spec [] _).1.sublist (List.take_sublist ..)

end Upstream

/-! ## Routes -/

/-- `h2_enabled`. -/
def Config.h2Enabled (cfg : Config) : Bool :=
  cfg.cfproxyH2Media && cfg.cfproxy && !cfg.disableSecure && !cfg.forceTestDc

/-- Where a call of `cf_route` or `h2_route` stands. -/
inductive RouteStage
  /-- It is about to call `domains_for`. -/
  | entered
  /-- It dials a domain, with the rest of its list to come. -/
  | dialling (base : String) (rest : List String)
  /-- The dial has worked; the domain is to be recorded. -/
  | dialled (base : String)
  | returned (base : Option String)
  /-- Dropped while it dialled. -/
  | cancelled
  deriving DecidableEq

/-- A call of `cf_route` or `h2_route`. -/
structure DomainRoute where
  dc : Int
  stage : RouteStage := .entered

/-- The fields of an `Upstream` that the fallback domains concern. -/
structure Fallback where
  config : Config
  clock : Nat := 0
  domains : List String
  preferred : Int → Option String := fun _ => none
  h2RetryAfter : Int → Option Nat := fun _ => none
  routes : List DomainRoute := []

/-- The steps; routes are named by their positions. -/
inductive FallbackAction
  | tick (elapsed : Nat)
  | cfRoute (dc : Int)
  | h2Route (dc : Int)
  /-- `domains_for`, with what its shuffle makes of the other domains. -/
  | domainsFor (route : Nat) (shuffled : List String)
  /-- The dial of a domain ends. -/
  | dial (route : Nat) (worked : Bool)
  | record (route : Nat)
  | cancel (route : Nat)
  /-- `h2_cool_down`, when a list is exhausted or the route has timed out. -/
  | h2CoolDown (dc : Int)
  /-- `refresh_domains`, with the lines it has fetched. -/
  | refreshDomains (fetched : Option (List String))

namespace Fallback

/-- The domains that `domains_for` shuffles. -/
def others (s : Fallback) (dc : Int) : List String :=
  s.domains.filter fun domain => some domain ≠ s.preferred dc

/-- `domains_for`. -/
def domainsFor (s : Fallback) (dc : Int) (shuffled : List String) : List String :=
  match s.preferred dc with
  | some active => active :: shuffled
  | none => shuffled

/-- Dial the first domain of what is left, if any. -/
def dialNext : List String → RouteStage
  | [] => .returned none
  | base :: rest => .dialling base rest

/-- A route moves on. -/
def advance (s : Fallback) (route : Nat) (dc : Int) (stage : RouteStage) : Fallback :=
  { s with routes := s.routes.set route ⟨dc, stage⟩ }

/-- The locked section of `refresh_domains`, after a fetch of three domains or more. -/
def replaceDomains (s : Fallback) (domains : List String) : Fallback :=
  if s.domains.toFinset ≠ domains.toFinset then
    { s with domains, preferred := fun _ => none }
  else s

/-- The effect of one step. -/
def step (s : Fallback) : FallbackAction → Option Fallback
  | .tick elapsed => some { s with clock := s.clock + elapsed }
  | .cfRoute dc => some { s with routes := s.routes ++ [⟨dc, .entered⟩] }
  | .h2Route dc =>
    if s.config.h2Enabled then
      if (s.h2RetryAfter dc).any (· > s.clock) then
        some { s with routes := s.routes ++ [⟨dc, .returned none⟩] }
      else
        some { s with
          h2RetryAfter := Function.update s.h2RetryAfter dc none
          routes := s.routes ++ [⟨dc, .entered⟩] }
    else none
  | .domainsFor route shuffled =>
    match s.routes[route]? with
    | some ⟨dc, .entered⟩ =>
      if shuffled.Perm (s.others dc) then
        some (s.advance route dc (dialNext (s.domainsFor dc shuffled)))
      else none
    | _ => none
  | .dial route worked =>
    match s.routes[route]? with
    | some ⟨dc, .dialling base rest⟩ =>
      some (s.advance route dc (if worked then .dialled base else dialNext rest))
    | _ => none
  | .record route =>
    match s.routes[route]? with
    | some ⟨dc, .dialled base⟩ =>
      some ({ s with preferred := Function.update s.preferred dc (some base) }.advance route dc
        (.returned (some base)))
    | _ => none
  | .cancel route =>
    match s.routes[route]? with
    | some ⟨dc, .dialling _ _⟩ => some (s.advance route dc .cancelled)
    | _ => none
  | .h2CoolDown dc =>
    some { s with h2RetryAfter := Function.update s.h2RetryAfter dc (some (s.clock + seconds 30)) }
  | .refreshDomains fetched =>
    if s.config.domainRefresh ∧ s.config.cfproxy ∧ s.config.cfproxyUserDomains = [] then
      match fetched with
      | some lines =>
        let domains := Upstream.parseDomainPool lines
        some (if domains.length < 3 then s else s.replaceDomains domains)
      | none => some s
    else none

end Fallback

/-- The fallback domains of an `Upstream`, for a configuration that was read. -/
def fallbackSystem : System Fallback FallbackAction where
  start s := NormalDomains s.config.cfproxyUserDomains ∧
    s = { config := s.config, clock := s.clock, domains := Upstream.initialDomains s.config }
  step := Fallback.step

namespace Fallback

variable {s t : Fallback}

/-- Every preferred domain is a current one, and `domains_for` orders the current list. -/
structure Current (s : Fallback) : Prop where
  preferred : ∀ dc base, s.preferred dc = some base → base ∈ s.domains
  domainsFor : ∀ dc shuffled, shuffled.Perm (s.others dc) →
    (s.domainsFor dc shuffled).Perm s.domains ∧ (s.domainsFor dc shuffled).Nodup ∧
      ∀ base, s.preferred dc = some base → (s.domainsFor dc shuffled).head? = some base

/-- What a route records is in the list at that moment. -/
def RecordsCurrent (s : Fallback) : FallbackAction → Prop
  | .record route => ∀ dc base, s.routes[route]? = some ⟨dc, .dialled base⟩ → base ∈ s.domains
  | _ => True

/-- The list has no duplicates. -/
theorem Current.of_nodup (hnodup : s.domains.Nodup)
    (hpreferred : ∀ dc base, s.preferred dc = some base → base ∈ s.domains) : s.Current := by
  refine ⟨hpreferred, fun dc shuffled hperm => ?_⟩
  have hothers : (s.others dc).Nodup := hnodup.filter _
  cases hactive : s.preferred dc with
  | none =>
    have hall : s.others dc = s.domains := by
      refine List.filter_eq_self.mpr fun domain _ => ?_
      rw [hactive]
      exact decide_eq_true (Option.some_ne_none domain)
    rw [Fallback.domainsFor, hactive]
    refine ⟨hall ▸ hperm, hperm.nodup_iff.mpr hothers, fun base hbase => ?_⟩
    cases hbase
  | some active =>
    have hnot : active ∉ s.others dc := fun hmem => by
      have := (List.mem_filter.mp hmem).2
      rw [hactive] at this
      exact of_decide_eq_true this rfl
    rw [Fallback.domainsFor, hactive]
    have hnew : (active :: shuffled).Nodup :=
      List.nodup_cons.mpr ⟨fun hmem => hnot (hperm.mem_iff.mp hmem), hperm.nodup_iff.mpr hothers⟩
    refine ⟨(List.perm_ext_iff_of_nodup hnew hnodup).mpr fun domain => ?_, hnew,
      fun base hbase => ?_⟩
    · rw [List.mem_cons, hperm.mem_iff, Fallback.others, List.mem_filter, hactive,
        decide_eq_true_eq, ne_eq, Option.some.injEq]
      constructor
      · rintro (rfl | ⟨hmem, -⟩)
        · exact hpreferred dc domain hactive
        · exact hmem
      · intro hmem
        by_cases heq : domain = active
        · exact Or.inl heq
        · exact Or.inr ⟨hmem, heq⟩
    · exact hbase

/-- Each step leaves the list and the preferences alone, replaces the list, or records. -/
theorem step_cases {a : FallbackAction} (hstep : s.step a = some t) :
    (t.domains = s.domains ∧ t.preferred = s.preferred ∧ RecordsCurrent s a) ∨
    (t.domains.Nodup ∧ (∀ dc, t.preferred dc = none) ∧ RecordsCurrent s a) ∨
    ∃ route dc base, a = .record route ∧ s.routes[route]? = some ⟨dc, .dialled base⟩ ∧
      t.domains = s.domains ∧ t.preferred = Function.update s.preferred dc (some base) := by
  cases a with
  | tick elapsed | cfRoute dc | h2CoolDown dc =>
    obtain rfl := Option.some.inj hstep
    exact Or.inl ⟨rfl, rfl, trivial⟩
  | h2Route dc =>
    simp only [Fallback.step] at hstep
    split at hstep
    · split at hstep
      all_goals
        obtain rfl := Option.some.inj hstep
        exact Or.inl ⟨rfl, rfl, trivial⟩
    · cases hstep
  | domainsFor route shuffled =>
    simp only [Fallback.step] at hstep
    split at hstep
    · split at hstep
      · obtain rfl := Option.some.inj hstep
        exact Or.inl ⟨rfl, rfl, trivial⟩
      · cases hstep
    · cases hstep
  | dial route worked =>
    simp only [Fallback.step] at hstep
    split at hstep
    · obtain rfl := Option.some.inj hstep
      exact Or.inl ⟨rfl, rfl, trivial⟩
    · cases hstep
  | cancel route =>
    simp only [Fallback.step] at hstep
    split at hstep
    · obtain rfl := Option.some.inj hstep
      exact Or.inl ⟨rfl, rfl, trivial⟩
    · cases hstep
  | record route =>
    simp only [Fallback.step] at hstep
    split at hstep
    · next dc base hroute =>
      obtain rfl := Option.some.inj hstep
      exact Or.inr (Or.inr ⟨route, dc, base, rfl, hroute, rfl, rfl⟩)
    · cases hstep
  | refreshDomains fetched =>
    simp only [Fallback.step] at hstep
    split at hstep
    · cases fetched with
      | none =>
        obtain rfl := Option.some.inj hstep
        exact Or.inl ⟨rfl, rfl, trivial⟩
      | some lines =>
        obtain rfl := Option.some.inj hstep
        unfold Fallback.replaceDomains
        split
        · exact Or.inl ⟨rfl, rfl, trivial⟩
        · split
          · exact Or.inr (Or.inl ⟨Upstream.nodup_parseDomainPool lines, fun _ => rfl, trivial⟩)
          · exact Or.inl ⟨rfl, rfl, trivial⟩
    · cases hstep

/-- Every step keeps the domains distinct. -/
theorem nodup_step {a : FallbackAction} (hnodup : s.domains.Nodup) (hstep : s.step a = some t) :
    t.domains.Nodup := by
  rcases step_cases hstep with ⟨hdomains, -⟩ | ⟨hnew, -⟩ | ⟨-, -, -, -, -, hdomains, -⟩
  · exact hdomains ▸ hnodup
  · exact hnew
  · exact hdomains ▸ hnodup

/-- A step keeps the preferences current exactly when what it records is. -/
theorem current_step {a : FallbackAction} (hnodup : s.domains.Nodup) (h : s.Current)
    (hstep : s.step a = some t) : t.Current ↔ RecordsCurrent s a := by
  have hnodup' := nodup_step hnodup hstep
  rcases step_cases hstep with ⟨hdomains, hpreferred, hok⟩ | ⟨-, hnone, hok⟩ |
    ⟨route, dc, base, rfl, hroute, hdomains, hpreferred⟩
  · refine iff_of_true (.of_nodup hnodup' fun dc base hbase => ?_) hok
    rw [hpreferred] at hbase
    exact hdomains ▸ h.preferred dc base hbase
  · refine iff_of_true (.of_nodup hnodup' fun dc base hbase => ?_) hok
    rw [hnone] at hbase
    cases hbase
  · constructor
    · intro hcurrent dc' base' hroute'
      rw [hroute] at hroute'
      obtain ⟨rfl, hstage⟩ := DomainRoute.mk.inj (Option.some.inj hroute')
      obtain rfl := RouteStage.dialled.inj hstage
      have hrecorded : t.preferred dc = some base := by
        rw [hpreferred]
        exact Function.update_self ..
      exact hdomains ▸ hcurrent.preferred dc base hrecorded
    · intro hok
      refine .of_nodup hnodup' fun dc' base' hbase => ?_
      rw [hdomains]
      by_cases hdc : dc' = dc
      · subst hdc
        rw [hpreferred, Function.update_self] at hbase
        obtain rfl := Option.some.inj hbase
        exact hok dc' base hroute
      · rw [hpreferred, Function.update_of_ne hdc] at hbase
        exact h.preferred dc' base' hbase

/-- The configured domains are distinct. -/
theorem nodup_of_start (h : fallbackSystem.start s) : s.domains.Nodup := by
  obtain ⟨hnormal, hs⟩ := h
  have hdomains : s.domains = Upstream.initialDomains s.config := by
    rw [hs]
  rw [hdomains, Upstream.initialDomains]
  split
  · exact Upstream.nodup_parseDomainPool _
  · exact hnormal.nodup

/-- At the start every preferred domain is current. -/
theorem current_of_start (h : fallbackSystem.start s) : s.Current := by
  refine .of_nodup (nodup_of_start h) fun dc base hbase => ?_
  rw [h.2] at hbase
  cases hbase

end Fallback

/-- In a run the preferred domains are current all along exactly when every route records
a domain that is in the list at that moment. -/
theorem preferredCurrent {s t : Fallback} (h : fallbackSystem.start s)
    {actions : List FallbackAction}
    (hrun : fallbackSystem.run s actions = some t) :
    (∀ front u, front <+: actions → fallbackSystem.run s front = some u → u.Current) ↔
      fallbackSystem.Meets Fallback.RecordsCurrent s actions :=
  System.prefixes_iff_meets (fun _ _ _ => Fallback.nodup_step)
    (fun _ _ _ => Fallback.current_step) (Fallback.nodup_of_start h) (Fallback.current_of_start h)
    hrun

/-! ## Routes that outlive their list -/

def defaultFallback : Fallback := { config := {}, domains := Upstream.initialDomains {} }

private theorem defaultFallback_start : fallbackSystem.start defaultFallback :=
  ⟨⟨List.nodup_nil, List.forall_mem_nil _⟩, rfl⟩

def oldDomains : List String := ["one.example", "two.example", "three.example"]

/-- Another list, with two of the domains. -/
def newDomains : List String := ["two.example", "three.example", "four.example"]

/-- The list is replaced while a route dials, and the route records a domain of both. -/
def currentActions : List FallbackAction :=
  [.refreshDomains (some oldDomains), .cfRoute 2, .domainsFor 0 oldDomains, .dial 0 false,
    .refreshDomains (some newDomains), .dial 0 true, .record 0]

/-- The domain that a route is about to record. -/
def RouteStage.recording : RouteStage → Option String
  | .dialled base => some base
  | _ => none

instance (s : Fallback) : (a : FallbackAction) → Decidable (Fallback.RecordsCurrent s a)
  | .record route => decidable_of_iff
    (∀ base, (s.routes[route]?.bind (·.stage.recording)) = some base → base ∈ s.domains) (by
      constructor
      · intro h dc base hroute
        exact h base (by rw [hroute]; rfl)
      · intro h base hbase
        obtain ⟨⟨dc, stage⟩, hroute, hstage⟩ := Option.bind_eq_some_iff.mp hbase
        cases stage with
        | dialled other => exact Option.some.inj hstage ▸ h dc other hroute
        | _ => cases hstage)
  | .tick _ | .cfRoute _ | .h2Route _ | .domainsFor .. | .dial .. | .cancel _ | .h2CoolDown _
  | .refreshDomains _ => .isTrue trivial

/-- What is recorded in that run is current, and so are all its states. -/
theorem preferredCurrent_run : ∃ t, fallbackSystem.run defaultFallback currentActions = some t ∧
    t.preferred 2 = some "two.example" ∧ ∀ front u, front <+: currentActions →
      fallbackSystem.run defaultFallback front = some u → u.Current := by
  obtain ⟨t, hrun, hcheck⟩ := fallbackSystem.exists_of_run defaultFallback currentActions
    (fun t => t.preferred 2 = some "two.example") (by decide +kernel)
  have hmeets : fallbackSystem.Meets Fallback.RecordsCurrent defaultFallback currentActions := by
    decide +kernel
  exact ⟨t, hrun, of_decide_eq_true hcheck,
    (preferredCurrent defaultFallback_start hrun).mpr hmeets⟩

/-- The list is replaced while a route dials, and the route records its domain. -/
def staleActions : List FallbackAction :=
  [.refreshDomains (some oldDomains), .cfRoute 2,
    .domainsFor 0 oldDomains, .dial 0 true,
    .refreshDomains (some newDomains), .record 0]

def staleCheck (s : Fallback) : Bool :=
  s.domains = newDomains ∧
    s.preferred 2 = some "one.example" ∧ (s.domainsFor 2 s.domains).length = 4

private theorem exists_stale_run : ∃ s, fallbackSystem.run defaultFallback staleActions = some s ∧
    staleCheck s = true :=
  fallbackSystem.exists_of_run defaultFallback staleActions staleCheck (by decide +kernel)

/-- A route that outlives its list records a domain that is no longer there. -/
theorem preferredCurrent_stale : ∃ s, fallbackSystem.Reachable s ∧ staleCheck s = true ∧
    ¬s.Current := by
  obtain ⟨s, hrun, hcheck⟩ := exists_stale_run
  obtain ⟨hdomains, hpreferred, -⟩ := of_decide_eq_true hcheck
  refine ⟨s, (System.Reachable.start defaultFallback_start).run hrun, hcheck, fun hcurrent => ?_⟩
  have hmem := hcurrent.preferred 2 _ hpreferred
  rw [hdomains] at hmem
  simp [newDomains] at hmem

end TgWsProxy
