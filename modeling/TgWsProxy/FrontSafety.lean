import TgWsProxy.Core.Tally
import TgWsProxy.FrontTimers

/-!
# What a peer sees of a proxy

In every run a peer that has not authenticated sees the fake domain and nothing else, `connect` is
called only for a handshake under the secret, no ClientHello is answered twice, and a connection
that gets nowhere is over in bounded time.
-/

namespace TgWsProxy

open TgWsProxy.Core
open TgWsProxy.AsyncRead

variable {cfg : Config} {P : Primitives} {mac : Mac} {secret : Block 16} {epoch : Nat}
  {c : FrontConn} {verdict : Verdict} {stage : FrontStage} {now : Nat} {shared : FrontShared}

/-! ## What the connections share -/

/-- The ClientHello that a connection was answered, and when. -/
def Verdict.greeted : Verdict → Option (Bytes × Nat)
  | .hello record time => some (record, time)
  | _ => none

def Verdict.isMasked : Verdict → Bool
  | .masked _ => true
  | _ => false

/-- What a step of a connection does to the cache and to the counter. -/
inductive Shares (mac : Mac) (secret : Block 16) (epoch now : Nat) (c : FrontConn)
    (shared : FrontShared) : FrontResult → Prop
  /-- Nothing. -/
  | keeps {r : FrontResult} (hcache : r.1.cache = shared.cache) (hverdict :
      r.2.verdict.greeted = c.verdict.greeted ∧ r.2.verdict.isMasked = c.verdict.isMasked)
    (hmasked : r.1.stats.connectionsMasked = shared.stats.connectionsMasked) :
    Shares mac secret epoch now c shared r
  | answers {r : FrontResult} {record : Bytes} {parsed : ClientHello}
    (hverify : verifyAndCache mac secret shared.cache now (wallSeconds epoch now) record =
      (.ok parsed, r.1.cache))
    (hbefore : c.verdict = .unknown) (hverdict : r.2.verdict = .hello record now)
    (hmasked : r.1.stats.connectionsMasked = shared.stats.connectionsMasked) :
    Shares mac secret epoch now c shared r
  | masks {r : FrontResult} {record : Bytes} {e : IoError}
    (hverify : verifyAndCache mac secret shared.cache now (wallSeconds epoch now) record =
      (.error e, r.1.cache))
    (hbefore : c.verdict = .unknown) (hverdict : r.2.verdict = .masked record)
    (hmasked : r.1.stats.connectionsMasked = shared.stats.connectionsMasked + 1) :
    Shares mac secret epoch now c shared r

/-- Opening a connection touches what is shared as one verified record does. -/
theorem shares_openConn {expiry : Nat} (h : Flows P mac secret epoch cfg c c.verdict c.stage)
    (hstage : c.stage = .opening expiry) (key : Block 32) (payload : Bytes) :
    Shares mac secret epoch now c shared
      (openConn mac secret epoch cfg now c shared key payload) := by
  have hunknown : c.verdict = .unknown := by
    generalize c.verdict = verdict at h
    rw [hstage] at h
    cases h
    rfl
  unfold openConn
  split
  · exact .keeps rfl ⟨rfl, rfl⟩ rfl
  · dsimp only
    split
    · next hverify => exact .answers hverify hunknown rfl rfl
    · next hverify => exact .masks hverify hunknown rfl rfl
  · dsimp only
    split <;> exact .keeps rfl ⟨by rw [hunknown]; rfl, by rw [hunknown]; rfl⟩ rfl

/-- The handshake of a client counts, and touches nothing else that is shared. -/
theorem shares_handshakeRead (c₀ : FrontConn) (result : Except IoError Bytes)
    (h : c₀.verdict = c.verdict) :
    Shares mac secret epoch now c shared (handshakeRead P secret cfg c₀ shared result) := by
  have hsame : c₀.verdict.greeted = c.verdict.greeted ∧ c₀.verdict.isMasked = c.verdict.isMasked :=
    h ▸ ⟨rfl, rfl⟩
  unfold handshakeRead
  split
  · exact .keeps rfl hsame rfl
  · split
    · unfold serveHandshake
      split
      · exact .keeps rfl hsame rfl
      · split <;> exact .keeps rfl hsame rfl
    · exact .keeps rfl hsame rfl

/-- Whatever a connection is told. -/
theorem shares_stepConn {answer : FrontAnswer} {r : FrontResult}
    (h : Flows P mac secret epoch cfg c c.verdict c.stage)
    (hstep : stepConn P mac secret epoch cfg now c shared answer = some r) :
    Shares mac secret epoch now c shared r := by
  cases answer with
  | opened key payload =>
    obtain ⟨expiry, hstage, rfl⟩ := stepConn_opened hstep
    exact shares_openConn h hstage key payload
  | wrote n =>
    unfold stepConn writeConn at hstep
    dsimp only at hstep
    split at hstep
    · obtain ⟨-, rfl⟩ := (Option.ite_none_right_eq_some.mp hstep).imp_right Option.some.inj
      exact .keeps rfl (by simp) rfl
    · obtain ⟨-, rfl⟩ := (Option.ite_none_right_eq_some.mp hstep).imp_right Option.some.inj
      exact .keeps rfl (by simp) rfl
    · obtain ⟨-, rfl⟩ := (Option.ite_none_right_eq_some.mp hstep).imp_right Option.some.inj
      exact .keeps rfl (by simp) rfl
    · cases hstep
  | handshake grants =>
    unfold stepConn handshakeConn at hstep
    dsimp only at hstep
    split at hstep
    · obtain ⟨⟨result, stream⟩, -, rfl⟩ := Option.map_eq_some_iff.mp hstep
      exact shares_handshakeRead _ result rfl
    · split at hstep
      · exact Option.some.inj hstep ▸ .keeps rfl ⟨rfl, rfl⟩ rfl
      · exact Option.some.inj hstep ▸ shares_handshakeRead _ _ rfl
    · cases hstep
  | connected =>
    obtain ⟨hello, expiry, -, rfl⟩ := stepConn_connected hstep
    exact .keeps rfl ⟨rfl, rfl⟩ rfl
  | copyRead up =>
    unfold stepConn copyReadConn at hstep
    dsimp only at hstep
    split at hstep
    · split at hstep
      · cases hstep
      · exact Option.some.inj hstep ▸ .keeps rfl (by simp) rfl
    · cases hstep
  | copyWrote up n =>
    unfold stepConn copyWroteConn at hstep
    dsimp only at hstep
    split at hstep
    · split at hstep
      · cases hstep
      · obtain ⟨-, rfl⟩ := (Option.ite_none_right_eq_some.mp hstep).imp_right Option.some.inj
        exact .keeps rfl (by simp) rfl
    · cases hstep
  | woke =>
    unfold stepConn wakeConn at hstep
    dsimp only at hstep
    split at hstep
    · split at hstep
      · cases hstep
      · split at hstep <;> exact Option.some.inj hstep ▸ .keeps rfl ⟨rfl, rfl⟩ rfl
    · cases hstep
  | expired =>
    obtain ⟨-, hstep⟩ := Option.ite_none_right_eq_some.mp hstep
    exact Option.some.inj hstep ▸ .keeps rfl ⟨rfl, rfl⟩ rfl
  | fails e | dropped =>
    obtain ⟨-, hstep⟩ := Option.ite_none_left_eq_some.mp hstep
    exact Option.some.inj hstep ▸ .keeps rfl ⟨rfl, rfl⟩ rfl

/-! ## ClientHellos that are answered -/

/-- Two records that were answered: with one random only a lifetime apart. -/
def RandomsApart (x y : Bytes × Nat) : Prop :=
  helloRandom x.1 = helloRandom y.1 →
    x.2 + cacheLifetime ≤ y.2 ∨ y.2 + cacheLifetime ≤ x.2

instance : Std.Symm RandomsApart := ⟨fun _ _ h heq => (h heq.symm).symm⟩

/-- What is known of the records that were answered. -/
structure HelloSound (mac : Mac) (secret : Block 16) (epoch : Nat) (s : HelloState) : Prop where
  inv : HelloInv mac secret epoch s
  apart : s.accepted.Pairwise RandomsApart

/-- Every arrival keeps what is known of the accepted records. -/
theorem HelloSound.step {s t : HelloState} {a : Arrival} (h : HelloSound mac secret epoch s)
    (hstep : (helloSystem mac secret epoch).step s a = some t) : HelloSound mac secret epoch t := by
  refine ⟨helloInv_step h.inv hstep, ?_⟩
  obtain ⟨hclock, ⟨haccepted, -⟩ | ⟨rfl, -, hnew, -⟩⟩ := HelloState.step_cases hstep
  · rw [haccepted]
    exact h.apart
  · refine List.pairwise_cons.mpr ⟨fun x hx hrandom => .inr ?_, h.apart⟩
    by_contra hrecent
    have hpast := h.inv.past x hx
    have hkept := h.inv.kept_retained hclock hx (show a.time - x.2 < cacheLifetime by omega)
    exact hnew _ hkept hrandom.symm

private theorem step_of_answered {s : HelloState} {record : Bytes} {now : Nat}
    {parsed : ClientHello}
    {cache : ReplayCache} (hclock : s.clock ≤ now)
    (h : verifyAndCache mac secret s.cache now (wallSeconds epoch now) record =
      (.ok parsed, cache)) :
    (helloSystem mac secret epoch).step s ⟨record, now⟩ =
      some ⟨cache, now, (record, now) :: s.accepted⟩ := by
  rw [helloSystem]
  dsimp only
  rw [HelloState.step, if_neg (Nat.not_lt.mpr hclock), h]

private theorem step_of_refused {s : HelloState} {record : Bytes} {now : Nat} {e : IoError}
    {cache : ReplayCache} (hclock : s.clock ≤ now)
    (h : verifyAndCache mac secret s.cache now (wallSeconds epoch now) record =
      (.error e, cache)) :
    (helloSystem mac secret epoch).step s ⟨record, now⟩ = some ⟨cache, now, s.accepted⟩ := by
  rw [helloSystem]
  dsimp only
  rw [HelloState.step, if_neg (Nat.not_lt.mpr hclock), h]

/-- One record is answered once: it is authentic for less than a lifetime. -/
theorem HelloSound.ne_of_apart {s : HelloState} (h : HelloSound mac secret epoch s)
    {x y : Bytes × Nat} (hx : x ∈ s.accepted) (hy : y ∈ s.accepted) (hapart : RandomsApart x y) :
    x.1 ≠ y.1 := by
  intro hrecord
  have hauth := h.inv.authentic x hx
  have hauth' := h.inv.authentic y hy
  rw [← hrecord] at hauth'
  have hxy := authentic_window hauth hauth'
  have hyx := authentic_window hauth' hauth
  have hlifetime : 0 < cacheLifetime := by decide
  rcases hapart (congrArg helloRandom hrecord) with h | h <;> omega

/-! ## The system -/

namespace Front

/-- What holds in every run; the cache is that of a proxy that handles record after record. -/
structure Sound (P : Primitives) (mac : Mac) (secret : Block 16) (epoch : Nat) (s : Front) :
    Prop where
  flows : ∀ c ∈ s.conns, Flows P mac secret epoch s.config c c.verdict c.stage
  onTime : ∀ c ∈ s.conns, c.OnTime s.config s.clock
  hellos : ∃ hellos, HelloSound mac secret epoch hellos ∧ hellos.cache = s.shared.cache ∧
    hellos.clock ≤ s.clock ∧ hellos.accepted.Perm (s.conns.filterMap (·.verdict.greeted))
  masked : s.shared.stats.connectionsMasked = tally (·.verdict.isMasked.toNat) s.conns

variable {s t : Front} {action : FrontAction}

/-- What a step of the proxy does: time passes, a connection comes, or one of them moves. -/
theorem step_cases (h : Front.step P mac secret epoch s action = some t) :
    (∃ d, action = .tick d ∧ (∀ c ∈ s.conns, c.waits (s.clock + d) = true) ∧
      t = { s with clock := s.clock + d }) ∨
    (∃ input host, action = .accept input host ∧
      t = { s with conns := s.conns ++ [.accepted s.clock input host] }) ∨
    ∃ i answer c r, action = .conn i answer ∧ s.conns[i]? = some c ∧
      stepConn P mac secret epoch s.config s.clock c s.shared answer = some r ∧
      t = { s with shared := r.1, conns := s.conns.set i r.2 } := by
  cases action with
  | tick d =>
    obtain ⟨hwaits, h⟩ := Option.ite_none_right_eq_some.mp h
    exact .inl ⟨d, rfl, List.all_eq_true.mp hwaits, (Option.some.inj h).symm⟩
  | accept input host => exact .inr (.inl ⟨input, host, rfl, (Option.some.inj h).symm⟩)
  | conn i answer =>
    obtain ⟨c, hc, h⟩ := Option.bind_eq_some_iff.mp h
    obtain ⟨r, hstep, rfl⟩ := Option.map_eq_some_iff.mp h
    exact .inr (.inr ⟨i, answer, c, r, rfl, hc, hstep, rfl⟩)

private theorem sound_accept (h : s.Sound P mac secret epoch) (input host : Source) :
    Sound P mac secret epoch { s with conns := s.conns ++ [.accepted s.clock input host] } where
  flows := List.forall_mem_append.mpr
    ⟨h.flows, List.forall_mem_singleton.mpr (.opening _ rfl rfl rfl rfl)⟩
  onTime := List.forall_mem_append.mpr
    ⟨h.onTime, List.forall_mem_singleton.mpr ⟨Nat.le_add_right .., Nat.le_refl _⟩⟩
  hellos := by
    obtain ⟨hellos, hsound, hcache, hclock, haccepted⟩ := h.hellos
    refine ⟨hellos, hsound, hcache, hclock, ?_⟩
    rw [List.filterMap_append]
    exact (List.append_nil _).symm ▸ haccepted
  masked := by
    rw [tally_append]
    exact h.masked

/-- A move of one connection keeps all of them sound. -/
theorem sound_conn (h : s.Sound P mac secret epoch) {i : Nat} {answer : FrontAnswer}
    {c : FrontConn} {r : FrontResult} (hc : s.conns[i]? = some c)
    (hstep : stepConn P mac secret epoch s.config s.clock c s.shared answer = some r) :
    Sound P mac secret epoch { s with shared := r.1, conns := s.conns.set i r.2 } := by
  have hmem := List.mem_of_getElem? hc
  have hflows := h.flows c hmem
  have hset {Q : FrontConn → Prop} (hall : ∀ c ∈ s.conns, Q c) (hr : Q r.2) :
      ∀ c ∈ s.conns.set i r.2, Q c := fun c hc =>
    (List.mem_or_eq_of_mem_set hc).elim (hall c) fun hc => hc ▸ hr
  have hmasked := tally_set (fun c : FrontConn => c.verdict.isMasked.toNat) hc r.2
  have hbefore := h.masked
  obtain ⟨hellos, hsound, hcache, hclock, haccepted⟩ := h.hellos
  refine ⟨hset h.flows (follows_stepConn hflows hstep).flows,
    hset h.onTime (onTime_stepConn (h.onTime c hmem) hstep), ?_, ?_⟩
  · cases shares_stepConn hflows hstep with
    | keeps hsame hverdict _ =>
      refine ⟨hellos, hsound, hcache.trans hsame.symm, hclock, ?_⟩
      rwa [filterMap_set_eq hc hverdict.1]
    | answers hverify hunknown hverdict _ =>
      -- the proxy that handles one record after the other takes the same step
      have hnext := step_of_answered hclock (hcache.symm ▸ hverify)
      refine ⟨_, hsound.step hnext, rfl, Nat.le_refl _, ?_⟩
      refine .trans (.cons _ haccepted) (filterMap_set_perm hc ?_ ?_).symm
      · rw [hunknown]
        rfl
      · rw [hverdict]
        rfl
    | masks hverify hunknown hverdict _ =>
      have hnext := step_of_refused hclock (hcache.symm ▸ hverify)
      refine ⟨_, hsound.step hnext, rfl, Nat.le_refl _, ?_⟩
      rw [filterMap_set_eq hc (by rw [hunknown, hverdict]; rfl)]
      exact haccepted
  · cases shares_stepConn hflows hstep with
    | keeps _ hverdict hsame =>
      rw [hverdict.2] at hmasked
      dsimp only
      omega
    | answers _ hunknown hverdict hsame =>
      have hold : c.verdict.isMasked.toNat = 0 := by rw [hunknown]; rfl
      have hnew : r.2.verdict.isMasked.toNat = 0 := by rw [hverdict]; rfl
      dsimp only
      omega
    | masks _ hunknown hverdict hsame =>
      have hold : c.verdict.isMasked.toNat = 0 := by rw [hunknown]; rfl
      have hnew : r.2.verdict.isMasked.toNat = 1 := by rw [hverdict]; rfl
      dsimp only
      omega

/-- Every step keeps the connections sound. -/
theorem sound_step (h : s.Sound P mac secret epoch)
    (hstep : Front.step P mac secret epoch s action = some t) : t.Sound P mac secret epoch := by
  obtain ⟨d, -, hwaits, rfl⟩ | ⟨input, host, -, rfl⟩ | ⟨i, answer, c, r, -, hc, hown, rfl⟩ :=
    step_cases hstep
  · refine ⟨h.flows, fun c hc => (h.onTime c hc).tick (hwaits c hc), ?_, h.masked⟩
    obtain ⟨hellos, hsound, hcache, hclock, haccepted⟩ := h.hellos
    exact ⟨hellos, hsound, hcache, Nat.le_trans hclock (Nat.le_add_right ..), haccepted⟩
  · exact sound_accept h input host
  · exact sound_conn h hc hown

/-- In every run the connections are sound. -/
theorem sound_reachable (h : (frontSystem P mac secret epoch).Reachable s) :
    s.Sound P mac secret epoch := by
  refine h.invariant (fun s hs => ?_) fun s action t hs hstep => ?_
  · have hs : s = { config := s.config } := hs
    rw [hs]
    exact ⟨List.forall_mem_nil _, List.forall_mem_nil _,
      ⟨{}, ⟨helloInv_start, .nil⟩, rfl, Nat.le_refl _, .nil⟩, rfl⟩
  · exact sound_step hs hstep

end Front

variable {s : Front}

/-- What the peers of a proxy and its fake domain are sent, in every run; and what `connect` is
called for. -/
theorem frontTransparent (h : (frontSystem P mac secret epoch).Reachable s) {c : FrontConn}
    (hc : c ∈ s.conns) :
    Exposed mac secret epoch s.config c c.verdict ∧
      ∀ handshake dc media test, c.stage = .connecting handshake dc media test →
        Admitted P secret s.config c c.verdict handshake dc media test ∧
          (s.config.fakeTlsDomain ≠ "" → ∃ record time, c.verdict = .hello record time) := by
  have hflows := (Front.sound_reachable h).flows c hc
  refine ⟨hflows.exposed, fun handshake dc media test hstage => ?_⟩
  rw [hstage] at hflows
  generalize c.verdict = verdict at hflows
  cases hflows with
  | connecting hexposed hadmitted =>
    refine ⟨hadmitted, fun hdomain => ?_⟩
    obtain ⟨block, -, hcarries⟩ := hadmitted.parsed
    cases hcarries with
    | hello => exact ⟨_, _, rfl⟩
    | plain =>
      cases hexposed with
      | plain hnone => exact absurd hnone hdomain

/-- A proxy that poses as a site. -/
def posingConfig : Config := { fakeTlsDomain := "example.com" }

/-- A ClientHello that does not authenticate. -/
def probe : Bytes := [0x16, 3, 1, 0, 38, 1] ++ List.replicate 37 7

/-- A probe is passed on and answered by the site, and two clients are greeted. -/
def posingRun : List FrontAction := [
  .accept ⟨probe ++ [1, 2], []⟩ ⟨[5, 6, 7], []⟩, .conn 0 (.opened ⟨List.replicate 32 9, rfl⟩ []),
  .conn 0 .connected, .conn 0 (.wrote 43), .conn 0 (.copyRead false), .conn 0 (.copyWrote false 2),
  .conn 0 .woke, .tick (seconds 1), .accept ⟨zeroHello 0, []⟩ ⟨[], []⟩,
  .accept ⟨zeroHello 1, []⟩ ⟨[], []⟩, .conn 2 (.opened ⟨List.replicate 32 9, rfl⟩ []),
  .conn 1 (.opened ⟨List.replicate 32 9, rfl⟩ [])]

private theorem start_posingConfig :
    (frontSystem repeatingKey zeroMac ⟨List.replicate 16 1, rfl⟩ 0).start
      { config := posingConfig } := rfl

/-- A run with a masked probe and two ClientHellos that are answered. -/
theorem posingRun_ends :
    ∃ s c₀ c₁ c₂, (frontSystem repeatingKey zeroMac ⟨List.replicate 16 1, rfl⟩ 0).run
        { config := posingConfig } posingRun = some s ∧ s.conns = [c₀, c₁, c₂] ∧
      (c₀.verdict = .masked probe ∧ c₀.toPeer = [5, 6] ∧ c₀.stage.left = false) ∧
      (c₁.verdict = .hello (zeroHello 0) (seconds 1) ∧ c₁.stage.left = false) ∧
      c₂.verdict = .hello (zeroHello 1) (seconds 1) := by
  obtain ⟨s, hrun, hcheck⟩ :=
    (frontSystem repeatingKey zeroMac ⟨List.replicate 16 1, rfl⟩ 0).exists_of_run
      { config := posingConfig } posingRun
      (fun s => s.conns.map (fun c => (c.verdict, c.toPeer, c.stage.left)) =
        [(.masked probe, [5, 6], false), (.hello (zeroHello 0) (seconds 1), [], false),
          (.hello (zeroHello 1) (seconds 1), [], false)]) (by decide +kernel)
  have hconns := of_decide_eq_true hcheck
  obtain ⟨c₀, rest, hc, h₀, hconns⟩ := List.map_eq_cons_iff.mp hconns
  obtain ⟨c₁, rest, rfl, h₁, hconns⟩ := List.map_eq_cons_iff.mp hconns
  obtain ⟨c₂, rest, rfl, h₂, hconns⟩ := List.map_eq_cons_iff.mp hconns
  obtain rfl := List.map_eq_nil_iff.mp hconns
  simp only [Prod.mk.injEq] at h₀ h₁ h₂
  exact ⟨s, c₀, c₁, c₂, hrun, hc, h₀, ⟨h₁.1, h₁.2.2⟩, h₂.1⟩

/-- The masked probe of the run has what the fake domain said. -/
theorem frontTransparent_probed :
    ∃ s c, (frontSystem repeatingKey zeroMac ⟨List.replicate 16 1, rfl⟩ 0).run
        { config := posingConfig } posingRun = some s ∧ s.conns[0]? = some c ∧ c.toPeer = [5, 6] ∧
      Exposed zeroMac ⟨List.replicate 16 1, rfl⟩ 0 s.config c (.masked probe) := by
  obtain ⟨s, c, c₁, c₂, hrun, hconns, ⟨hverdict, hpeer, -⟩, -, -⟩ := posingRun_ends
  have hexposed := (frontTransparent (System.Reachable.run (.start start_posingConfig) hrun)
    (hconns ▸ List.mem_cons_self : c ∈ s.conns)).1
  exact ⟨s, c, hrun, by rw [hconns]; rfl, hpeer, hverdict ▸ hexposed⟩

/-- A ClientHello is answered on one connection only, its random on no other for a lifetime; and the
connections that are masked are counted. -/
theorem helloAnsweredOnce (h : (frontSystem P mac secret epoch).Reachable s) :
    s.shared.cache.length ≤ cacheCapacity ∧
      s.shared.stats.connectionsMasked = tally (·.verdict.isMasked.toNat) s.conns ∧
      ∀ (i j : Nat) (ci cj : FrontConn) (record record' : Bytes) (time time' : Nat), i < j →
        s.conns[i]? = some ci → s.conns[j]? = some cj → ci.verdict = .hello record time →
        cj.verdict = .hello record' time' →
          record ≠ record' ∧ RandomsApart (record, time) (record', time') := by
  have hs := Front.sound_reachable h
  obtain ⟨hellos, hsound, hcache, -, haccepted⟩ := hs.hellos
  refine ⟨hcache ▸ hsound.inv.bounded, hs.masked, ?_⟩
  intro i j ci cj record record' time time' hij hi hj hci hcj
  have hpairs :=
    List.pairwise_filterMap.mp ((haccepted.pairwise_iff fun h => Std.Symm.symm _ _ h).mp
    hsound.apart)
  obtain ⟨hilt, rfl⟩ := List.getElem?_eq_some_iff.mp hi
  obtain ⟨hjlt, rfl⟩ := List.getElem?_eq_some_iff.mp hj
  have hapart := List.pairwise_iff_getElem.mp hpairs i j hilt hjlt hij (record, time)
    (by rw [hci]; rfl) (record', time') (by rw [hcj]; rfl)
  have hmem {k : Nat} {x : Bytes × Nat} (hk : k < s.conns.length)
      (hx : s.conns[k].verdict.greeted = some x) : x ∈ hellos.accepted :=
    haccepted.symm.subset (List.mem_filterMap.mpr ⟨_, List.getElem_mem hk, hx⟩)
  exact ⟨hsound.ne_of_apart (hmem hilt (by rw [hci]; rfl)) (hmem hjlt (by rw [hcj]; rfl)) hapart,
    hapart⟩

/-- The two answered records of the run, and the connection that is counted. -/
theorem helloAnsweredOnce_probed :
    ∃ s, (frontSystem repeatingKey zeroMac ⟨List.replicate 16 1, rfl⟩ 0).run
        { config := posingConfig } posingRun = some s ∧ s.shared.stats.connectionsMasked = 1 ∧
      RandomsApart (zeroHello 0, seconds 1) (zeroHello 1, seconds 1) := by
  obtain ⟨s, c₀, c₁, c₂, hrun, hconns, ⟨h₀, -⟩, ⟨h₁, -⟩, h₂⟩ := posingRun_ends
  obtain ⟨-, hmasked, honce⟩ :=
    helloAnsweredOnce (System.Reachable.run (.start start_posingConfig) hrun)
  have hapart :=
    honce 1 2 c₁ c₂ _ _ _ _ (by decide) (by rw [hconns]; rfl) (by rw [hconns]; rfl) h₁ h₂
  refine ⟨s, hrun, ?_, hapart.2⟩
  rw [hmasked, hconns]
  simp [tally, h₀, h₁, h₂, Verdict.isMasked]

/-- A connection that does not get to `connect` is over in bounded time: twenty seconds, or for a
masked one, the idle limit behind the last byte that was read. -/
theorem frontEnds (h : (frontSystem P mac secret epoch).Reachable s) {c : FrontConn}
    (hc : c ∈ s.conns) (hleft : c.stage.left = false) :
    (c.verdict.isMasked = false → s.clock ≤ c.began + seconds 20) ∧
      ((∀ copies, c.stage ≠ .masking copies) →
        s.clock ≤ c.began + seconds 20 + s.config.connectLimit + s.config.idleLimit) ∧
      ∀ copies, c.stage = .masking copies →
        copies.last ≤ s.clock ∧ s.clock ≤ copies.last + s.config.idleLimit := by
  have hs := Front.sound_reachable h
  have hflows := hs.flows c hc
  have htime := hs.onTime c hc
  have hten : c.began + seconds 10 ≤ c.began + seconds 20 := Nat.add_le_add_left (by decide) _
  unfold FrontConn.OnTime at htime
  generalize c.verdict = verdict at hflows ⊢
  generalize c.stage = stage at hflows htime hleft ⊢
  have hsoon (hnow : s.clock ≤ c.began + seconds 20) (hnot : ∀ copies, stage ≠ .masking copies) :
      (verdict.isMasked = false → s.clock ≤ c.began + seconds 20) ∧
        ((∀ copies, stage ≠ .masking copies) →
          s.clock ≤ c.began + seconds 20 + s.config.connectLimit + s.config.idleLimit) ∧
        ∀ copies, stage = .masking copies →
          copies.last ≤ s.clock ∧ s.clock ≤ copies.last + s.config.idleLimit :=
    ⟨fun _ => hnow, fun _ => by omega, fun copies h => absurd h (hnot copies)⟩
  cases hflows with
  | opening expiry =>
    exact hsoon (Nat.le_trans htime.1 (Nat.le_trans htime.2 hten)) (fun copies h => by cases h)
  | greeting expiry | tlsHandshake expiry | redirecting expiry | plainHandshake expiry =>
    exact hsoon (Nat.le_trans htime.1 htime.2) (fun copies h => by cases h)
  | maskConnect hello expiry | maskHello left expiry =>
    exact ⟨(fun h => by cases h), (fun _ => by omega), (fun copies h => by cases h)⟩
  | @masking _ copies =>
    refine ⟨(fun h => by cases h), fun hnot => absurd rfl (hnot copies), fun copies' h => ?_⟩
    cases h
    exact ⟨htime.1, Nat.le_trans htime.2.1 htime.2.2.1⟩
  | connecting | closed | failed | gone => cases hleft

/-- The first answered connection of the run was over in its twenty seconds. -/
theorem frontEnds_probed :
    ∃ s c, (frontSystem repeatingKey zeroMac ⟨List.replicate 16 1, rfl⟩ 0).run
        { config := posingConfig } posingRun = some s ∧ s.conns[1]? = some c ∧
      s.clock ≤ c.began + seconds 20 := by
  obtain ⟨s, c₀, c, c₂, hrun, hconns, -, ⟨hverdict, hleft⟩, -⟩ := posingRun_ends
  have hends := frontEnds (System.Reachable.run (.start start_posingConfig) hrun)
    (by simp [hconns] : c ∈ s.conns) hleft
  exact ⟨s, c, hrun, by rw [hconns]; rfl, hends.1 (by rw [hverdict]; rfl)⟩

end TgWsProxy
