import Mathlib.Data.List.Pairwise
import TgWsProxy.Core.Transition
import TgWsProxy.Io

/-!
# ClientHello authentication and its replay cache

`authenticate` of `fake_tls.rs` over any MAC, and the verify-and-cache section of
`initial` in `proxy.rs`. That section has no await and the runtime has one thread,
so one record is one step; its clock readings agree, and the wall clock runs with
the monotonic one. The log of accepted records is kept beside the cache.
-/

namespace TgWsProxy

open TgWsProxy.Core

/-- A MAC of a key and a message. -/
abbrev Mac := Bytes → Bytes → Block 32

/-- What `authenticate` returns. -/
structure ClientHello where
  clientRandom : Bytes
  sessionId : Bytes
  deriving DecidableEq

/-- How far a timestamp may lie from the wall clock, in seconds. -/
def timestampTolerance : Nat := 120

/-- `u32::from_le_bytes`. -/
def fromLe32 (b : Bytes) : Nat :=
  (b.getD 0 0).toNat + 256 * (b.getD 1 0).toNat + 65536 * (b.getD 2 0).toNat +
    16777216 * (b.getD 3 0).toNat

/-- `u64::abs_diff`. -/
def absDiff (a b : Nat) : Nat := if a < b then b - a else a - b

private theorem absDiff_comm (a b : Nat) : absDiff a b = absDiff b a := by
  simp only [absDiff]
  grind

/-- The client random of a record. -/
def helloRandom (data : Bytes) : Bytes := slice data 11 43

/-- The MAC of a record whose random is zeroed. -/
def helloMac (mac : Mac) (secret : Block 16) (data : Bytes) : Bytes :=
  (mac secret.val (data.take 11 ++ List.replicate 32 0 ++ data.drop 43)).val

/-- The timestamp hidden in the last four random bytes. -/
def helloTimestamp (mac : Mac) (secret : Block 16) (data : Bytes) : Nat :=
  fromLe32 (List.zipWith (· ^^^ ·) ((helloRandom data).drop 28)
    ((helloMac mac secret data).drop 28))

/-- Check shape, authenticator and timestamp of a record at wall-clock second `now`. -/
def authenticate (mac : Mac) (data : Bytes) (secret : Block 16) (now : Nat) :
    Except IoError ClientHello :=
  if data.length < 43 ∨ data.getD 0 0 ≠ 0x16 ∨ data.getD 5 0 ≠ 1 then
    .error (invalid "invalid Fake TLS ClientHello")
  else if (helloMac mac secret data).take 28 ≠ (helloRandom data).take 28 then
    .error ⟨.permissionDenied, "invalid Fake TLS authentication"⟩
  else if absDiff now (helloTimestamp mac secret data) > timestampTolerance then
    .error ⟨.permissionDenied, "expired Fake TLS ClientHello"⟩
  else
    .ok ⟨helloRandom data,
      if data.length ≥ 76 ∧ data.getD 43 0 = 32 then slice data 44 76 else List.replicate 32 0⟩

/-- A record that authenticates carries its own random and a timestamp in tolerance. -/
theorem authenticate_ok {mac : Mac} {data : Bytes} {secret : Block 16} {now : Nat}
    {hello : ClientHello} (h : authenticate mac data secret now = .ok hello) :
    hello.clientRandom = helloRandom data ∧
      absDiff now (helloTimestamp mac secret data) ≤ timestampTolerance := by
  unfold authenticate at h
  split at h
  · cases h
  · split at h
    · cases h
    · split at h
      · cases h
      · next htime =>
        cases h
        exact ⟨rfl, Nat.not_lt.mp htime⟩

/-! ## The verify-and-cache step -/

/-- The randoms of recent handshakes and when they were stored. -/
abbrev ReplayCache := List (Bytes × Nat)

/-- How long an entry stays. -/
def cacheLifetime : Nat := seconds 300

/-- How many entries the cache takes. -/
def cacheCapacity : Nat := 4096

/-- Drop the entries past their lifetime. -/
def ReplayCache.retained (cache : ReplayCache) (now : Nat) : ReplayCache :=
  cache.filter fun entry => now - entry.2 < cacheLifetime

/-- Authenticate a record, refuse a known random, and remember a new one. -/
def verifyAndCache (mac : Mac) (secret : Block 16) (cache : ReplayCache) (now : Nat)
    (wall : Nat) (data : Bytes) : Except IoError ClientHello × ReplayCache :=
  match authenticate mac data secret wall with
  | .error e => (.error e, cache)
  | .ok hello =>
    let cache := cache.retained now
    if cache.any (·.1 = hello.clientRandom) then (.error (invalid "replayed ClientHello"), cache)
    else if cache.length ≥ cacheCapacity then
      (.error (invalid "ClientHello replay cache full"), cache)
    else (.ok hello, (hello.clientRandom, now) :: cache)

/-- One proxy instance: its cache, its clock, and the records accepted so far. -/
structure HelloState where
  cache : ReplayCache := []
  clock : Nat := 0
  accepted : List (Bytes × Nat) := []
  deriving DecidableEq

/-- A record and the time it is handled at. -/
structure Arrival where
  record : Bytes
  time : Nat

/-- The wall-clock second of a monotonic reading, for a proxy started at `epoch`. -/
def wallSeconds (epoch : Nat) (time : Nat) : Nat := (epoch + time) / 1000000000

variable (mac : Mac) (secret : Block 16) (epoch : Nat)

/-- Handle one record; arrivals come in the order of time. -/
def HelloState.step (s : HelloState) (a : Arrival) : Option HelloState :=
  if a.time < s.clock then none
  else
    let (outcome, cache) :=
      verifyAndCache mac secret s.cache a.time (wallSeconds epoch a.time) a.record
    some ⟨cache, a.time,
      match outcome with
      | .ok _ => (a.record, a.time) :: s.accepted
      | .error _ => s.accepted⟩

/-- The runs of one proxy instance. -/
def helloSystem : System HelloState Arrival := ⟨fun s => s = {}, HelloState.step mac secret epoch⟩

/-- The record passes `authenticate` at its time of arrival. -/
def Authentic (a : Arrival) : Prop :=
  ∃ hello, authenticate mac a.record secret (wallSeconds epoch a.time) = .ok hello

variable {mac secret epoch}

/-- A refused record leaves nothing new in the cache. -/
theorem verifyAndCache_refused {cache : ReplayCache} {now : Nat} {wall : Nat} {data : Bytes}
    {e : IoError} (h : (verifyAndCache mac secret cache now wall data).1 = .error e) :
    (verifyAndCache mac secret cache now wall data).2.Sublist cache := by
  unfold verifyAndCache at h ⊢
  split
  · exact List.Sublist.refl _
  · dsimp only at h ⊢
    split
    · exact List.filter_sublist
    · split
      · exact List.filter_sublist
      · simp_all

/-- What a step can do: refuse and at most expire entries, or accept an authentic
record whose random no retained entry has, while there is room. -/
theorem HelloState.step_cases {s t : HelloState} {a : Arrival}
    (h : (helloSystem mac secret epoch).step s a = some t) :
    s.clock ≤ a.time ∧
      ((t.accepted = s.accepted ∧ t.clock = a.time ∧
          (t.cache = s.cache ∨ t.cache = s.cache.retained a.time)) ∨
        (t = ⟨(helloRandom a.record, a.time) :: s.cache.retained a.time, a.time,
            (a.record, a.time) :: s.accepted⟩ ∧
          Authentic mac secret epoch a ∧
          (∀ entry ∈ s.cache.retained a.time, entry.1 ≠ helloRandom a.record) ∧
          (s.cache.retained a.time).length < cacheCapacity)) := by
  simp only [helloSystem, HelloState.step] at h
  split at h
  · cases h
  · next hclock =>
    refine ⟨Nat.not_lt.mp hclock, ?_⟩
    unfold verifyAndCache at h
    split at h
    · cases h
      exact Or.inl ⟨rfl, rfl, Or.inl rfl⟩
    · next hello hauth =>
      dsimp only at h
      split at h
      · cases h
        exact Or.inl ⟨rfl, rfl, Or.inr rfl⟩
      · next hnew =>
        split at h
        · cases h
          exact Or.inl ⟨rfl, rfl, Or.inr rfl⟩
        · next hroom =>
          cases h
          rw [(authenticate_ok hauth).1] at hnew ⊢
          refine Or.inr ⟨rfl, ⟨hello, hauth⟩, fun entry he heq => ?_, Nat.not_le.mp hroom⟩
          exact hnew (List.any_eq_true.mpr ⟨entry, he, decide_eq_true heq⟩)

/-- An authentic record with a new random is accepted while there is room. -/
theorem HelloState.step_accepts {s : HelloState} {a : Arrival} (hclock : s.clock ≤ a.time)
    (hauth : Authentic mac secret epoch a)
    (hnew : ∀ entry ∈ s.cache.retained a.time, entry.1 ≠ helloRandom a.record)
    (hroom : (s.cache.retained a.time).length < cacheCapacity) :
    (helloSystem mac secret epoch).step s a =
      some ⟨(helloRandom a.record, a.time) :: s.cache.retained a.time, a.time,
        (a.record, a.time) :: s.accepted⟩ := by
  obtain ⟨hello, hauth⟩ := hauth
  have hany : ((s.cache.retained a.time).any (·.1 = helloRandom a.record)) = false := by
    simpa only [List.any_eq_false, decide_eq_true_eq] using hnew
  simp only [helloSystem, HelloState.step, Nat.not_lt.mpr hclock, if_false, verifyAndCache, hauth,
    (authenticate_ok hauth).1, hany, Nat.not_le.mpr hroom, Bool.false_eq_true]

private theorem ReplayCache.mem_retained {cache : ReplayCache} {now : Nat} {entry : Bytes × Nat} :
    entry ∈ cache.retained now ↔ entry ∈ cache ∧ now - entry.2 < cacheLifetime := by
  simp [retained]

/-- The cache is the part of the log that has not expired, or a little more. -/
structure HelloInv (mac : Mac) (secret : Block 16) (epoch : Nat) (s : HelloState) : Prop where
  /-- Accepted records lie in the past. -/
  past : ∀ x ∈ s.accepted, x.2 ≤ s.clock
  /-- They were authentic when they arrived. -/
  authentic : ∀ x ∈ s.accepted, Authentic mac secret epoch ⟨x.1, x.2⟩
  /-- Their randoms are kept for the lifetime. -/
  kept : ∀ x ∈ s.accepted, s.clock - x.2 < cacheLifetime → (helloRandom x.1, x.2) ∈ s.cache
  /-- Nothing else is. -/
  logged : ∀ entry ∈ s.cache, ∃ x ∈ s.accepted, entry = (helloRandom x.1, x.2)
  /-- The cache stays within its capacity. -/
  bounded : s.cache.length ≤ cacheCapacity

/-- What is kept so far is kept by an expiry, as long as its lifetime lasts. -/
theorem HelloInv.kept_retained {s : HelloState} (h : HelloInv mac secret epoch s) {now : Nat}
    (hnow : s.clock ≤ now) {x : Bytes × Nat} (hx : x ∈ s.accepted)
    (hage : now - x.2 < cacheLifetime) : (helloRandom x.1, x.2) ∈ s.cache.retained now :=
  ReplayCache.mem_retained.mpr ⟨h.kept x hx (by omega), hage⟩

/-- Every arrival keeps the invariant. -/
theorem helloInv_step {s t : HelloState} {a : Arrival} (h : HelloInv mac secret epoch s)
    (hst : (helloSystem mac secret epoch).step s a = some t) : HelloInv mac secret epoch t := by
  obtain ⟨hclock, ⟨hacc, htime, hcache⟩ | ⟨rfl, hauth, _, hroom⟩⟩ := HelloState.step_cases hst
  · have hsub : ∀ entry ∈ t.cache, entry ∈ s.cache := by
      rcases hcache with hcache | hcache <;> rw [hcache]
      · exact fun _ he => he
      · exact fun _ he => (ReplayCache.mem_retained.mp he).1
    refine ⟨?_, ?_, ?_, ?_, ?_⟩
    · rw [hacc, htime]
      exact fun x hx => Nat.le_trans (h.past x hx) hclock
    · rw [hacc]
      exact h.authentic
    · rw [hacc, htime]
      intro x hx hage
      rcases hcache with hcache | hcache <;> rw [hcache]
      · exact h.kept x hx (by omega)
      · exact h.kept_retained hclock hx hage
    · rw [hacc]
      exact fun entry he => h.logged entry (hsub entry he)
    · rcases hcache with hcache | hcache <;> rw [hcache]
      · exact h.bounded
      · exact Nat.le_trans (List.length_filter_le ..) h.bounded
  · refine ⟨?_, ?_, ?_, ?_, hroom⟩
    · exact List.forall_mem_cons.mpr ⟨Nat.le_refl _, fun x hx => Nat.le_trans (h.past x hx) hclock⟩
    · exact List.forall_mem_cons.mpr ⟨hauth, h.authentic⟩
    · refine List.forall_mem_cons.mpr ⟨fun _ => List.mem_cons_self .., fun x hx hage => ?_⟩
      exact List.mem_cons_of_mem _ (h.kept_retained hclock hx hage)
    · refine List.forall_mem_cons.mpr ⟨⟨_, List.mem_cons_self .., rfl⟩, fun entry he => ?_⟩
      obtain ⟨x, hx, rfl⟩ := h.logged entry (ReplayCache.mem_retained.mp he).1
      exact ⟨x, List.mem_cons_of_mem _ hx, rfl⟩

/-- The invariant holds of an empty cache. -/
theorem helloInv_start : HelloInv mac secret epoch {} := by
  constructor <;> simp

/-! ## Exact replay -/

/-- A record authentic at two times was authentic within a cache lifetime. -/
theorem authentic_window {record : Bytes} {t t' : Nat}
    (h : Authentic mac secret epoch ⟨record, t⟩) (h' : Authentic mac secret epoch ⟨record, t'⟩) :
    t - t' < cacheLifetime := by
  obtain ⟨_, h⟩ := h
  obtain ⟨_, h'⟩ := h'
  have hlate := (authenticate_ok h).2
  have hearly := (authenticate_ok h').2
  simp only [absDiff, timestampTolerance, wallSeconds] at hlate hearly
  simp only [cacheLifetime, seconds]
  grind

/-- One record is never accepted twice, the cache stays within its capacity, and a
refused record adds nothing to it. -/
theorem exact_replay_rejected {s : HelloState}
    (h : (helloSystem mac secret epoch).Reachable s) :
    (s.accepted.map (·.1)).Nodup ∧ s.cache.length ≤ cacheCapacity ∧
      ∀ (a : Arrival) e,
        (verifyAndCache mac secret s.cache a.time (wallSeconds epoch a.time) a.record).1 =
        .error e →
        (verifyAndCache mac secret s.cache a.time (wallSeconds epoch a.time) a.record).2.Sublist
          s.cache := by
  have hinv : ∀ s, (helloSystem mac secret epoch).Reachable s → HelloInv mac secret epoch s :=
    fun s => System.Reachable.invariant (fun _ hs => hs ▸ helloInv_start)
      fun _ _ _ => helloInv_step
  refine ⟨?_, (hinv s h).bounded, fun a e => verifyAndCache_refused⟩
  refine h.strengthen (P := fun s => (s.accepted.map (·.1)).Nodup) hinv
    (fun _ hs => hs ▸ List.nodup_nil) fun s a t hs hnodup hst => ?_
  obtain ⟨hclock, ⟨hacc, _⟩ | ⟨rfl, hauth, hnew, _⟩⟩ := HelloState.step_cases hst
  · rwa [hacc]
  · refine List.nodup_cons.mpr ⟨fun hmem => ?_, hnodup⟩
    obtain ⟨⟨record, time⟩, hx, rfl⟩ := List.mem_map.mp hmem
    -- the earlier acceptance is still cached, so its random would have been found
    have hage := authentic_window hauth (hs.authentic _ hx)
    exact hnew _ (hs.kept_retained hclock hx hage) rfl

/-- The MAC that is always zero. -/
def zeroMac : Mac := fun _ _ => ⟨List.replicate 32 0, rfl⟩

/-- A 43-byte ClientHello that is authentic under `zeroMac` around second `timestamp`. -/
def zeroHello (timestamp : UInt8) : Bytes :=
  [0x16, 3, 1, 0, 38, 1, 0, 0, 34, 3, 3] ++ List.replicate 28 0 ++ [timestamp, 0, 0, 0]

/-- One hello arrives within its cache lifetime and after it, and is accepted once. -/
theorem exact_replay_rejected_once :
    ∃ s, (helloSystem zeroMac ⟨List.replicate 16 1, rfl⟩ 0).run {}
        [⟨zeroHello 0, seconds 5⟩, ⟨zeroHello 0, seconds 6⟩, ⟨zeroHello 0, seconds 306⟩] = some s ∧
      s.accepted.length = 1 ∧ (s.accepted.map (·.1)).Nodup ∧ s.cache.length ≤ cacheCapacity := by
  have hrun : (helloSystem zeroMac ⟨List.replicate 16 1, rfl⟩ 0).run {}
      [⟨zeroHello 0, seconds 5⟩, ⟨zeroHello 0, seconds 6⟩, ⟨zeroHello 0, seconds 306⟩] =
        some ⟨[(helloRandom (zeroHello 0), seconds 5)], seconds 306,
          [(zeroHello 0, seconds 5)]⟩ := by
    decide
  obtain ⟨hnodup, hbounded, _⟩ :=
    exact_replay_rejected (System.Reachable.run (System.Reachable.start rfl) hrun)
  exact ⟨_, hrun, rfl, hnodup, hbounded⟩

/-! ## Altered replay -/

/-- The part of the random that is compared with the MAC. -/
def authenticator (record : Bytes) : Bytes := (helloRandom record).take 28

/-- No two records accepted within the cache lifetime share their authenticator. -/
def NoSharedAuthenticator (accepted : List (Bytes × Nat)) : Prop :=
  accepted.Pairwise fun x y =>
    absDiff x.2 y.2 < cacheLifetime → authenticator x.1 ≠ authenticator y.1

/-- If the record is authentic and there is room for it, no unexpired entry has its
authenticator with other timestamp bytes. -/
def TimestampUntouched (mac : Mac) (secret : Block 16) (epoch : Nat) (s : HelloState)
    (a : Arrival) : Prop :=
  Authentic mac secret epoch a → (s.cache.retained a.time).length < cacheCapacity →
    ∀ entry ∈ s.cache.retained a.time,
      entry.1.take 28 = authenticator a.record → entry.1 = helloRandom a.record

instance : Std.Symm fun x y : Bytes × Nat =>
    absDiff x.2 y.2 < cacheLifetime → authenticator x.1 ≠ authenticator y.1 where
  symm x y h hage := (h (absDiff_comm x.2 y.2 ▸ hage)).symm

/-- Entries of a good log that share an authenticator and have not expired are the same. -/
theorem eq_of_authenticator {s : HelloState} (h : HelloInv mac secret epoch s)
    (hgood : NoSharedAuthenticator s.accepted) {now : Nat} (hnow : s.clock ≤ now)
    {x y : Bytes × Nat} (hx : x ∈ s.accepted) (hy : y ∈ s.accepted)
    (hxage : now - x.2 < cacheLifetime) (hyage : now - y.2 < cacheLifetime)
    (htag : authenticator x.1 = authenticator y.1) : x = y := by
  by_contra hne
  have hxp := h.past x hx
  have hyp := h.past y hy
  have hage : absDiff x.2 y.2 < cacheLifetime := by
    simp only [absDiff]
    split <;> omega
  exact hgood.forall hx hy hne hage htag

/-- A step from a good log keeps it good exactly when the timestamp bytes are untouched. -/
theorem noShared_step {s t : HelloState} {a : Arrival} (h : HelloInv mac secret epoch s)
    (hgood : NoSharedAuthenticator s.accepted)
    (hst : (helloSystem mac secret epoch).step s a = some t) :
    NoSharedAuthenticator t.accepted ↔ TimestampUntouched mac secret epoch s a := by
  obtain ⟨hclock, ⟨hacc, _⟩ | ⟨rfl, hauth, hnew, hroom⟩⟩ := HelloState.step_cases hst
  · rw [hacc]
    refine iff_of_true hgood fun hauth hroom entry hentry htag => ?_
    by_contra hne
    -- no retained entry has the record's random, so the step would have accepted it
    have hnew : ∀ other ∈ s.cache.retained a.time, other.1 ≠ helloRandom a.record := by
      intro other hother heq
      obtain ⟨hmem, hage⟩ := ReplayCache.mem_retained.mp hentry
      obtain ⟨hmem', hage'⟩ := ReplayCache.mem_retained.mp hother
      obtain ⟨x, hx, rfl⟩ := h.logged entry hmem
      obtain ⟨y, hy, rfl⟩ := h.logged other hmem'
      have hxy := eq_of_authenticator h hgood hclock hx hy hage hage'
        (htag.trans (congrArg (List.take 28) heq.symm))
      exact hne (hxy ▸ heq)
    rw [HelloState.step_accepts hclock hauth hnew hroom] at hst
    have hlen := congrArg List.length (Option.some.inj hst ▸ hacc)
    simp at hlen
  · have hpast (x) (hx : x ∈ s.accepted) : absDiff a.time x.2 = a.time - x.2 :=
      if_neg (Nat.not_lt.mpr (Nat.le_trans (h.past x hx) hclock))
    refine (List.pairwise_cons.trans (and_iff_left hgood)).trans ?_
    constructor
    · intro hall _ _ entry hentry htag
      obtain ⟨hmem, hage⟩ := ReplayCache.mem_retained.mp hentry
      obtain ⟨x, hx, rfl⟩ := h.logged entry hmem
      exact absurd htag.symm (hall x hx (by rwa [hpast x hx]))
    · intro huntouched x hx hage htag
      rw [hpast x hx] at hage
      have hkept := h.kept_retained hclock hx hage
      exact hnew _ hkept (huntouched hauth hroom _ hkept htag.symm)

/-- A shared authenticator stays in the log. -/
theorem noShared_of_step {s t : HelloState} {a : Arrival}
    (h : ¬NoSharedAuthenticator s.accepted)
    (hst : (helloSystem mac secret epoch).step s a = some t) :
    ¬NoSharedAuthenticator t.accepted := by
  obtain ⟨_, ⟨hacc, _⟩ | ⟨rfl, _⟩⟩ := HelloState.step_cases hst
  · rwa [hacc]
  · exact fun ht => h (List.pairwise_cons.mp ht).2

variable (mac secret epoch) in
/-- Over a whole run, authenticators are used once exactly when no authentic record
arrives with only the timestamp bytes of an unexpired one altered. -/
theorem noShared_iff_untouched {arrivals : List Arrival} {t : HelloState}
    (h : (helloSystem mac secret epoch).run {} arrivals = some t) :
    NoSharedAuthenticator t.accepted ↔
      (helloSystem mac secret epoch).Meets (TimestampUntouched mac secret epoch) {} arrivals :=
  System.run_iff_meets (fun _ _ _ => helloInv_step) (fun _ _ _ => noShared_step)
    (fun _ _ _ => noShared_of_step) helloInv_start List.Pairwise.nil h

/-- An accepted hello and its exact replay. -/
theorem noShared_iff_untouched_replay :
    NoSharedAuthenticator [(zeroHello 0, seconds 5)] ↔
      (helloSystem zeroMac ⟨List.replicate 16 1, rfl⟩ 0).Meets
        (TimestampUntouched zeroMac ⟨List.replicate 16 1, rfl⟩ 0) {}
        [⟨zeroHello 0, seconds 5⟩, ⟨zeroHello 0, seconds 6⟩] := by
  have hrun : (helloSystem zeroMac ⟨List.replicate 16 1, rfl⟩ 0).run {}
      [⟨zeroHello 0, seconds 5⟩, ⟨zeroHello 0, seconds 6⟩] =
        some ⟨[(helloRandom (zeroHello 0), seconds 5)], seconds 6,
          [(zeroHello 0, seconds 5)]⟩ := by
    decide
  exact noShared_iff_untouched zeroMac _ 0 hrun

/-- Altering byte 39 of an accepted record moves its timestamp by a second, and the
altered record is accepted as well. -/
theorem altered_hello_accepted :
    ¬∀ (mac : Mac) (secret : Block 16) (epoch : Nat) (arrivals : List Arrival) (t : HelloState),
      (helloSystem mac secret epoch).run {} arrivals = some t →
        NoSharedAuthenticator t.accepted := by
  intro h
  have hrun : (helloSystem zeroMac ⟨List.replicate 16 1, rfl⟩ 0).run {}
      [⟨zeroHello 0, seconds 5⟩, ⟨zeroHello 1, seconds 6⟩] =
        some ⟨[(helloRandom (zeroHello 1), seconds 6), (helloRandom (zeroHello 0), seconds 5)],
          seconds 6, [(zeroHello 1, seconds 6), (zeroHello 0, seconds 5)]⟩ := by
    decide
  have hbad := h _ _ _ _ _ hrun
  revert hbad
  simp only [NoSharedAuthenticator, List.pairwise_cons]
  decide

end TgWsProxy
