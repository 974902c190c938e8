import Mathlib.Algebra.Group.Nat.Defs
import Mathlib.Data.Finset.Basic
import Mathlib.Logic.Function.Basic
import TgWsProxy.Core.Transition
import TgWsProxy.Io

/-!
# The TCP fallback

`TcpAttempt` and `tcp_fallback` of `upstream.rs`. A call reads the time and then begins an
attempt under the lock; an attempt ends in `success`, in `failure` or by being dropped, and
its drop releases the destination. The log has the latest event first.
-/

namespace TgWsProxy

open TgWsProxy.Core

/-- A destination: the target and its port. -/
abbrev TcpKey := String × UInt16

/-- The three maps of `State` that TCP attempts use. -/
structure TcpState where
  tcpFailures : TcpKey → Option Nat := fun _ => none
  tcpRetryAfter : TcpKey → Option Nat := fun _ => none
  tcpConnecting : Finset TcpKey := ∅

/-- The delay after this many failures. -/
def tcpFallbackBackoff (failures : Nat) : Nat :=
  let exponent := min (failures - 1) 7
  seconds (min (30 <<< exponent) 3600)

/-- `u32::MAX`. -/
def maxFailures : Nat := 2 ^ 32 - 1

namespace TcpState

/-- `TcpAttempt::begin`. -/
def begin (st : TcpState) (key : TcpKey) (now : Nat) : Option TcpState :=
  if key ∈ st.tcpConnecting ∨ (st.tcpRetryAfter key).any (· > now) then none
  else some { st with tcpConnecting := insert key st.tcpConnecting }

/-- `TcpAttempt::success`. -/
def success (st : TcpState) (key : TcpKey) : TcpState :=
  { st with
    tcpFailures := Function.update st.tcpFailures key none
    tcpRetryAfter := Function.update st.tcpRetryAfter key none }

/-- `TcpAttempt::failure`, with the delay it returns. -/
def failure (st : TcpState) (key : TcpKey) (now : Nat) : Nat × TcpState :=
  let failures := min ((st.tcpFailures key).getD 0 + 1) maxFailures
  let delay := tcpFallbackBackoff failures
  (delay, { st with
    tcpFailures := Function.update st.tcpFailures key (some failures)
    tcpRetryAfter := Function.update st.tcpRetryAfter key (some (now + delay)) })

/-- The drop of a `TcpAttempt`. -/
def drop (st : TcpState) (key : TcpKey) : TcpState :=
  { st with tcpConnecting := st.tcpConnecting.erase key }

end TcpState

/-- Where an attempt stands. -/
inductive AttemptStage
  | connecting
  /-- Connected and the relay header sent; `success` is to come. -/
  | connected
  /-- It has failed at this time; `failure` is to come. -/
  | failed (time : Nat)
  /-- About to be dropped. -/
  | leaving
  deriving DecidableEq

/-- A live `TcpAttempt`. -/
structure TcpAttempt where
  key : TcpKey
  stage : AttemptStage

/-- What happened to the attempts of a destination. -/
inductive TcpEvent
  | began (key : TcpKey) (time : Nat)
  /-- `failure`, with the time at which the attempt ended. -/
  | failed (key : TcpKey) (time : Nat)
  | succeeded (key : TcpKey)
  deriving DecidableEq

/-- The destination of an event. -/
def TcpEvent.key : TcpEvent → TcpKey
  | began key _ | failed key _ | succeeded key => key

/-- The failures of a destination since its last success. -/
def consecutive (key : TcpKey) : List TcpEvent → Nat
  | [] => 0
  | .began _ _ :: log => consecutive key log
  | .failed k _ :: log => if k = key then consecutive key log + 1 else consecutive key log
  | .succeeded k :: log => if k = key then 0 else consecutive key log

/-- The calls of `tcp_fallback` with the state they share. -/
structure TcpCalls where
  clock : Nat := 0
  state : TcpState := {}
  /-- The calls that have read the time and not begun. -/
  entered : List (TcpKey × Nat) := []
  attempts : List TcpAttempt := []
  log : List TcpEvent := []

/-- The steps; calls and attempts are named by their positions. -/
inductive TcpAction
  | tick (elapsed : Nat)
  /-- `tcp_fallback` reads the time. -/
  | enter (key : TcpKey)
  | begin (call : Nat)
  | connect (attempt : Nat)
  /-- The attempt has failed or timed out. -/
  | fail (attempt : Nat)
  | success (attempt : Nat)
  | failure (attempt : Nat)
  /-- The call is cancelled where it awaits the connection. -/
  | cancel (attempt : Nat)
  | drop (attempt : Nat)

namespace TcpCalls

/-- Move an attempt from one stage to the next. -/
def advance (s : TcpCalls) (attempt : Nat) (a : TcpAttempt) (stage : AttemptStage) : TcpCalls :=
  { s with attempts := s.attempts.set attempt { a with stage } }

/-- The locked section of `begin`; a call that it refuses ends with `WouldBlock`. -/
def enterAttempt (s : TcpCalls) (call : Nat) (key : TcpKey) (now : Nat) : TcpCalls :=
  let s := { s with entered := s.entered.eraseIdx call }
  match s.state.begin key now with
  | none => s
  | some state =>
    { s with
      state
      attempts := s.attempts ++ [⟨key, .connecting⟩]
      log := .began key s.clock :: s.log }

/-- The effect of one step. -/
def step (s : TcpCalls) : TcpAction → Option TcpCalls
  | .tick elapsed => some { s with clock := s.clock + elapsed }
  | .enter key => some { s with entered := s.entered ++ [(key, s.clock)] }
  | .begin call => s.entered[call]?.map fun (key, now) => s.enterAttempt call key now
  | .connect attempt =>
    match s.attempts[attempt]? with
    | some ⟨key, .connecting⟩ => some (s.advance attempt ⟨key, .connecting⟩ .connected)
    | _ => none
  | .fail attempt =>
    match s.attempts[attempt]? with
    | some ⟨key, .connecting⟩ => some (s.advance attempt ⟨key, .connecting⟩ (.failed s.clock))
    | _ => none
  | .cancel attempt =>
    match s.attempts[attempt]? with
    | some ⟨key, .connecting⟩ => some (s.advance attempt ⟨key, .connecting⟩ .leaving)
    | _ => none
  | .success attempt =>
    match s.attempts[attempt]? with
    | some ⟨key, .connected⟩ =>
      some ({ s with
        state := s.state.success key
        log := .succeeded key :: s.log }.advance attempt ⟨key, .connected⟩ .leaving)
    | _ => none
  | .failure attempt =>
    match s.attempts[attempt]? with
    | some ⟨key, .failed time⟩ =>
      some ({ s with
        state := (s.state.failure key time).2
        log := .failed key time :: s.log }.advance attempt ⟨key, .failed time⟩ .leaving)
    | _ => none
  | .drop attempt =>
    match s.attempts[attempt]? with
    | some ⟨key, .leaving⟩ =>
      some { s with state := s.state.drop key, attempts := s.attempts.eraseIdx attempt }
    | _ => none

end TcpCalls

/-- The TCP fallback of an `Upstream` from its start on. -/
def tcpSystem : System TcpCalls TcpAction where
  start s := s = { clock := s.clock }
  step := TcpCalls.step

/-! ## The delays -/

/-- The delay after the `n`-th failure in a row. -/
theorem tcpFallbackBackoff_eq {n : Nat} (h : 0 < n) :
    tcpFallbackBackoff (min n maxFailures) = seconds (min (30 * 2 ^ (n - 1)) 3600) := by
  unfold tcpFallbackBackoff
  dsimp only
  rw [Nat.shiftLeft_eq]
  by_cases hsmall : n - 1 ≤ 7
  · have hexponent : min (min n maxFailures - 1) 7 = n - 1 := by
      unfold maxFailures
      omega
    rw [hexponent]
  · have hexponent : min (min n maxFailures - 1) 7 = 7 := by
      unfold maxFailures
      omega
    have hpower : 2 ^ 7 ≤ 2 ^ (n - 1) := Nat.pow_le_pow_right (by omega) (by omega)
    rw [hexponent]
    congr 1
    omega

/-- How long a destination rests after the latest failure of a log. -/
def delayAfter (key : TcpKey) (log : List TcpEvent) : Nat :=
  seconds (min (30 * 2 ^ (consecutive key log - 1)) 3600)

/-! ## The state of a destination -/

variable {st st' : TcpState} {key other : TcpKey} {now : Nat} {log : List TcpEvent}

/-- What `begin` has checked. -/
theorem begin_spec (h : st.begin key now = some st') :
    key ∉ st.tcpConnecting ∧ (∀ retry, st.tcpRetryAfter key = some retry → retry ≤ now) ∧
      st' = { st with tcpConnecting := insert key st.tcpConnecting } := by
  unfold TcpState.begin at h
  split at h
  · cases h
  · next hfree =>
    obtain ⟨hconnecting, hretry⟩ := not_or.mp hfree
    refine ⟨hconnecting, fun retry hsome => ?_, (Option.some.inj h).symm⟩
    rw [hsome] at hretry
    simpa using hretry

private theorem begin_of_connecting (h : key ∈ st.tcpConnecting) : st.begin key now = none :=
  if_pos (Or.inl h)

private theorem begin_of_retry {retry : Nat} (h : st.tcpRetryAfter key = some retry)
    (hnow : now < retry) :
    st.begin key now = none := by
  refine if_pos (Or.inr ?_)
  rw [h]
  exact decide_eq_true hnow

/-- The counts and delays that a log accounts for. -/
structure Counted (st : TcpState) (log : List TcpEvent) : Prop where
  failures : ∀ key, st.tcpFailures key =
    if consecutive key log = 0 then none else some (min (consecutive key log) maxFailures)
  rested : ∀ key, consecutive key log = 0 → st.tcpRetryAfter key = none
  /-- After a failure the delay is set until the next event of the destination. -/
  armed : ∀ key time, log.find? (·.key = key) = some (.failed key time) →
    ∃ retry, st.tcpRetryAfter key = some retry ∧ time + delayAfter key log ≤ retry

namespace Counted

/-- Nothing is counted at the start. -/
theorem start (h : st = {}) : Counted st [] := by
  subst h
  exact ⟨fun _ => rfl, fun _ _ => rfl, fun _ _ h => nomatch h⟩

/-- Beginning and dropping an attempt count nothing. -/
theorem congr (h : Counted st log) (hfailures : st'.tcpFailures = st.tcpFailures)
    (hretry : st'.tcpRetryAfter = st.tcpRetryAfter) : Counted st' log := by
  obtain ⟨h₁, h₂, h₃⟩ := h
  exact ⟨hfailures ▸ h₁, hretry ▸ h₂, hretry ▸ h₃⟩

private theorem find_cons_self (event : TcpEvent) (h : event.key = other) :
    (event :: log).find? (·.key = other) = some event :=
  List.find?_cons_of_pos (by simpa using h)

/-- An event of one destination leaves the others to the log before it. -/
theorem find_cons (event : TcpEvent) (h : event.key ≠ other) :
    (event :: log).find? (·.key = other) = log.find? (·.key = other) :=
  List.find?_cons_of_neg (by simpa using h)

/-- An attempt that begins counts nothing. -/
theorem began (h : Counted st log) (key : TcpKey) (time : Nat) :
    Counted st (.began key time :: log) where
  failures := h.failures
  rested := h.rested
  armed other time' hfind := by
    by_cases hkey : key = other
    · rw [find_cons_self (.began key time) hkey] at hfind
      cases hfind
    · rw [find_cons (.began key time) hkey] at hfind
      exact h.armed other time' hfind

/-- A success forgets the failures of its destination. -/
theorem success (h : Counted st log) (key : TcpKey) :
    Counted (st.success key) (.succeeded key :: log) := by
  refine ⟨fun other => ?_, fun other hnone => ?_, fun other time hfind => ?_⟩
  all_goals by_cases hkey : key = other
  · subst hkey
    simp [TcpState.success, consecutive]
  · simp only [TcpState.success, consecutive, if_neg hkey, Function.update_of_ne (Ne.symm hkey)]
    exact h.failures other
  · subst hkey
    exact Function.update_self ..
  · simp only [consecutive, if_neg hkey] at hnone
    exact (Function.update_of_ne (Ne.symm hkey) ..).trans (h.rested other hnone)
  · rw [find_cons_self (.succeeded key) hkey] at hfind
    cases hfind
  · rw [find_cons (.succeeded key) hkey] at hfind
    obtain ⟨retry, hretry, hle⟩ := h.armed other time hfind
    refine ⟨retry, (Function.update_of_ne (Ne.symm hkey) ..).trans hretry, ?_⟩
    rwa [delayAfter, consecutive, if_neg hkey]

/-- `failure` counts one more and returns the delay for that count. -/
theorem failure_eq (h : Counted st log) (key : TcpKey) (now : Nat) :
    (st.failure key now).1 = delayAfter key (.failed key now :: log) ∧
      (st.failure key now).2 = { st with
        tcpFailures := Function.update st.tcpFailures key
          (some (min (consecutive key log + 1) maxFailures))
        tcpRetryAfter := Function.update st.tcpRetryAfter key
          (some (now + delayAfter key (.failed key now :: log))) } := by
  have hcount : min ((st.tcpFailures key).getD 0 + 1) maxFailures =
      min (consecutive key log + 1) maxFailures := by
    rw [h.failures key]
    split
    · next hzero => rw [hzero, Option.getD_none]
    · rw [Option.getD_some]
      unfold maxFailures
      omega
  have hdelay : tcpFallbackBackoff (min (consecutive key log + 1) maxFailures) =
      delayAfter key (.failed key now :: log) := by
    rw [tcpFallbackBackoff_eq (Nat.succ_pos _), delayAfter, consecutive, if_pos rfl]
  unfold TcpState.failure
  dsimp only
  rw [hcount, hdelay]
  exact ⟨rfl, rfl⟩

/-- A failure counts one more for its destination. -/
theorem failure (h : Counted st log) (key : TcpKey) (now : Nat) :
    Counted (st.failure key now).2 (.failed key now :: log) := by
  rw [(h.failure_eq key now).2]
  refine ⟨fun other => ?_, fun other hnone => ?_, fun other time hfind => ?_⟩
  all_goals by_cases hkey : key = other
  · subst hkey
    rw [consecutive, if_pos rfl, if_neg (Nat.succ_ne_zero _)]
    exact Function.update_self ..
  · simp only [consecutive, if_neg hkey, Function.update_of_ne (Ne.symm hkey)]
    exact h.failures other
  · subst hkey
    rw [consecutive, if_pos rfl] at hnone
    exact absurd hnone (Nat.succ_ne_zero _)
  · simp only [consecutive, if_neg hkey] at hnone
    exact (Function.update_of_ne (Ne.symm hkey) ..).trans (h.rested other hnone)
  · rw [find_cons_self (.failed key now) hkey] at hfind
    obtain ⟨rfl, rfl⟩ := TcpEvent.failed.inj (Option.some.inj hfind)
    exact ⟨_, Function.update_self .., Nat.le_refl _⟩
  · rw [find_cons (.failed key now) hkey] at hfind
    obtain ⟨retry, hretry, hle⟩ := h.armed other time hfind
    refine ⟨retry, (Function.update_of_ne (Ne.symm hkey) ..).trans hretry, ?_⟩
    rwa [delayAfter, consecutive, if_neg hkey]

end Counted

/-! ## The invariant -/

/-- No attempt is ahead of the delay of its destination. -/
def AttemptStage.Paced (clock : Nat) (retry : Option Nat) : AttemptStage → Prop
  | .connecting | .connected => ∀ r, retry = some r → r ≤ clock
  | .failed time => time ≤ clock ∧ ∀ r, retry = some r → r ≤ time
  | .leaving => True

/-- An attempt stays paced as time goes on. -/
theorem AttemptStage.Paced.mono {clock clock' : Nat} {retry : Option Nat} {stage : AttemptStage}
    (h : stage.Paced clock retry) (hle : clock ≤ clock') : stage.Paced clock' retry := by
  cases stage with
  | connecting | connected => exact fun r hr => Nat.le_trans (h r hr) hle
  | failed time => exact ⟨Nat.le_trans h.1 hle, h.2⟩
  | leaving => trivial

/-- The delay of a failure is over, or set. -/
def Backed (clock : Nat) (retry : Option Nat) (resume : Nat) : Prop :=
  resume ≤ clock ∨ ∃ r, retry = some r ∧ resume ≤ r

namespace TcpCalls

variable {s t : TcpCalls}

/-- The invariant of the calls; suffixes of the log are its earlier states. -/
structure Sound (s : TcpCalls) : Prop where
  counted : Counted s.state s.log
  connecting : ∀ key, key ∈ s.state.tcpConnecting ↔ key ∈ s.attempts.map (·.key)
  single : (s.attempts.map (·.key)).Nodup
  entered : ∀ call ∈ s.entered, call.2 ≤ s.clock
  paced : ∀ a ∈ s.attempts, a.stage.Paced s.clock (s.state.tcpRetryAfter a.key)
  backed : ∀ key time older, .failed key time :: older <:+ s.log →
    Backed s.clock (s.state.tcpRetryAfter key) (time + delayAfter key (.failed key time :: older))
  spaced : ∀ key began older, .began key began :: older <:+ s.log →
    ∀ time oldest, .failed key time :: oldest <:+ older →
      time + delayAfter key (.failed key time :: oldest) ≤ began

/-- The invariant holds at the start. -/
theorem Sound.start (h : tcpSystem.start s) : s.Sound := by
  have hs : s = { clock := s.clock } := h
  rw [hs]
  refine ⟨.start rfl, fun key => ?_, List.nodup_nil, List.forall_mem_nil _, List.forall_mem_nil _,
    fun key time older hsuffix => ?_, fun key began older hsuffix => ?_⟩
  · simp
  · cases List.suffix_nil.mp hsuffix
  · cases List.suffix_nil.mp hsuffix

/-- Time passes. -/
theorem Sound.tick (h : s.Sound) (elapsed : Nat) :
    Sound { s with clock := s.clock + elapsed } := by
  have hle : s.clock ≤ s.clock + elapsed := Nat.le_add_right _ _
  refine ⟨h.counted, h.connecting, h.single, fun call hcall => ?_, fun a ha => ?_,
    fun key time older hsuffix => ?_, h.spaced⟩
  · exact Nat.le_trans (h.entered call hcall) hle
  · exact (h.paced a ha).mono hle
  · exact (h.backed key time older hsuffix).imp (fun hover => Nat.le_trans hover hle) id

/-- A call begins an attempt only when all delays of its destination are over. -/
theorem Sound.enterAttempt (h : s.Sound) {call : Nat} {key : TcpKey} {now : Nat}
    (hcall : s.entered[call]? = some (key, now)) : (s.enterAttempt call key now).Sound := by
  have hnow : now ≤ s.clock := h.entered _ (List.mem_of_getElem? hcall)
  have hentered : ∀ call' ∈ s.entered.eraseIdx call, call'.2 ≤ s.clock := fun call' hmem =>
    h.entered call' ((List.eraseIdx_sublist ..).subset hmem)
  unfold TcpCalls.enterAttempt
  dsimp only
  split
  · exact { h with entered := hentered }
  · next state hbegin =>
    obtain ⟨hfree, hretry, rfl⟩ := begin_spec hbegin
    have hover : ∀ retry, s.state.tcpRetryAfter key = some retry → retry ≤ s.clock :=
      fun retry hsome => Nat.le_trans (hretry retry hsome) hnow
    refine ⟨(h.counted.began key s.clock).congr rfl rfl, fun other => ?_, ?_, hentered,
      fun a ha => ?_, fun other time older hsuffix => ?_, fun other began older hsuffix => ?_⟩
    · rw [List.map_append, List.mem_append, List.map_singleton, List.mem_singleton,
        Finset.mem_insert, h.connecting, or_comm]
    · rw [List.map_append, List.map_singleton, List.nodup_append]
      refine ⟨h.single, List.nodup_singleton _, fun a ha b hb => ?_⟩
      rw [List.mem_singleton.mp hb]
      rintro rfl
      exact hfree ((h.connecting _).mpr ha)
    · rcases List.mem_append.mp ha with hold | hnew
      · exact h.paced a hold
      · rw [List.mem_singleton.mp hnew]
        exact hover
    · rcases List.suffix_cons_iff.mp hsuffix with heq | hold
      · cases heq
      · exact h.backed other time older hold
    · rcases List.suffix_cons_iff.mp hsuffix with heq | hold
      · obtain ⟨hevent, rfl⟩ := List.cons.inj heq
        obtain ⟨rfl, rfl⟩ := TcpEvent.began.inj hevent
        intro time oldest holdest
        rcases h.backed other time oldest holdest with hdone | ⟨retry, hsome, hle⟩
        · exact hdone
        · exact Nat.le_trans hle (hover retry hsome)
      · exact h.spaced other began older hold

/-- The keys of the attempts do not depend on their stages. -/
theorem keys_set {attempts : List TcpAttempt} {i : Nat} {key : TcpKey} {stage : AttemptStage}
    (stage' : AttemptStage) (h : attempts[i]? = some ⟨key, stage⟩) :
    (attempts.set i ⟨key, stage'⟩).map (·.key) = attempts.map (·.key) := by
  obtain ⟨hlt, hget⟩ := List.getElem?_eq_some_iff.mp h
  have hlt' : i < (attempts.map (·.key)).length := by simpa using hlt
  have hkey : (attempts.map (·.key))[i] = key := by
    rw [List.getElem_map, hget]
  rw [List.map_set]
  conv_lhs => rw [← hkey]
  exact List.set_getElem_self _

/-- The other attempts have other destinations. -/
theorem mem_set {attempts : List TcpAttempt} {i : Nat} {key : TcpKey} {stage stage' : AttemptStage}
    (hsingle : (attempts.map (·.key)).Nodup) (h : attempts[i]? = some ⟨key, stage⟩) {a : TcpAttempt}
    (ha : a ∈ attempts.set i ⟨key, stage'⟩) :
    a = ⟨key, stage'⟩ ∨ a ∈ attempts ∧ a.key ≠ key := by
  obtain ⟨j, hj⟩ := List.mem_iff_getElem?.mp ha
  obtain ⟨hlt, -⟩ := List.getElem?_eq_some_iff.mp h
  by_cases hij : i = j
  · subst hij
    rw [List.getElem?_set_self hlt] at hj
    exact Or.inl (Option.some.inj hj).symm
  · rw [List.getElem?_set_ne hij] at hj
    refine Or.inr ⟨List.mem_of_getElem? hj, fun hkey => hij ?_⟩
    refine (List.getElem?_inj (by simpa using hlt) hsingle).mp ?_
    rw [List.getElem?_map, List.getElem?_map, h, hj]
    exact congrArg some hkey.symm

/-- Removing the item at a place removes that item, where no two are equal. -/
theorem mem_eraseIdx {α : Type*} {l : List α} {i : Nat} {x y : α} (hnodup : l.Nodup)
    (h : l[i]? = some x) : y ∈ l.eraseIdx i ↔ y ≠ x ∧ y ∈ l := by
  obtain ⟨hlt, -⟩ := List.getElem?_eq_some_iff.mp h
  rw [List.mem_eraseIdx_iff_getElem?]
  constructor
  · rintro ⟨j, hne, hj⟩
    refine ⟨?_, List.mem_of_getElem? hj⟩
    rintro rfl
    exact hne ((List.getElem?_inj hlt hnodup).mp (h.trans hj.symm)).symm
  · rintro ⟨hne, hy⟩
    obtain ⟨j, hj⟩ := List.mem_iff_getElem?.mp hy
    refine ⟨j, ?_, hj⟩
    rintro rfl
    exact hne (Option.some.inj (hj.symm.trans h))

/-- An attempt whose end is not recorded yet moves on. -/
theorem Sound.advance (h : s.Sound) {attempt : Nat} {key : TcpKey} {stage stage' : AttemptStage}
    (hattempt : s.attempts[attempt]? = some ⟨key, stage⟩)
    (hpaced : stage'.Paced s.clock (s.state.tcpRetryAfter key)) :
    (s.advance attempt ⟨key, stage⟩ stage').Sound := by
  have hkeys := keys_set stage' hattempt
  refine { h with connecting := fun other => ?_, single := ?_, paced := fun a ha => ?_ }
  · exact (h.connecting other).trans (by rw [TcpCalls.advance, hkeys])
  · exact hkeys ▸ h.single
  · rcases mem_set h.single hattempt ha with rfl | ⟨hold, -⟩
    · exact hpaced
    · exact h.paced a hold

/-- A connection that is made clears its destination. -/
theorem Sound.success (h : s.Sound) {attempt : Nat} {key : TcpKey}
    (hattempt : s.attempts[attempt]? = some ⟨key, .connected⟩) :
    Sound ({ s with
      state := s.state.success key
      log := .succeeded key :: s.log }.advance attempt ⟨key, .connected⟩ .leaving) := by
  have hkeys := keys_set .leaving hattempt
  have hover := h.paced _ (List.mem_of_getElem? hattempt)
  refine ⟨h.counted.success key, fun other => ?_, hkeys ▸ h.single, h.entered, fun a ha => ?_,
    fun other time older hsuffix => ?_, fun other began older hsuffix => ?_⟩
  · exact (h.connecting other).trans (by rw [TcpCalls.advance, hkeys])
  · rcases mem_set h.single hattempt ha with rfl | ⟨hold, hne⟩
    · trivial
    · have hretry : (s.state.success key).tcpRetryAfter a.key = s.state.tcpRetryAfter a.key :=
        Function.update_of_ne hne ..
      exact hretry ▸ h.paced a hold
  · rcases List.suffix_cons_iff.mp hsuffix with heq | hold
    · cases heq
    · rcases h.backed other time older hold with hdone | ⟨retry, hsome, hle⟩
      · exact Or.inl hdone
      · by_cases hkey : other = key
        · -- the attempt that succeeds began after the delay
          subst hkey
          exact Or.inl (Nat.le_trans hle (hover retry hsome))
        · exact Or.inr ⟨retry, (Function.update_of_ne hkey ..).trans hsome, hle⟩
  · rcases List.suffix_cons_iff.mp hsuffix with heq | hold
    · cases heq
    · exact h.spaced other began older hold

/-- An attempt that fails puts its destination off. -/
theorem Sound.failure (h : s.Sound) {attempt : Nat} {key : TcpKey} {time : Nat}
    (hattempt : s.attempts[attempt]? = some ⟨key, .failed time⟩) :
    Sound ({ s with
      state := (s.state.failure key time).2
      log := .failed key time :: s.log }.advance attempt ⟨key, .failed time⟩ .leaving) := by
  have hkeys := keys_set .leaving hattempt
  obtain ⟨-, hover⟩ := h.paced _ (List.mem_of_getElem? hattempt)
  obtain ⟨-, hfailure⟩ := h.counted.failure_eq key time
  have hself : (s.state.failure key time).2.tcpRetryAfter key =
      some (time + delayAfter key (.failed key time :: s.log)) := by
    rw [hfailure]
    exact Function.update_self ..
  have hother : ∀ other, other ≠ key →
      (s.state.failure key time).2.tcpRetryAfter other = s.state.tcpRetryAfter other := by
    intro other hne
    rw [hfailure]
    exact Function.update_of_ne hne ..
  have hconnecting : (s.state.failure key time).2.tcpConnecting = s.state.tcpConnecting := rfl
  refine ⟨h.counted.failure key time, fun other => ?_, hkeys ▸ h.single, h.entered, fun a ha => ?_,
    fun other time' older hsuffix => ?_, fun other began older hsuffix => ?_⟩
  · exact (h.connecting other).trans (by rw [TcpCalls.advance, hkeys])
  · rcases mem_set h.single hattempt ha with rfl | ⟨hold, hne⟩
    · trivial
    · exact hother a.key hne ▸ h.paced a hold
  · rcases List.suffix_cons_iff.mp hsuffix with heq | hold
    · obtain ⟨hevent, rfl⟩ := List.cons.inj heq
      obtain ⟨rfl, rfl⟩ := TcpEvent.failed.inj hevent
      exact Or.inr ⟨_, hself, Nat.le_refl _⟩
    · rcases h.backed other time' older hold with hdone | ⟨retry, hsome, hle⟩
      · exact Or.inl hdone
      · by_cases hkey : other = key
        · -- the delay that is overwritten was over when the attempt began
          subst hkey
          have := hover retry hsome
          exact Or.inr ⟨_, hself, by omega⟩
        · exact Or.inr ⟨retry, (hother other hkey).trans hsome, hle⟩
  · rcases List.suffix_cons_iff.mp hsuffix with heq | hold
    · cases heq
    · exact h.spaced other began older hold

/-- An attempt that is dropped leaves its destination free. -/
theorem Sound.drop (h : s.Sound) {attempt : Nat} {key : TcpKey} {stage : AttemptStage}
    (hattempt : s.attempts[attempt]? = some ⟨key, stage⟩) :
    Sound { s with
      state := s.state.drop key
      attempts := s.attempts.eraseIdx attempt } := by
  have hsub : (s.attempts.eraseIdx attempt).Sublist s.attempts := List.eraseIdx_sublist ..
  have hkey : (s.attempts.map (·.key))[attempt]? = some key := by
    rw [List.getElem?_map, hattempt]
    rfl
  refine ⟨h.counted.congr rfl rfl, fun other => ?_, h.single.sublist (hsub.map _), h.entered,
    fun a ha => h.paced a (hsub.subset ha), h.backed, h.spaced⟩
  rw [← List.eraseIdx_map, mem_eraseIdx h.single hkey]
  exact Finset.mem_erase.trans (and_congr_right fun _ => h.connecting other)

/-- Every step keeps the invariant. -/
theorem Sound.step (h : s.Sound) {a : TcpAction} (hstep : s.step a = some t) : t.Sound := by
  cases a with
  | tick elapsed =>
    obtain rfl := Option.some.inj hstep
    exact h.tick elapsed
  | enter key =>
    obtain rfl := Option.some.inj hstep
    refine { h with entered := fun call hcall => ?_ }
    rcases List.mem_append.mp hcall with hold | hnew
    · exact h.entered call hold
    · rw [List.mem_singleton.mp hnew]
  | begin call =>
    obtain ⟨⟨key, now⟩, hcall, rfl⟩ := Option.map_eq_some_iff.mp hstep
    exact h.enterAttempt hcall
  | connect attempt =>
    simp only [TcpCalls.step] at hstep
    split at hstep
    · next key hattempt =>
      obtain rfl := Option.some.inj hstep
      exact h.advance hattempt (h.paced _ (List.mem_of_getElem? hattempt))
    · cases hstep
  | fail attempt =>
    simp only [TcpCalls.step] at hstep
    split at hstep
    · next key hattempt =>
      obtain rfl := Option.some.inj hstep
      exact h.advance hattempt ⟨Nat.le_refl _, h.paced _ (List.mem_of_getElem? hattempt)⟩
    · cases hstep
  | cancel attempt =>
    simp only [TcpCalls.step] at hstep
    split at hstep
    · next key hattempt =>
      obtain rfl := Option.some.inj hstep
      exact h.advance hattempt trivial
    · cases hstep
  | success attempt =>
    simp only [TcpCalls.step] at hstep
    split at hstep
    · next key hattempt =>
      obtain rfl := Option.some.inj hstep
      exact h.success hattempt
    · cases hstep
  | failure attempt =>
    simp only [TcpCalls.step] at hstep
    split at hstep
    · next key time hattempt =>
      obtain rfl := Option.some.inj hstep
      exact h.failure hattempt
    · cases hstep
  | drop attempt =>
    simp only [TcpCalls.step] at hstep
    split at hstep
    · next key hattempt =>
      obtain rfl := Option.some.inj hstep
      exact h.drop hattempt
    · cases hstep

/-- How the attempts on each destination follow one another. -/
structure SingleFlight (s : TcpCalls) : Prop where
  connecting : ∀ key, key ∈ s.state.tcpConnecting ↔ ∃ a ∈ s.attempts, a.key = key
  single : s.attempts.Pairwise fun a b => a.key ≠ b.key
  /-- An attempt begins after the delay of every failure before it. -/
  spaced : ∀ key began older, .began key began :: older <:+ s.log →
    ∀ time oldest, .failed key time :: oldest <:+ older →
      time + delayAfter key (.failed key time :: oldest) ≤ began
  cleared : ∀ key later older, s.log = later ++ .succeeded key :: older →
    (∀ time, .failed key time ∉ later) →
      s.state.tcpFailures key = none ∧ s.state.tcpRetryAfter key = none
  /-- While a failure is not recorded yet, nothing begins on its destination. -/
  guarded : ∀ a ∈ s.attempts, ∀ time, a.stage = .failed time → ∀ now, s.state.begin a.key now = none
  /-- Once it is recorded, nothing begins before the delay is over. -/
  rests : ∀ key time, s.log.find? (·.key = key) = some (.failed key time) →
    ∀ now, now < time + delayAfter key s.log → s.state.begin key now = none

end TcpCalls

/-- Without a failure since the last success nothing is counted. -/
theorem consecutive_of_succeeded {later older : List TcpEvent}
    (h : ∀ time, .failed key time ∉ later) :
    consecutive key (later ++ .succeeded key :: older) = 0 := by
  induction later with
  | nil => exact if_pos rfl
  | cons event later ih =>
    have hlater := ih fun time hmem => h time (List.mem_cons_of_mem _ hmem)
    cases event with
    | began k time => exact hlater
    | failed k time =>
      have hne : k ≠ key := by
        rintro rfl
        exact h time (List.mem_cons_self ..)
      exact (if_neg hne).trans hlater
    | succeeded k =>
      rw [List.cons_append, consecutive]
      split
      · rfl
      · exact hlater

/-- At most one attempt on a destination is under way, and it keeps the backoff. -/
theorem tcpSingleFlight {s : TcpCalls} (h : tcpSystem.Reachable s) : s.SingleFlight := by
  have hsound : s.Sound :=
    h.invariant (fun _ => TcpCalls.Sound.start) fun _ _ _ hs hstep => hs.step hstep
  refine ⟨fun key => ?_, List.pairwise_map.mp hsound.single, hsound.spaced,
    fun key later older hlog hnone => ?_, fun a ha time hstage now => ?_,
    fun key time hfind now hnow => ?_⟩
  · exact (hsound.connecting key).trans List.mem_map
  · have hzero : consecutive key s.log = 0 := by
      rw [hlog]
      exact consecutive_of_succeeded hnone
    refine ⟨?_, hsound.counted.rested key hzero⟩
    rw [hsound.counted.failures key, if_pos hzero]
  · exact begin_of_connecting ((hsound.connecting a.key).mpr (List.mem_map_of_mem ha))
  · obtain ⟨retry, hretry, hle⟩ := hsound.counted.armed key time hfind
    exact begin_of_retry hretry (Nat.lt_of_lt_of_le hnow hle)

/-- A failure, a call that is refused, a cancelled attempt after the delay, and a second
failure beside a success on another port. -/
def tcpActions : List TcpAction :=
  let key : TcpKey := ("192.0.2.1", 443)
  [.enter key, .begin 0, .fail 0, .failure 0, .drop 0, .enter key, .begin 0, .tick (seconds 30),
    .enter key, .begin 0, .cancel 0, .drop 0, .enter key, .enter ("192.0.2.1", 80), .begin 0,
    .begin 0, .fail 0, .failure 0, .connect 1, .success 1]

/-- The second delay is twice the first. -/
def tcpCheck (s : TcpCalls) : Bool :=
  s.log = [.succeeded ("192.0.2.1", 80), .failed ("192.0.2.1", 443) (seconds 30),
    .began ("192.0.2.1", 80) (seconds 30), .began ("192.0.2.1", 443) (seconds 30),
    .began ("192.0.2.1", 443) (seconds 30), .failed ("192.0.2.1", 443) 0,
    .began ("192.0.2.1", 443) 0] ∧
  s.state.tcpRetryAfter ("192.0.2.1", 443) = some (seconds 90)

/-- A run with two failures of one destination, a cancelled attempt between them, and a success of
another. -/
theorem tcpSingleFlight_run : ∃ s, tcpSystem.run {} tcpActions = some s ∧ tcpCheck s = true ∧
    s.SingleFlight := by
  obtain ⟨s, hrun, hcheck⟩ := tcpSystem.exists_of_run {} tcpActions tcpCheck (by decide +kernel)
  exact ⟨s, hrun, hcheck, tcpSingleFlight ((System.Reachable.start rfl).run hrun)⟩

end TgWsProxy
