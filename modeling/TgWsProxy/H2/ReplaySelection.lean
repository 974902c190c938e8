import Mathlib.Data.Prod.Lex
import Mathlib.Order.BooleanAlgebra.Defs
import TgWsProxy.Core.StableSort
import TgWsProxy.H2.Replay

/-!
# Which packet is sent again

The plain rule behind `replay_candidate`: the oldest packet that is overdue, or else the
newest one of a channel that has gone quiet. The sort and the loop of the code read
`overdue` in two ways, which agree on every entry that the loop does not skip.
-/

namespace TgWsProxy.H2

open TgWsProxy.Core

namespace ChannelState

/-! ## The rule -/

/-- Nothing is sent again: the channel has ended, a reply is on its way to the client, or
enough replays are pending. -/
def Blocked (st : ChannelState) : Prop :=
  st.terminal ≠ none ∨ 0 < st.replyBytes ∨ st.delivering = true ∨
    maxChannelReplays ≤ (st.pending.toList.filter (·.2.replay)).length

/-- An entry that may be sent again. -/
structure Eligible (st : ChannelState) (now : Nat) (entry : ReplayEntry) : Prop where
  age : now - entry.sentAt ≤ replayMaxAge
  free : entry.pending = none
  retry : ∀ last, entry.lastAttempt = some last → replayRetry ≤ now - last
  attempts : entry.attempts < replayMaxAttempts
  wanted : entry.originals ≠ ∅ ∨ entry.retired = true ∨ st.history.getLast? = some entry
  /-- No answer to it has begun. -/
  silent : ∀ id ∈ entry.originals, ∀ p : Pending, st.pending[id]? = some p → p.receiving = false

/-- An entry that has been waited for long enough. -/
def Overdue (st : ChannelState) (now : Nat) (entry : ReplayEntry) : Prop :=
  entry.retired = true ∨ ∃ id ∈ entry.originals, ∃ (p : Pending) (sent : Nat),
    st.pending[id]? = some p ∧ p.sentAt = some sent ∧ replayRequest ≤ now - sent

/-- A channel that waits for no original and has made no progress lately. -/
structure Quiet (st : ChannelState) (now : Nat) : Prop where
  originals : ∀ (id : Nat) (p : Pending), st.pending[id]? = some p → p.replay = true
  progress : ∀ last, st.lastProgress = some last → replayIdle ≤ now - last

/-- No entry is both. -/
def NoneOverdue (st : ChannelState) (now : Nat) : Prop :=
  ∀ entry ∈ st.history, st.Eligible now entry → ¬st.Overdue now entry

/-- What is sent again. -/
inductive Selects (st : ChannelState) (now : Nat) : Option (Nat × Bytes) → Prop
  | blocked (h : st.Blocked) : Selects st now none
  | overdue {entry : ReplayEntry} (hopen : ¬st.Blocked) (hmem : entry ∈ st.history)
      (hentry : st.Eligible now entry) (hoverdue : st.Overdue now entry)
      (hleast : ∀ other ∈ st.history, st.Eligible now other → st.Overdue now other →
        entry.sequence ≤ other.sequence) :
      Selects st now (some (entry.sequence, entry.body))
  | newest {entry : ReplayEntry} (hopen : ¬st.Blocked) (hnone : st.NoneOverdue now)
      (hlast : st.history.getLast? = some entry) (hentry : st.Eligible now entry)
      (hquiet : st.Quiet now) : Selects st now (some (entry.sequence, entry.body))
  | nothing (hopen : ¬st.Blocked) (hnone : st.NoneOverdue now)
      (hlast : ∀ entry, st.history.getLast? = some entry → st.Eligible now entry →
        ¬st.Quiet now) : Selects st now none

/-! ## The loop -/

variable {st : ChannelState} {now : Nat} {entry : ReplayEntry}

/-- The key of the sort: overdue entries by age, then the others from the newest. -/
def replayKeyOf (st : ChannelState) (now : Nat) (entry : ReplayEntry) : Bool ×ₗ Int :=
  if st.sortsOverdue now entry then toLex (false, (entry.sequence : Int))
  else toLex (true, -(entry.sequence : Int))

private theorem replayBefore_iff (x y : ReplayEntry) :
    st.replayBefore now x y = true ↔ st.replayKeyOf now x ≤ st.replayKeyOf now y := by
  unfold replayBefore replayKeyOf
  cases st.sortsOverdue now x <;> cases st.sortsOverdue now y <;>
    simp [Prod.Lex.toLex_le_toLex]

private theorem sentFor_iff {age : Nat} (p : Pending) :
    sentFor age now p = true ↔ ∃ sent, p.sentAt = some sent ∧ age ≤ now - sent := by
  unfold sentFor
  cases p.sentAt <;> simp

/-- Where no original is receiving, the sort agrees with the rule. -/
theorem sortsOverdue_iff (h : ∀ id ∈ entry.originals, ∀ p : Pending, st.pending[id]? = some p →
    p.receiving = false) : st.sortsOverdue now entry = true ↔ st.Overdue now entry := by
  simp only [sortsOverdue, decide_eq_true_eq, Overdue]
  apply or_congr Iff.rfl
  apply exists_congr
  intro id
  apply and_congr_right
  intro hid
  simp only [Option.any_eq_true, Bool.and_eq_true, Bool.not_eq_true', sentFor_iff]
  constructor
  · rintro ⟨p, hp, -, sent, hsent, hage⟩
    exact ⟨p, sent, hp, hsent, hage⟩
  · rintro ⟨p, sent, hp, hsent, hage⟩
    exact ⟨p, hp, h id hid p hp, sent, hsent, hage⟩

/-- The checks of the loop, put plainly. -/
theorem Valid.replayable_iff (h : st.Valid) (hmem : entry ∈ st.history) :
    st.replayable now entry = true ↔ st.Eligible now entry ∧
      (st.Overdue now entry ∨ st.history.getLast? = some entry ∧ st.Quiet now) := by
  have hnewest : st.history.getLast?.map (·.sequence) = some entry.sequence ↔
      st.history.getLast? = some entry := by
    constructor
    · intro hlast
      obtain ⟨last, hlast, hseq⟩ := Option.map_eq_some_iff.mp hlast
      rw [hlast, h.shelved.unique (List.mem_of_getLast? hlast) hmem hseq]
    · intro hlast
      rw [hlast, Option.map_some]
  have hoverdue : (entry.retired = true ∨ ∃ id ∈ entry.originals,
      (st.pending[id]?.any (sentFor replayRequest now)) = true) ↔ st.Overdue now entry := by
    apply or_congr Iff.rfl
    simp only [Option.any_eq_true, sentFor_iff]
    constructor
    · rintro ⟨id, hid, p, hp, sent, hsent, hage⟩
      exact ⟨id, hid, p, sent, hp, hsent, hage⟩
    · rintro ⟨id, hid, p, sent, hp, hsent, hage⟩
      exact ⟨id, hid, p, hp, sent, hsent, hage⟩
  have hquiet : (st.pending.toList.any fun x => !x.2.replay) = false ∧
      (st.lastProgress.any fun last => decide (now - last < replayIdle)) = false ↔
        st.Quiet now := by
    simp only [List.any_eq_false, Option.any_eq_false, decide_eq_false_iff_not, Nat.not_lt]
    constructor
    · rintro ⟨horiginals, hprogress⟩
      refine ⟨fun id p hp => ?_, hprogress⟩
      simpa using horiginals (id, p) (Std.TreeMap.mem_toList_iff_getElem?_eq_some.mpr hp)
    · rintro ⟨horiginals, hprogress⟩
      refine ⟨fun x hx => ?_, hprogress⟩
      simpa using horiginals x.1 x.2 (Std.TreeMap.mem_toList_iff_getElem?_eq_some.mp hx)
  have hlimit (wanted : Prop) [Decidable wanted] :
      ¬entry.attempts ≥ (if wanted then replayMaxAttempts else 0) ↔
        wanted ∧ entry.attempts < replayMaxAttempts := by
    by_cases hwanted : wanted
    · rw [if_pos hwanted, Nat.not_le]
      exact (and_iff_right hwanted).symm
    · rw [if_neg hwanted]
      exact iff_of_false (by omega) fun hboth => hwanted hboth.1
  have hretry : ¬(entry.lastAttempt.any fun last => decide (now - last < replayRetry)) = true ↔
      ∀ last, entry.lastAttempt = some last → replayRetry ≤ now - last := by
    simp only [Bool.not_eq_true, Option.any_eq_false, decide_eq_false_iff_not, Nat.not_lt]
  have hsilent : (¬∃ id ∈ entry.originals, (st.pending[id]?.any (·.receiving)) = true) ↔
      ∀ id ∈ entry.originals, ∀ p : Pending, st.pending[id]? = some p → p.receiving = false := by
    simp only [not_exists, not_and, Bool.not_eq_true, Option.any_eq_false]
  simp only [replayable, decide_eq_true_eq, hnewest, hoverdue, hretry, hsilent, not_or, hlimit,
    Bool.not_eq_true, Option.isSome_eq_false_iff, Option.isNone_iff_eq_none, Nat.not_lt, gt_iff_lt,
    not_not, hquiet]
  constructor
  · rintro ⟨⟨hage, ⟨hwanted, hattempts⟩, hfree⟩, hretry, hsilent, hrest⟩
    exact ⟨⟨hage, hfree, hretry, hattempts, hwanted, hsilent⟩, hrest⟩
  · rintro ⟨⟨hage, hfree, hretry, hattempts, hwanted, hsilent⟩, hrest⟩
    exact ⟨⟨hage, ⟨hwanted, hattempts⟩, hfree⟩, hretry, hsilent, hrest⟩

/-! ## The selection -/

/-- A channel that is not blocked looks for the first replayable entry in the order of the sort. -/
theorem replayCandidate_open (h : ¬st.Blocked) :
    st.replayCandidate now =
      ((st.history.insertionSort fun x y => st.replayBefore now x y).find?
        (st.replayable now)).map fun entry => (entry.sequence, entry.body) := by
  simp only [Blocked, not_or, not_not, Nat.not_lt, Nat.not_le, Bool.not_eq_true] at h
  obtain ⟨hterminal, hreply, hdelivering, hfew⟩ := h
  rw [replayCandidate, if_neg, if_neg (Nat.not_le.mpr hfew)]
  rw [hterminal, hdelivering]
  simp only [Option.isSome_none, Bool.false_eq_true, or_false, false_or]
  omega

private theorem replayCandidate_blocked (h : st.Blocked) : st.replayCandidate now = none := by
  unfold replayCandidate
  by_cases hfirst : st.terminal.isSome = true ∨ st.replyBytes > 0 ∨ st.delivering = true
  · rw [if_pos hfirst]
  · rw [if_neg hfirst, if_pos]
    simp only [Option.isSome_iff_ne_none] at hfirst
    rcases h with h | h | h | h
    · exact absurd (.inl h) hfirst
    · exact absurd (.inr (.inl h)) hfirst
    · exact absurd (.inr (.inr h)) hfirst
    · exact h

/-- What is selected is one thing. -/
theorem Valid.selects_unique (h : st.Valid) {chosen chosen' : Option (Nat × Bytes)}
    (hc : st.Selects now chosen) (hc' : st.Selects now chosen') : chosen = chosen' := by
  cases hc with
  | blocked hblocked =>
    cases hc' with
    | blocked _ => rfl
    | overdue hopen => exact absurd hblocked hopen
    | newest hopen => exact absurd hblocked hopen
    | nothing hopen => exact absurd hblocked hopen
  | @overdue entry hopen hmem hentry hoverdue hleast =>
    cases hc' with
    | blocked hblocked => exact absurd hblocked hopen
    | overdue _ hmem' hentry' hoverdue' hleast' =>
      have hle := hleast _ hmem' hentry' hoverdue'
      have hge := hleast' _ hmem hentry hoverdue
      rw [h.shelved.unique hmem hmem' (Nat.le_antisymm hle hge)]
    | newest _ hnone => exact absurd hoverdue (hnone entry hmem hentry)
    | nothing _ hnone => exact absurd hoverdue (hnone entry hmem hentry)
  | newest hopen hnone hlast hentry hquiet =>
    cases hc' with
    | blocked hblocked => exact absurd hblocked hopen
    | overdue _ hmem' hentry' hoverdue' => exact absurd hoverdue' (hnone _ hmem' hentry')
    | newest _ _ hlast' => rw [Option.some.inj (hlast.symm.trans hlast')]
    | nothing _ _ hnever => exact absurd hquiet (hnever _ hlast hentry)
  | nothing hopen hnone hnever =>
    cases hc' with
    | blocked _ => rfl
    | overdue _ hmem' hentry' hoverdue' => exact absurd hoverdue' (hnone _ hmem' hentry')
    | newest _ _ hlast' hentry' hquiet' => exact absurd hquiet' (hnever _ hlast' hentry')
    | nothing _ _ _ => rfl

/-- The entry that the loop returns is selected by the rule. -/
theorem Valid.selects_of_find (h : st.Valid) (hopen : ¬st.Blocked)
    (hfind : (st.history.insertionSort fun x y => st.replayBefore now x y).find?
      (st.replayable now) = some entry) : st.Selects now (some (entry.sequence, entry.body)) := by
  obtain ⟨hmem, hreplayable, hleast⟩ := find?_insertionSort replayBefore_iff hfind
  obtain ⟨hentry, hwhy⟩ := (h.replayable_iff hmem).mp hreplayable
  have hkey {other : ReplayEntry} (hother : other ∈ st.history) (heligible : st.Eligible now other)
      (hoverdue : st.Overdue now other) : st.replayKeyOf now entry ≤ st.replayKeyOf now other :=
    hleast other hother ((h.replayable_iff hother).mpr ⟨heligible, .inl hoverdue⟩)
  by_cases hoverdue : st.Overdue now entry
  · refine .overdue hopen hmem hentry hoverdue fun other hother heligible hodue => ?_
    have hle := hkey hother heligible hodue
    rw [replayKeyOf, if_pos ((sortsOverdue_iff hentry.silent).mpr hoverdue), replayKeyOf,
      if_pos ((sortsOverdue_iff heligible.silent).mpr hodue), Prod.Lex.toLex_le_toLex] at hle
    simpa using hle
  · obtain ⟨hlast, hquiet⟩ := hwhy.resolve_left hoverdue
    refine .newest hopen (fun other hother heligible hodue => ?_) hlast hentry hquiet
    -- an overdue entry would sort before this one
    have hle := hkey hother heligible hodue
    rw [replayKeyOf, if_neg (mt (sortsOverdue_iff hentry.silent).mp hoverdue), replayKeyOf,
      if_pos ((sortsOverdue_iff heligible.silent).mpr hodue), Prod.Lex.toLex_le_toLex] at hle
    rcases hle with hlt | ⟨heq, -⟩
    · exact absurd (show true < false from hlt) (by decide)
    · cases heq

/-- `replay_candidate` follows the rule. -/
theorem Valid.selects (h : st.Valid) (now : Nat) : st.Selects now (st.replayCandidate now) := by
  by_cases hblocked : st.Blocked
  · rw [replayCandidate_blocked hblocked]
    exact .blocked hblocked
  · rw [replayCandidate_open hblocked]
    cases hfind : (st.history.insertionSort fun x y => st.replayBefore now x y).find?
        (st.replayable now) with
    | some entry => exact h.selects_of_find hblocked hfind
    | none =>
      have hnever {entry : ReplayEntry} (hmem : entry ∈ st.history)
          (hentry : st.Eligible now entry) :
          ¬(st.Overdue now entry ∨ st.history.getLast? = some entry ∧ st.Quiet now) := by
        intro hwhy
        have hmem' := (List.mem_insertionSort fun x y => st.replayBefore now x y).mpr hmem
        exact List.find?_eq_none.mp hfind entry hmem' ((h.replayable_iff hmem).mpr ⟨hentry, hwhy⟩)
      refine .nothing hblocked
        (fun entry hmem hentry hoverdue => hnever hmem hentry (.inl hoverdue))
        fun entry hlast hentry hquiet => ?_
      exact hnever (List.mem_of_getLast? hlast) hentry (.inr ⟨hlast, hquiet⟩)

end ChannelState

/-- At any time, in every state of a channel, `replay_candidate` returns what the rule selects. -/
theorem replaySelection {s : RunningChannel} (h : channelSystem.Reachable s) (now : Nat)
    (chosen : Option (Nat × Bytes)) :
    s.state.replayCandidate now = chosen ↔ s.state.Selects now chosen := by
  have hvalid := (tracked_of_reachable h).valid
  constructor
  · rintro rfl
    exact hvalid.selects now
  · exact hvalid.selects_unique (hvalid.selects now)

/-- A packet of one session. -/
def packetOf (last : UInt8) : Bytes := List.replicate 8 1 ++ [last]

/-- Three packets that were sent three seconds ago, and one that was sent just now; the answer to
the first has begun. -/
def overdueActions : List ChannelAction :=
  [.send (packetOf 1) processDefaults, .markSent 1,
    .send (packetOf 2) processDefaults, .markSent 2,
    .send (packetOf 3) processDefaults, .markSent 3, .markReceiving 1,
    .tick replayRequest, .send (packetOf 4) processDefaults, .markSent 4]

/-- The second packet is the oldest that is overdue and may be sent again. -/
theorem replaySelection_overdue : ∃ s, channelSystem.run .initial overdueActions = some s ∧
    s.state.history.map (·.sequence) = [1, 2, 3, 4] ∧
    s.state.Selects s.clock (some (2, packetOf 2)) := by
  obtain ⟨s, hrun, hcheck⟩ := channelSystem.exists_of_run .initial overdueActions
    (fun s => s.state.history.map (·.sequence) = [1, 2, 3, 4] ∧
      s.state.replayCandidate s.clock = some (2, packetOf 2)) (by decide +kernel)
  obtain ⟨hhistory, hchosen⟩ := of_decide_eq_true hcheck
  have hreachable := (System.Reachable.start RunningChannel.initial_start).run hrun
  exact ⟨s, hrun, hhistory, (replaySelection hreachable s.clock _).mp hchosen⟩

end TgWsProxy.H2
