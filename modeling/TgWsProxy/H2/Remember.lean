import TgWsProxy.H2.Replay

/-!
# Recording and evicting packets

What `remember` does to the history: the packet is recorded, and the eviction loop takes
entries one by one until the history is within its limits. An entry that is still wanted
goes only when all are.
-/

namespace TgWsProxy.H2

open TgWsProxy.Core

/-- An entry that is still wanted: an original of it is in flight, or it is retired and may
be replayed. -/
def Wanted (now : Nat) (entry : ReplayEntry) : Prop :=
  entry.originals ≠ ∅ ∨
    entry.retired = true ∧ entry.attempts < replayMaxAttempts ∧ now - entry.sentAt ≤ replayMaxAge

private theorem evictable_eq_false {now : Nat} {entry : ReplayEntry} :
    ChannelState.evictable now entry = false ↔ Wanted now entry := by
  rw [ChannelState.evictable, decide_eq_false_iff_not, not_and_or, not_not]
  rfl

/-- A history beyond its limits. -/
def Overfull (history : List ReplayEntry) : Prop :=
  history.length > replayHistoryPackets ∨ historyBytes history > replayHistoryBytes

/-- The place of the entry that a round of the eviction loop takes. -/
def evictIndex (now : Nat) (history : List ReplayEntry) : Nat :=
  (history.findIdx? (ChannelState.evictable now)).getD 0

instance (history : List ReplayEntry) : Decidable (Overfull history) :=
  inferInstanceAs (Decidable (_ ∨ _))

private theorem evictIndex_lt {now : Nat} {history : List ReplayEntry} (h : Overfull history) :
    evictIndex now history < history.length := by
  apply evict_index_lt
  rintro rfl
  rcases h with h | h <;> exact Nat.not_lt_zero _ h

private theorem historyBytes_eraseIdx {index : Nat} {entry : ReplayEntry}
    {history : List ReplayEntry}
    (h : history[index]? = some entry) :
    historyBytes history - entry.body.length = historyBytes (history.eraseIdx index) := by
  have hsum := tally_eraseIdx (fun entry => entry.body.length) h
  unfold historyBytes
  omega

/-- A round of the loop in the terms above. -/
theorem evict_succ (now fuel : Nat) (history : List ReplayEntry) (budgets : Budgets) :
    ChannelState.evict now (fuel + 1) history (historyBytes history) budgets =
      if Overfull history then
        match history[evictIndex now history]? with
        | some entry =>
          ChannelState.evict now fuel (history.eraseIdx (evictIndex now history))
            (historyBytes history - entry.body.length) (dropPermit budgets entry.historyPermit)
        | none => ChannelState.evict now fuel history (historyBytes history) budgets
      else (history, budgets) :=
  rfl

/-- A run of the eviction loop, with the history and the entry of each round. -/
inductive Evicts (now : Nat) :
    List ReplayEntry → List (List ReplayEntry × ReplayEntry) → List ReplayEntry → Prop
  | done {history : List ReplayEntry} (h : ¬Overfull history) : Evicts now history [] history
  | round {history after : List ReplayEntry} {entry : ReplayEntry}
      {rounds : List (List ReplayEntry × ReplayEntry)} (h : Overfull history)
      (hentry : history[evictIndex now history]? = some entry)
      (hrest : Evicts now (history.eraseIdx (evictIndex now history)) rounds after) :
      Evicts now history ((history, entry) :: rounds) after

/-- The last entry is not the one to take, if it is wanted and fits alone. -/
theorem evictIndex_lt_of_last {now : Nat} {before : List ReplayEntry} {last : ReplayEntry}
    (h : Overfull (before ++ [last])) (hwanted : Wanted now last)
    (hfits : last.body.length ≤ replayHistoryBytes) :
    evictIndex now (before ++ [last]) < before.length := by
  have hne : before ≠ [] := by
    rintro rfl
    rcases h with h | h
    · simp [replayHistoryPackets] at h
    · simp only [historyBytes, List.nil_append, tally_cons, tally_nil] at h
      omega
  unfold evictIndex
  cases hfind : (before ++ [last]).findIdx? (ChannelState.evictable now) with
  | none => exact List.length_pos_iff.mpr hne
  | some i =>
    obtain ⟨hi, hevictable, -⟩ := List.findIdx?_eq_some_iff_getElem.mp hfind
    rw [Option.getD_some]
    by_contra hge
    rw [List.length_append, List.length_singleton] at hi
    obtain rfl : i = before.length := by omega
    rw [List.getElem_append_right (Nat.le_refl _), List.getElem_singleton,
      evictable_eq_false.mpr hwanted] at hevictable
    cases hevictable

variable {now : Nat} {history after : List ReplayEntry}
  {rounds : List (List ReplayEntry × ReplayEntry)}

/-- The loop ends: there are as many rounds at most as entries. -/
theorem exists_evicts (now : Nat) {fuel : Nat} (hfuel : history.length ≤ fuel) {retained : Nat}
    (hretained : retained = historyBytes history) (budgets : Budgets) :
    ∃ rounds, rounds.length ≤ history.length ∧
      Evicts now history rounds (ChannelState.evict now fuel history retained budgets).1 := by
  induction fuel generalizing history retained budgets with
  | zero =>
    obtain rfl : history = [] := List.length_eq_zero_iff.mp (Nat.le_zero.mp hfuel)
    exact ⟨[], Nat.le_refl _, .done (by simp [Overfull, historyBytes])⟩
  | succ fuel ih =>
    subst hretained
    rw [evict_succ]
    by_cases hover : Overfull history
    · have hlt : evictIndex now history < history.length := evictIndex_lt hover
      have hentry := List.getElem?_eq_getElem hlt
      have hlength := List.length_eraseIdx_of_lt hlt
      rw [if_pos hover, hentry]
      obtain ⟨rounds, hrounds, hevicts⟩ := ih (by omega) (historyBytes_eraseIdx hentry)
        (dropPermit budgets history[evictIndex now history].historyPermit)
      refine ⟨_ :: rounds, ?_, .round hover hentry hevicts⟩
      rw [List.length_cons]
      omega
    · rw [if_neg hover]
      exact ⟨[], Nat.zero_le _, .done hover⟩

namespace Evicts

/-- Eviction only removes entries. -/
theorem sublist (h : Evicts now history rounds after) : after.Sublist history := by
  induction h with
  | done _ => exact List.Sublist.refl _
  | round _ _ _ ih => exact ih.trans (List.eraseIdx_sublist ..)

/-- A run ends within the limits. -/
theorem within (h : Evicts now history rounds after) : ¬Overfull after := by
  induction h with
  | done hwithin => exact hwithin
  | round _ _ _ ih => exact ih

/-- What is lost was taken in a round. -/
theorem lost (h : Evicts now history rounds after) :
    ∀ entry ∈ history, entry ∈ after ∨ ∃ moment, (moment, entry) ∈ rounds := by
  induction h with
  | done _ => exact fun entry hmem => .inl hmem
  | @round history after entry rounds _ hentry _ ih =>
    intro other hmem
    by_cases heq : other = entry
    · rw [heq]
      exact .inr ⟨history, List.mem_cons_self ..⟩
    · have hkept : other ∈ history.eraseIdx (evictIndex now history) := by
        obtain ⟨i, hi⟩ := List.mem_iff_getElem?.mp hmem
        refine List.mem_eraseIdx_iff_getElem?.mpr ⟨i, ?_, hi⟩
        rintro rfl
        exact heq (Option.some.inj (hi.symm.trans hentry))
      rcases ih other hkept with hafter | ⟨moment, hround⟩
      · exact .inl hafter
      · exact .inr ⟨moment, List.mem_cons_of_mem _ hround⟩

/-- A wanted entry is taken only from a history in which all are. -/
theorem wanted (h : Evicts now history rounds after) :
    ∀ round ∈ rounds, Wanted now round.2 → ∀ entry ∈ round.1, Wanted now entry := by
  induction h with
  | done _ => simp
  | @round history after entry rounds _ hentry _ ih =>
    refine List.forall_mem_cons.mpr ⟨fun hwanted => ?_, ih⟩
    cases hfind : history.findIdx? (ChannelState.evictable now) with
    | none =>
      intro other hmem
      exact evictable_eq_false.mp (List.findIdx?_eq_none_iff.mp hfind other hmem)
    | some i =>
      -- the entry that was found is one that is not wanted
      obtain ⟨hi, hevictable, -⟩ := List.findIdx?_eq_some_iff_getElem.mp hfind
      rw [evictIndex, hfind, Option.getD_some, List.getElem?_eq_getElem hi] at hentry
      rw [Option.some.inj hentry, evictable_eq_false.mpr hwanted] at hevictable
      cases hevictable

/-- A history within the limits stays as it is. -/
theorem eq_of_within (h : Evicts now history rounds after) (hwithin : ¬Overfull history) :
    after = history := by
  cases h with
  | done _ => rfl
  | round hover _ _ => exact absurd hover hwithin

/-- The last entry stays, if it is wanted and fits alone. -/
theorem last_mem {before : List ReplayEntry} {last : ReplayEntry}
    (h : Evicts now (before ++ [last]) rounds after) (hwanted : Wanted now last)
    (hfits : last.body.length ≤ replayHistoryBytes) : last ∈ after := by
  generalize hhistory : before ++ [last] = history at h
  induction h generalizing before with
  | done _ =>
    rw [← hhistory]
    exact List.mem_append_right _ (List.mem_singleton_self _)
  | @round history after entry rounds hover hentry _ ih =>
    subst hhistory
    have hbefore : evictIndex now (before ++ [last]) < before.length :=
      evictIndex_lt_of_last hover hwanted hfits
    exact ih (List.eraseIdx_append_of_lt_length hbefore _).symm

end Evicts

/-! ## Recording -/

namespace ChannelState

variable {st : ChannelState} {budgets budgets' : Budgets} {body : Bytes} {request sequence : Nat}
  {key : Option Bytes} {history history' : List ReplayEntry}

/-- The history that survives the check of the key. -/
def keyedHistory (st : ChannelState) (body : Bytes) : List ReplayEntry :=
  if st.replayKey = some (body.take 8) then st.history else []

private theorem rekey_history (budgets : Budgets) (st : ChannelState) (body : Bytes) :
    (st.rekey budgets body).1.history = st.keyedHistory body := by
  unfold rekey keyedHistory
  split <;> rfl

/-- A history with the request among the originals of its body. -/
def withOriginal (body : Bytes) (request : Nat) (history : List ReplayEntry) : List ReplayEntry :=
  updateFirst (fun entry => entry.body = body)
    (fun entry => { entry with originals := insert request entry.originals }) history

/-- An entry that a body got of its own. -/
def AddedFor (body : Bytes) (request now : Nat) (entry : ReplayEntry) : Prop :=
  entry.body = body ∧ entry.sequence = request ∧ entry.originals = {request} ∧
    entry.sentAt = now ∧ entry.attempts = 0 ∧ entry.retired = false

/-- Recording joins the entry of the body, or adds one at the end. -/
theorem record_spec {now : Nat}
    (h : record budgets history body request now = some (sequence, history', budgets')) :
    (history' = withOriginal body request history ∧
      ∃ entry ∈ history', entry.sequence = sequence ∧ entry.body = body ∧
        request ∈ entry.originals) ∨
    (sequence = request ∧ ∃ entry, AddedFor body request now entry ∧
      history' = withOriginal body request history ++ [entry]) := by
  unfold record at h
  split at h
  · next entry hfind =>
    simp only [Option.some.injEq, Prod.mk.injEq] at h
    obtain ⟨rfl, rfl, -⟩ := h
    have hbody : entry.body = body := by simpa using List.find?_some hfind
    exact Or.inl ⟨rfl, _, mem_updateFirst_of_find hfind, rfl, hbody, Finset.mem_insert_self ..⟩
  · next hfind =>
    split at h
    · cases h
    · next permit _ _ =>
      simp only [Option.some.injEq, Prod.mk.injEq] at h
      obtain ⟨rfl, rfl, -⟩ := h
      refine Or.inr ⟨rfl, ⟨now, body, request, 0, none, none, {request}, false, none, permit⟩,
        ⟨rfl, rfl, rfl, rfl, rfl, rfl⟩, ?_⟩
      rw [withOriginal, updateFirst_of_none (List.find?_eq_none.mp hfind)]

end ChannelState

/-- What remains of a history in which the packet of a request was recorded. -/
structure Remembered (now : Nat) (kept : List ReplayEntry) (body : Bytes) (request sequence : Nat)
    (after : List ReplayEntry) : Prop where
  entry : ∃ entry ∈ after, entry.sequence = sequence ∧ entry.body = body ∧ request ∈ entry.originals
  packets : after.length ≤ replayHistoryPackets
  bytes : historyBytes after ≤ replayHistoryBytes
  keyed : ∀ entry ∈ after, entry.body.take 8 = body.take 8
  /-- The loop took the rest, round by round, from the history with one new entry at most. -/
  evicted : ∃ added rounds, added.length ≤ 1 ∧
    (∀ entry ∈ added, ChannelState.AddedFor body request now entry) ∧
    Evicts now (ChannelState.withOriginal body request kept ++ added) rounds after ∧
    rounds.length ≤ kept.length + 1 ∧
    after.Sublist (ChannelState.withOriginal body request kept ++ added) ∧
    (∀ entry ∈ ChannelState.withOriginal body request kept ++ added,
      entry ∈ after ∨ ∃ moment, (moment, entry) ∈ rounds) ∧
    ∀ round ∈ rounds, Wanted now round.2 → ∀ entry ∈ round.1, Wanted now entry

namespace ChannelState

variable {st : ChannelState} {budgets : Budgets} {body : Bytes} {request sequence now : Nat}

/-- The entries that survive the check have the key of the body. -/
theorem Valid.keyedHistory (h : st.Valid) (body : Bytes) :
    (st.keyedHistory body).length ≤ replayHistoryPackets ∧
      historyBytes (st.keyedHistory body) ≤ replayHistoryBytes ∧
      ∀ entry ∈ st.keyedHistory body, entry.body.take 8 = body.take 8 := by
  unfold ChannelState.keyedHistory
  split
  · next hkey =>
    refine ⟨h.packets, h.bytes, fun entry hmem => ?_⟩
    have hentry := (h.shelved.keyed entry hmem).1
    exact Option.some.inj (hentry.symm.trans hkey)
  · exact ⟨Nat.zero_le _, Nat.zero_le _, List.forall_mem_nil _⟩

/-- An original that joins an entry makes the history no larger. -/
theorem Valid.withOriginal_within (h : st.Valid) (body : Bytes) (request : Nat) :
    ¬Overfull (withOriginal body request (st.keyedHistory body)) := by
  obtain ⟨hpackets, hbytes, -⟩ := h.keyedHistory body
  have hsame : historyBytes (withOriginal body request (st.keyedHistory body)) =
      historyBytes (st.keyedHistory body) := historyBytes_updateFirst fun _ => rfl
  unfold Overfull
  rw [hsame, withOriginal, length_updateFirst]
  omega

private theorem withOriginal_keyed (request : Nat) {history : List ReplayEntry}
    (h : ∀ entry ∈ history, entry.body.take 8 = body.take 8) :
    ∀ entry ∈ withOriginal body request history, entry.body.take 8 = body.take 8 := by
  intro entry hmem
  rcases mem_of_mem_updateFirst hmem with hold | ⟨old, hold, -, rfl⟩
  · exact h entry hold
  · exact h old hold

/-- The loop on a recorded packet keeps the entry of the packet. -/
theorem Valid.remembered (h : st.Valid) (hbody : rememberable body = true)
    {budgets' : Budgets} {history after : List ReplayEntry}
    {rounds : List (List ReplayEntry × ReplayEntry)}
    (hrecord : record budgets (st.keyedHistory body) body request now =
      some (sequence, history, budgets'))
    (hevicts : Evicts now history rounds after) (hrounds : rounds.length ≤ history.length) :
    Remembered now (st.keyedHistory body) body request sequence after := by
  have hwithin : after.length ≤ replayHistoryPackets ∧ historyBytes after ≤ replayHistoryBytes := by
    have := hevicts.within
    unfold Overfull at this
    omega
  obtain ⟨-, -, hkeyed⟩ := h.keyedHistory body
  have hjoined := withOriginal_keyed request hkeyed
  rcases record_spec hrecord with ⟨rfl, hentry⟩ | ⟨rfl, new, hnew, rfl⟩
  · have hsame := hevicts.eq_of_within (h.withOriginal_within body request)
    have hnone : rounds = [] := by
      cases hevicts with
      | done _ => rfl
      | round hover _ _ => exact absurd hover (h.withOriginal_within body request)
    subst hnone
    refine ⟨hsame ▸ hentry, hwithin.1, hwithin.2, hsame ▸ hjoined, [], [], Nat.zero_le _,
      List.forall_mem_nil _, ?_⟩
    rw [List.append_nil]
    exact ⟨hevicts, Nat.zero_le _, hevicts.sublist, hevicts.lost, hevicts.wanted⟩
  · have ⟨hsame, hseq, horiginals, _⟩ := hnew
    have hwanted : Wanted now new := by
      refine Or.inl ?_
      rw [horiginals]
      exact Finset.singleton_ne_empty _
    have hfits : new.body.length ≤ replayHistoryBytes := by
      simp only [rememberable, decide_eq_true_eq, not_or, Nat.not_lt] at hbody
      exact hsame ▸ hbody.1
    have hlast := hevicts.last_mem hwanted hfits
    refine ⟨⟨new, hlast, hseq, hsame, ?_⟩, hwithin.1, hwithin.2, fun entry hmem => ?_, [new],
      rounds,
      Nat.le_refl _, List.forall_mem_singleton.mpr hnew, hevicts, ?_, hevicts.sublist, hevicts.lost,
      hevicts.wanted⟩
    · rw [horiginals]
      exact Finset.mem_singleton_self _
    · rcases List.mem_append.mp (hevicts.sublist.subset hmem) with hold | hlast
      · exact hjoined entry hold
      · rw [List.mem_singleton.mp hlast, hsame]
    · rw [List.length_append, withOriginal, length_updateFirst] at hrounds
      exact hrounds

end ChannelState

/-- What recording a packet leaves of the history, in every state of a channel. -/
theorem rememberRecords {s : RunningChannel} (h : channelSystem.Reachable s) (budgets : Budgets)
    (body : Bytes) (request now : Nat) :
    (∀ sequence, (s.state.remember budgets body request now).1 = some sequence →
      Remembered now (s.state.keyedHistory body) body request sequence
        (s.state.remember budgets body request now).2.1.history) ∧
    ((s.state.remember budgets body request now).1 = none →
      (s.state.remember budgets body request now).2.1.history.Sublist s.state.history) := by
  have hvalid := (tracked_of_reachable h).valid
  unfold ChannelState.remember
  split
  · next hbody =>
    dsimp only
    rw [ChannelState.rekey_history]
    split
    · next hrecord =>
      constructor
      · intro _ hsome
        cases hsome
      · intro _
        rw [ChannelState.rekey_history, ChannelState.keyedHistory]
        split
        · exact List.Sublist.refl _
        · exact List.nil_sublist _
    · next sequence history recorded hrecord =>
      constructor
      · intro _ hsome
        obtain rfl := Option.some.inj hsome
        obtain ⟨rounds, hrounds, hevicts⟩ :=
          exists_evicts now (Nat.le_refl history.length) rfl recorded
        exact hvalid.remembered hbody hrecord hevicts hrounds
      · intro hnone
        cases hnone
  · constructor
    · intro _ hsome
      cases hsome
    · intro _
      exact List.Sublist.refl _

/-- Sixteen packets in flight, and the time of another. -/
def fullActions : List ChannelAction :=
  (List.range 16).map fun i => .send (List.replicate 8 1 ++ [i.toUInt8]) processDefaults

def nextPacket : Bytes := List.replicate 8 1 ++ [16]

/-- The seventeenth packet takes the place of the oldest, since all are in flight. -/
def fullCheck (s : RunningChannel) : Bool :=
  let remembered := s.state.remember processDefaults nextPacket 17 0
  remembered.1 = some 17 ∧ remembered.2.1.history.map (·.sequence) = (List.range 16).map (· + 2)

/-- A run that fills the history, and the packet that is recorded then. -/
theorem rememberRecords_full : ∃ s, channelSystem.run .initial fullActions = some s ∧
    fullCheck s = true ∧
    Remembered 0 (s.state.keyedHistory nextPacket) nextPacket 17 17
      (s.state.remember processDefaults nextPacket 17 0).2.1.history := by
  obtain ⟨s, hrun, hcheck⟩ := channelSystem.exists_of_run .initial fullActions fullCheck
    (by decide +kernel)
  have hreachable := (System.Reachable.start RunningChannel.initial_start).run hrun
  have hsome : (s.state.remember processDefaults nextPacket 17 0).1 = some 17 :=
    (of_decide_eq_true hcheck).1
  exact ⟨s, hrun, hcheck, (rememberRecords hreachable _ _ _ _).1 17 hsome⟩

end TgWsProxy.H2
