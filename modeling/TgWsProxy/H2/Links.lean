import Mathlib.Data.List.Pairwise
import TgWsProxy.H2.Channel

/-!
# The history and its links

`Shelved` is about the history alone and sees of an entry only what no operation changes; `Linked`
ties the history to the pending requests, in both directions.
-/

namespace TgWsProxy.H2

open TgWsProxy.Core

/-! ## The history -/

/-- What no operation changes of an entry. -/
def ReplayEntry.label (entry : ReplayEntry) : Nat × Bytes × BudgetPermit :=
  (entry.sequence, entry.body, entry.historyPermit)

/-- A history under its key, with sequences up to the last request. -/
structure Shelved (key : Option Bytes) (last : Nat) (history : List ReplayEntry) : Prop where
  increasing : history.Pairwise fun x y => x.sequence < y.sequence
  bodies : history.Pairwise fun x y => x.body ≠ y.body
  keyed : ∀ entry ∈ history, key = some (entry.body.take 8) ∧ 8 ≤ entry.body.length
  permits : ∀ entry ∈ history, entry.historyPermit = ⟨.history, entry.body.length⟩
  issued : ∀ entry ∈ history, entry.sequence ≤ last

variable {key : Option Bytes} {last : Nat} {history history' : List ReplayEntry}

/-- An empty history is shelved. -/
theorem Shelved.nil : Shelved key last [] := by
  constructor <;> simp

/-- A history stays shelved as request numbers go on. -/
theorem Shelved.mono {last' : Nat} (h : Shelved key last history) (hle : last ≤ last') :
    Shelved key last' history :=
  { h with issued := fun entry he => Nat.le_trans (h.issued entry he) hle }

/-- Removing entries keeps the rest in order. -/
theorem Shelved.sublist (h : Shelved key last history) (hsub : history'.Sublist history) :
    Shelved key last history' where
  increasing := h.increasing.sublist hsub
  bodies := h.bodies.sublist hsub
  keyed entry he := h.keyed entry (hsub.subset he)
  permits entry he := h.permits entry (hsub.subset he)
  issued entry he := h.issued entry (hsub.subset he)

/-- Only the labels of the entries matter. -/
theorem Shelved.of_labels (h : Shelved key last history)
    (heq : history'.map (·.label) = history.map (·.label)) : Shelved key last history' := by
  have hmem : ∀ entry ∈ history', ∃ old ∈ history, old.label = entry.label := fun entry he =>
    List.mem_map.mp (heq ▸ List.mem_map_of_mem he)
  have hpair : ∀ R : (Nat × Bytes × BudgetPermit) → (Nat × Bytes × BudgetPermit) → Prop,
      history.Pairwise (fun x y => R x.label y.label) →
        history'.Pairwise (fun x y => R x.label y.label) := by
    intro R hR
    rw [← List.pairwise_map, heq]
    exact List.pairwise_map.mpr hR
  simp only [ReplayEntry.label, Prod.mk.injEq] at hmem
  refine ⟨hpair (fun a b => a.1 < b.1) h.increasing, hpair (fun a b => a.2.1 ≠ b.2.1) h.bodies,
    fun entry he => ?_, fun entry he => ?_, fun entry he => ?_⟩
  all_goals
    obtain ⟨old, hold, hseq, hbody, hpermit⟩ := hmem entry he
  · exact hbody ▸ h.keyed old hold
  · rw [← hpermit, ← hbody]
    exact h.permits old hold
  · exact hseq ▸ h.issued old hold

/-- A new entry goes to the end. -/
theorem Shelved.push (h : Shelved key last history) {entry : ReplayEntry}
    (hseq : entry.sequence = last + 1) (hnew : ∀ old ∈ history, old.body ≠ entry.body)
    (hkey : key = some (entry.body.take 8)) (hlength : 8 ≤ entry.body.length)
    (hpermit : entry.historyPermit = ⟨.history, entry.body.length⟩) :
    Shelved key (last + 1) (history ++ [entry]) where
  increasing := List.pairwise_append.mpr ⟨h.increasing, List.pairwise_singleton .., by
    rintro old hold _ (_ | ⟨_, ⟨⟩⟩)
    have := h.issued old hold
    omega⟩
  bodies := List.pairwise_append.mpr ⟨h.bodies, List.pairwise_singleton .., by
    rintro old hold _ (_ | ⟨_, ⟨⟩⟩)
    exact hnew old hold⟩
  keyed e he := by
    rcases List.mem_append.mp he with he | he
    · exact h.keyed e he
    · rw [List.mem_singleton.mp he]
      exact ⟨hkey, hlength⟩
  permits e he := by
    rcases List.mem_append.mp he with he | he
    · exact h.permits e he
    · rw [List.mem_singleton.mp he]
      exact hpermit
  issued e he := by
    rcases List.mem_append.mp he with he | he
    · exact Nat.le_trans (h.issued e he) (Nat.le_succ _)
    · rw [List.mem_singleton.mp he, hseq]

/-- Sequences differ. -/
theorem Shelved.sequence_ne (h : Shelved key last history) :
    history.Pairwise fun x y => x.sequence ≠ y.sequence :=
  h.increasing.imp fun hlt => Nat.ne_of_lt hlt

/-- A sequence names one entry. -/
theorem Shelved.unique (h : Shelved key last history) {x y : ReplayEntry} (hx : x ∈ history)
    (hy : y ∈ history) (heq : x.sequence = y.sequence) : x = y := by
  by_contra hne
  have hsymm : Std.Symm fun x y : ReplayEntry => x.sequence ≠ y.sequence := ⟨fun _ _ h => h.symm⟩
  exact h.sequence_ne.forall hx hy hne heq

/-- The entries after a change of one. -/
theorem Shelved.mem_updateEntry (h : Shelved key last history) {sequence : Nat}
    {f : ReplayEntry → ReplayEntry} {entry : ReplayEntry} :
    entry ∈ updateEntry sequence f history ↔
      (entry ∈ history ∧ entry.sequence ≠ sequence) ∨
        ∃ old ∈ history, old.sequence = sequence ∧ entry = f old :=
  mem_updateFirst_key h.sequence_ne

/-- A change of one entry keeps the labels. -/
theorem labels_updateEntry {sequence : Nat} {f : ReplayEntry → ReplayEntry}
    (hf : ∀ entry, (f entry).label = entry.label) :
    (updateEntry sequence f history).map (·.label) = history.map (·.label) :=
  map_updateFirst hf

/-- A change of one entry charges nothing. -/
theorem historyPermits_updateFirst {p : ReplayEntry → Bool} {f : ReplayEntry → ReplayEntry}
    (hf : ∀ entry, (f entry).label = entry.label) :
    historyPermits (updateFirst p f history) = historyPermits history :=
  map_updateFirst fun entry => congrArg (fun label => label.2.2) (hf entry)

/-- A change that keeps the label keeps the bytes. -/
theorem historyBytes_updateFirst {p : ReplayEntry → Bool} {f : ReplayEntry → ReplayEntry}
    (hf : ∀ entry, (f entry).label = entry.label) :
    historyBytes (updateFirst p f history) = historyBytes history :=
  congrArg List.sum
    (map_updateFirst fun entry => congrArg (fun label => label.2.1.length) (hf entry))

/-- A history is charged for its bodies. -/
theorem Shelved.charged (h : Shelved key last history) :
    tally (BudgetPermit.count .history) (historyPermits history) = history.length ∧
      tally (BudgetPermit.size .history) (historyPermits history) = historyBytes history := by
  simp only [historyPermits, tally_map, historyBytes]
  constructor
  · have hone : ∀ entry ∈ history, BudgetPermit.count .history entry.historyPermit = 1 :=
      fun entry he => by simp [h.permits entry he, BudgetPermit.count]
    rw [tally_congr hone]
    simp [tally]
  · exact tally_congr fun entry he => by simp [h.permits entry he, BudgetPermit.size]

/-! ## The links -/

/-- The pending requests and the history name each other. -/
structure Linked (last : Nat) (pending : Std.TreeMap Nat Pending) (history : List ReplayEntry) :
    Prop where
  requests : ∀ id p, pending[id]? = some p →
    id ≤ last ∧ ∀ sequence, p.entry = some sequence → sequence ≤ last
  originals : ∀ entry ∈ history, ∀ id ∈ entry.originals,
    ∃ p, pending[id]? = some p ∧ p.replay = false ∧ p.entry = some entry.sequence
  replays : ∀ entry ∈ history, ∀ id, entry.pending = some id →
    ∃ p, pending[id]? = some p ∧ p.replay = true ∧ p.entry = some entry.sequence
  tracked : ∀ id p, pending[id]? = some p → ∀ entry ∈ history,
    p.entry = some entry.sequence → id ∈ entry.originals ∨ entry.pending = some id

variable {pending : Std.TreeMap Nat Pending}

/-- Forgetting entries breaks no link. -/
theorem Linked.subset (h : Linked last pending history) (hsub : history' ⊆ history) :
    Linked last pending history' where
  requests := h.requests
  originals entry he := h.originals entry (hsub he)
  replays entry he := h.replays entry (hsub he)
  tracked id p hp entry he := h.tracked id p hp entry (hsub he)

/-- A change that no link mentions. -/
theorem Linked.touch (h : Linked last pending history) (hs : Shelved key last history)
    {sequence : Nat} {f : ReplayEntry → ReplayEntry}
    (hf : ∀ entry, (f entry).sequence = entry.sequence ∧ (f entry).originals = entry.originals ∧
      (f entry).pending = entry.pending) :
    Linked last pending (updateEntry sequence f history) := by
  have hold : ∀ entry ∈ updateEntry sequence f history, ∃ old ∈ history,
      entry.sequence = old.sequence ∧ entry.originals = old.originals ∧
        entry.pending = old.pending := by
    intro entry he
    rcases hs.mem_updateEntry.mp he with ⟨he, _⟩ | ⟨old, hold, _, rfl⟩
    · exact ⟨entry, he, rfl, rfl, rfl⟩
    · exact ⟨old, hold, hf old⟩
  refine ⟨h.requests, fun entry he => ?_, fun entry he => ?_, fun id p hp entry he => ?_⟩
  all_goals
    obtain ⟨old, hmem, hseq, horig, hpend⟩ := hold entry he
    rw [hseq]
  · rw [horig]
    exact h.originals old hmem
  · rw [hpend]
    exact h.replays old hmem
  · rw [horig, hpend]
    exact h.tracked id p hp old hmem

/-- A change of records that keeps what they are for. -/
theorem Linked.modify (h : Linked last pending history) {request : Nat} {f : Pending → Pending}
    (hf : ∀ p, (f p).replay = p.replay ∧ (f p).entry = p.entry) :
    Linked last (pending.modify request f) history := by
  have hget : ∀ id, (pending.modify request f)[id]? =
      if request = id then pending[id]?.map f else pending[id]? := by
    intro id
    by_cases heq : request = id
    · simp [heq]
    · simp [Std.TreeMap.getElem?_modify, heq]
  -- every record has the kind and the entry it had
  have hsome : ∀ (id : Nat) (p : Pending), (pending.modify request f)[id]? = some p →
      ∃ q, pending[id]? = some q ∧ p.replay = q.replay ∧ p.entry = q.entry := by
    intro id p hp
    rw [hget] at hp
    split at hp
    · obtain ⟨q, hq, rfl⟩ := Option.map_eq_some_iff.mp hp
      exact ⟨q, hq, hf q⟩
    · exact ⟨p, hp, rfl, rfl⟩
  have hkeep : ∀ (id : Nat) (p : Pending), pending[id]? = some p →
      ∃ q, (pending.modify request f)[id]? = some q ∧ q.replay = p.replay ∧ q.entry = p.entry := by
    intro id p hp
    rw [hget, hp]
    split
    · exact ⟨f p, rfl, hf p⟩
    · exact ⟨p, rfl, rfl, rfl⟩
  refine ⟨fun id p hp => ?_, fun entry he id hid => ?_, fun entry he id hid => ?_,
    fun id p hp entry he hentry => ?_⟩
  · obtain ⟨q, hq, _, hentry⟩ := hsome id p hp
    exact hentry ▸ h.requests id q hq
  · obtain ⟨p, hp, hreplay, hentry⟩ := h.originals entry he id hid
    obtain ⟨q, hq, hr, hn⟩ := hkeep id p hp
    exact ⟨q, hq, hr.trans hreplay, hn.trans hentry⟩
  · obtain ⟨p, hp, hreplay, hentry⟩ := h.replays entry he id hid
    obtain ⟨q, hq, hr, hn⟩ := hkeep id p hp
    exact ⟨q, hq, hr.trans hreplay, hn.trans hentry⟩
  · obtain ⟨q, hq, _, hn⟩ := hsome id p hp
    exact h.tracked id q hq entry he (hn ▸ hentry)

/-- The next request is not pending yet. -/
theorem Linked.fresh (h : Linked last pending history) : pending[last + 1]? = none := by
  cases hp : pending[last + 1]? with
  | none => rfl
  | some p =>
    have := (h.requests _ p hp).1
    omega

/-- A request that is pending anew, among the others. -/
theorem getElem?_insert (pending : Std.TreeMap Nat Pending) (request : Nat) (p : Pending)
    (id : Nat) :
    (pending.insert request p)[id]? = if request = id then some p else pending[id]? := by
  simp [Std.TreeMap.getElem?_insert]

/-- A request that is pending no longer, among the others. -/
theorem getElem?_erase (pending : Std.TreeMap Nat Pending) (request id : Nat) :
    (pending.erase request)[id]? = if request = id then none else pending[id]? := by
  simp [Std.TreeMap.getElem?_erase]

/-- The entry that a new request names, once it has joined. -/
structure Joined (pending : Std.TreeMap Nat Pending) (request : Nat) (p : Pending)
    (entry : ReplayEntry) : Prop where
  names : p.entry = some entry.sequence
  originals : ∀ id ∈ entry.originals, id = request ∧ p.replay = false ∨
    ∃ q, pending[id]? = some q ∧ q.replay = false ∧ q.entry = some entry.sequence
  replays : ∀ id, entry.pending = some id → id = request ∧ p.replay = true ∨
    ∃ q, pending[id]? = some q ∧ q.replay = true ∧ q.entry = some entry.sequence
  joined : request ∈ entry.originals ∨ entry.pending = some request
  tracked : ∀ id q, pending[id]? = some q → q.entry = some entry.sequence →
    id ∈ entry.originals ∨ entry.pending = some id

/-- A new request joins the entry it names, and every other entry keeps its links. -/
theorem Linked.join (h : Linked last pending history) {p : Pending}
    (hissued : ∀ sequence, p.entry = some sequence → sequence ≤ last + 1)
    (hentries : ∀ entry ∈ history', (entry ∈ history ∧ p.entry ≠ some entry.sequence) ∨
      Joined pending (last + 1) p entry) :
    Linked (last + 1) (pending.insert (last + 1) p) history' := by
  have hget := fun id => getElem?_insert pending (last + 1) p id
  have hkeep : ∀ (id : Nat) (q : Pending), pending[id]? = some q →
      (pending.insert (last + 1) p)[id]? = some q := by
    intro id q hq
    have hle := (h.requests id q hq).1
    rw [hget, if_neg (by omega), hq]
  refine ⟨fun id q hq => ?_, fun entry he id hid => ?_, fun entry he id hid => ?_,
    fun id q hq entry he hentry => ?_⟩
  · rw [hget] at hq
    split at hq
    · next heq =>
      obtain rfl := Option.some.inj hq
      exact ⟨by omega, hissued⟩
    · have := h.requests id q hq
      exact ⟨by omega, fun sequence hs => Nat.le_succ_of_le (this.2 sequence hs)⟩
  · rcases hentries entry he with ⟨hmem, _⟩ | hjoined
    · obtain ⟨q, hq, hrest⟩ := h.originals entry hmem id hid
      exact ⟨q, hkeep id q hq, hrest⟩
    · rcases hjoined.originals id hid with ⟨rfl, hreplay⟩ | ⟨q, hq, hrest⟩
      · exact ⟨p, by rw [hget, if_pos rfl], hreplay, hjoined.names⟩
      · exact ⟨q, hkeep id q hq, hrest⟩
  · rcases hentries entry he with ⟨hmem, _⟩ | hjoined
    · obtain ⟨q, hq, hrest⟩ := h.replays entry hmem id hid
      exact ⟨q, hkeep id q hq, hrest⟩
    · rcases hjoined.replays id hid with ⟨rfl, hreplay⟩ | ⟨q, hq, hrest⟩
      · exact ⟨p, by rw [hget, if_pos rfl], hreplay, hjoined.names⟩
      · exact ⟨q, hkeep id q hq, hrest⟩
  · rw [hget] at hq
    rcases hentries entry he with ⟨hmem, hother⟩ | hjoined
    · split at hq
      · obtain rfl := Option.some.inj hq
        exact absurd hentry hother
      · exact h.tracked id q hq entry hmem hentry
    · split at hq
      · next heq => exact heq ▸ hjoined.joined
      · exact hjoined.tracked id q hq hentry

/-- The mark is the replay's or an original's. -/
theorem leave_cases (request : Nat) (replay : Bool) (entry : ReplayEntry) :
    (replay = true ∧ entry.pending = some request ∧
      ChannelState.leave request replay entry = { entry with pending := none }) ∨
    (¬(replay = true ∧ entry.pending = some request) ∧
      ChannelState.leave request replay entry =
        { entry with originals := entry.originals.erase request }) := by
  by_cases h : replay = true ∧ entry.pending = some request
  · exact Or.inl ⟨h.1, h.2, if_pos h⟩
  · exact Or.inr ⟨h, if_neg h⟩

/-- A request that leaves an entry keeps its label. -/
theorem leave_label (request : Nat) (replay : Bool) (entry : ReplayEntry) :
    (ChannelState.leave request replay entry).label = entry.label := by
  rcases leave_cases request replay entry with ⟨_, _, heq⟩ | ⟨_, heq⟩
  all_goals rw [heq]; rfl

/-- A finished request leaves the entry it names. -/
theorem Linked.finish (h : Linked last pending history) (hs : Shelved key last history)
    {request : Nat} {p : Pending} (hp : pending[request]? = some p) :
    Linked last (pending.erase request)
      (match p.entry with
      | some sequence => updateEntry sequence (ChannelState.leave request p.replay) history
      | none => history) := by
  have hget := fun id => getElem?_erase pending request id
  have hkeep : ∀ (id : Nat) (q : Pending), id ≠ request → pending[id]? = some q →
      (pending.erase request)[id]? = some q := by
    intro id q hne hq
    rw [hget, if_neg (Ne.symm hne), hq]
  have hback : ∀ (id : Nat) (q : Pending), (pending.erase request)[id]? = some q →
      id ≠ request ∧ pending[id]? = some q := by
    intro id q hq
    rw [hget] at hq
    split at hq
    · cases hq
    · next hne => exact ⟨Ne.symm hne, hq⟩
  -- entries that the request does not name
  have horiginals : ∀ entry ∈ history, p.entry ≠ some entry.sequence → ∀ id ∈ entry.originals,
      ∃ q, (pending.erase request)[id]? = some q ∧ q.replay = false ∧
        q.entry = some entry.sequence := by
    intro entry he hne id hid
    obtain ⟨q, hq, hr, hn⟩ := h.originals entry he id hid
    refine ⟨q, hkeep id q ?_ hq, hr, hn⟩
    rintro rfl
    exact hne (Option.some.inj (hq.symm.trans hp) ▸ hn)
  have hreplays : ∀ entry ∈ history, p.entry ≠ some entry.sequence → ∀ id,
      entry.pending = some id → ∃ q, (pending.erase request)[id]? = some q ∧ q.replay = true ∧
        q.entry = some entry.sequence := by
    intro entry he hne id hid
    obtain ⟨q, hq, hr, hn⟩ := h.replays entry he id hid
    refine ⟨q, hkeep id q ?_ hq, hr, hn⟩
    rintro rfl
    exact hne (Option.some.inj (hq.symm.trans hp) ▸ hn)
  have hrequests : ∀ (id : Nat) (q : Pending), (pending.erase request)[id]? = some q →
      id ≤ last ∧ ∀ sequence, q.entry = some sequence → sequence ≤ last :=
    fun id q hq => h.requests id q (hback id q hq).2
  cases hnames : p.entry with
  | none =>
    refine ⟨hrequests, fun entry he => horiginals entry he (by simp [hnames]),
      fun entry he => hreplays entry he (by simp [hnames]), fun id q hq entry he hentry => ?_⟩
    exact h.tracked id q (hback id q hq).2 entry he hentry
  | some sequence =>
    refine ⟨hrequests, fun entry he id hid => ?_, fun entry he id hid => ?_,
      fun id q hq entry he hentry => ?_⟩
    all_goals rcases hs.mem_updateEntry.mp he with ⟨he, hne⟩ | ⟨old, hold, rfl, rfl⟩
    · exact horiginals entry he (by simpa [hnames] using Ne.symm hne) id hid
    · rcases leave_cases request p.replay old with ⟨hreplay, _, heq⟩ | ⟨_, heq⟩
      all_goals rw [heq] at hid ⊢
      · obtain ⟨q, hq, hr, hn⟩ := h.originals old hold id hid
        refine ⟨q, hkeep id q ?_ hq, hr, hn⟩
        rintro rfl
        obtain rfl := Option.some.inj (hq.symm.trans hp)
        simp [hreplay] at hr
      · obtain ⟨hne, hid⟩ := Finset.mem_erase.mp hid
        obtain ⟨q, hq, hr, hn⟩ := h.originals old hold id hid
        exact ⟨q, hkeep id q hne hq, hr, hn⟩
    · exact hreplays entry he (by simpa [hnames] using Ne.symm hne) id hid
    · rcases leave_cases request p.replay old with ⟨_, _, heq⟩ | ⟨hother, heq⟩
      all_goals rw [heq] at hid ⊢
      · cases hid
      · obtain ⟨q, hq, hr, hn⟩ := h.replays old hold id hid
        refine ⟨q, hkeep id q ?_ hq, hr, hn⟩
        rintro rfl
        exact hother ⟨Option.some.inj (hq.symm.trans hp) ▸ hr, hid⟩
    · exact h.tracked id q (hback id q hq).2 entry he hentry
    · obtain ⟨hne, hq⟩ := hback id q hq
      rcases leave_cases request p.replay old with ⟨_, hpending, heq⟩ | ⟨_, heq⟩
      all_goals rw [heq] at hentry ⊢
      · rcases h.tracked id q hq old hold hentry with hid | hid
        · exact Or.inl hid
        · exact absurd (Option.some.inj (hid.symm.trans hpending)) hne
      · rcases h.tracked id q hq old hold hentry with hid | hid
        · exact Or.inl (Finset.mem_erase.mpr ⟨hne, hid⟩)
        · exact Or.inr hid

/-! ## Eviction -/

private theorem tally_historyPermits (weight : BudgetPermit → Nat) :
    tally weight (historyPermits history) =
      tally (fun entry => weight entry.historyPermit) history :=
  tally_map ..

/-- A round of the eviction loop finds an entry. -/
theorem evict_index_lt {p : ReplayEntry → Bool} (h : history ≠ []) :
    (history.findIdx? p).getD 0 < history.length := by
  cases hf : history.findIdx? p with
  | none => exact List.length_pos_iff.mpr h
  | some i => exact (List.findIdx?_eq_some_iff_getElem.mp hf).1

variable {budgets : Budgets} {permits : List BudgetPermit} {now fuel retained : Nat}

/-- Eviction only removes entries. -/
theorem evict_sublist :
    (ChannelState.evict now fuel history retained budgets).1.Sublist history := by
  induction fuel generalizing history retained budgets with
  | zero => exact List.Sublist.refl _
  | succ fuel ih =>
    simp only [ChannelState.evict]
    split
    · split
      · exact ih.trans (List.eraseIdx_sublist ..)
      · exact ih
    · exact List.Sublist.refl _

/-- With a round for each entry, the loop ends within the limits. -/
theorem evict_bounded (budgets : Budgets) (now : Nat) (hfuel : history.length ≤ fuel)
    (hretained : retained = historyBytes history) :
    (ChannelState.evict now fuel history retained budgets).1.length ≤ replayHistoryPackets ∧
      historyBytes (ChannelState.evict now fuel history retained budgets).1 ≤
        replayHistoryBytes := by
  induction fuel generalizing history retained budgets with
  | zero =>
    obtain rfl : history = [] := List.length_eq_zero_iff.mp (Nat.le_zero.mp hfuel)
    exact ⟨Nat.zero_le _, Nat.zero_le _⟩
  | succ fuel ih =>
    simp only [ChannelState.evict]
    split
    · next hover =>
      have hne : history ≠ [] := by
        rintro rfl
        simp [hretained, historyBytes] at hover
      have hlt := evict_index_lt (p := ChannelState.evictable now) hne
      split
      · next entry hentry =>
        refine ih _ ?_ ?_
        · rw [List.length_eraseIdx_of_lt hlt]
          omega
        · have := tally_eraseIdx (fun entry => entry.body.length) hentry
          simp only [historyBytes] at hretained ⊢
          omega
      · next hnone =>
        have := List.getElem?_eq_none_iff.mp hnone
        omega
    · next hwithin =>
      simp only [not_or, Nat.not_lt] at hwithin
      exact ⟨hwithin.1, hretained ▸ hwithin.2⟩

/-- Every evicted entry gives its permit back. -/
theorem Covers.evict (h : Covers budgets (historyPermits history ++ permits)) :
    Covers (ChannelState.evict now fuel history retained budgets).2
      (historyPermits (ChannelState.evict now fuel history retained budgets).1 ++ permits) := by
  induction fuel generalizing history retained budgets with
  | zero => exact h
  | succ fuel ih =>
    simp only [ChannelState.evict]
    split
    · split
      · next entry hentry =>
        refine ih (Covers.drop (h.congr fun weight => ?_))
        have := tally_eraseIdx (fun entry => weight entry.historyPermit) hentry
        simp only [tally_append, tally_cons, tally_historyPermits]
        omega
      · exact ih h
    · exact h

/-- A sweep gives the permits of what it forgets back. -/
theorem Covers.sweep {st : ChannelState}
    (h : Covers budgets (historyPermits st.history ++ permits)) :
    Covers (st.sweep budgets now).2
      (historyPermits (st.sweep budgets now).1.history ++ permits) := by
  refine Covers.drops (h.congr fun weight => ?_)
  have := tally_filter_add (fun entry => weight (ReplayEntry.historyPermit entry))
    (ChannelState.kept now) st.history
  simp only [tally_append, tally_historyPermits, ChannelState.sweep]
  omega

end TgWsProxy.H2
