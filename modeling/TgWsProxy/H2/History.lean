import TgWsProxy.H2.Links

/-!
# Pending requests and history

The representation invariant of a channel: every operation of the channel keeps its history shelved
and linked, and a launch says which entry it takes.
-/

namespace TgWsProxy.H2

open TgWsProxy.Core

variable {key : Option Bytes} {last : Nat} {history history' : List ReplayEntry}
variable {pending : Std.TreeMap Nat Pending}
variable {budgets budgets' : Budgets} {permits : List BudgetPermit} {now : Nat}

/-! ## The invariant -/

/-- The representation invariant of a channel. -/
structure ChannelState.Valid (st : ChannelState) : Prop where
  shelved : Shelved st.replayKey st.nextRequest st.history
  linked : Linked st.nextRequest st.pending st.history
  packets : st.history.length ≤ replayHistoryPackets
  bytes : historyBytes st.history ≤ replayHistoryBytes

namespace ChannelState

variable {st st' : ChannelState} {body : Bytes} {request sequence : Nat}

/-- A channel without requests or history. -/
theorem Valid.fresh (hpending : st.pending = ∅) (hhistory : st.history = []) : st.Valid where
  shelved := hhistory ▸ Shelved.nil
  linked := by
    rw [hpending, hhistory]
    constructor <;> simp
  packets := by simp [hhistory]
  bytes := by simp [hhistory, historyBytes]

/-- Requests and history alone decide. -/
theorem Valid.congr (h : st.Valid) (hnext : st'.nextRequest = st.nextRequest)
    (hpending : st'.pending = st.pending) (hhistory : st'.history = st.history)
    (hkey : st'.replayKey = st.replayKey) : st'.Valid where
  shelved := by rw [hkey, hnext, hhistory]; exact h.shelved
  linked := by rw [hnext, hpending, hhistory]; exact h.linked
  packets := hhistory ▸ h.packets
  bytes := hhistory ▸ h.bytes

/-- Entries may be forgotten, and the key with the last one. -/
theorem Valid.forget (h : st.Valid) (hnext : st'.nextRequest = st.nextRequest)
    (hpending : st'.pending = st.pending) (hsub : st'.history.Sublist st.history)
    (hkey : st'.replayKey = st.replayKey ∨ st'.history = []) : st'.Valid where
  shelved := by
    rcases hkey with hkey | hnil
    · rw [hkey, hnext]
      exact h.shelved.sublist hsub
    · exact hnil ▸ Shelved.nil
  linked := by
    rw [hnext, hpending]
    exact h.linked.subset hsub.subset
  packets := Nat.le_trans hsub.length_le h.packets
  bytes := Nat.le_trans (tally_le_of_sublist hsub) h.bytes

/-- Entries may change in what no invariant mentions. -/
theorem Valid.touch (h : st.Valid) {f : ReplayEntry → ReplayEntry}
    (hnext : st'.nextRequest = st.nextRequest) (hpending : st'.pending = st.pending)
    (hhistory : st'.history = updateEntry sequence f st.history)
    (hkey : st'.replayKey = st.replayKey)
    (hf : ∀ entry, (f entry).label = entry.label ∧ (f entry).originals = entry.originals ∧
      (f entry).pending = entry.pending) : st'.Valid where
  shelved := by
    rw [hkey, hnext, hhistory]
    exact h.shelved.of_labels (labels_updateEntry fun entry => (hf entry).1)
  linked := by
    rw [hnext, hpending, hhistory]
    exact h.linked.touch h.shelved fun entry =>
      ⟨congrArg Prod.fst (hf entry).1, (hf entry).2.1, (hf entry).2.2⟩
  packets := by
    rw [hhistory, updateEntry, length_updateFirst]
    exact h.packets
  bytes := by
    rw [hhistory, updateEntry, historyBytes_updateFirst fun entry => (hf entry).1]
    exact h.bytes

/-- A record of a pending request may change in what is not its kind or entry. -/
theorem Valid.modify (h : st.Valid) {f : Pending → Pending}
    (hnext : st'.nextRequest = st.nextRequest)
    (hpending : st'.pending = st.pending.modify request f)
    (hhistory : st'.history = st.history) (hkey : st'.replayKey = st.replayKey)
    (hf : ∀ p, (f p).replay = p.replay ∧ (f p).entry = p.entry) : st'.Valid where
  shelved := by rw [hkey, hnext, hhistory]; exact h.shelved
  linked := by rw [hnext, hpending, hhistory]; exact h.linked.modify hf
  packets := hhistory ▸ h.packets
  bytes := hhistory ▸ h.bytes

/-- A request that starts keeps its channel valid. -/
theorem Valid.markStarted (h : st.Valid) (request generation : Nat) :
    (st.markStarted request generation).Valid :=
  h.modify rfl rfl rfl rfl fun _ => ⟨rfl, rfl⟩

/-- So does one that has been sent. -/
theorem Valid.markSent (h : st.Valid) (request now : Nat) : (st.markSent request now).Valid :=
  h.modify rfl rfl rfl rfl fun _ => ⟨rfl, rfl⟩

/-- So does one whose response begins. -/
theorem Valid.markReceiving (h : st.Valid) (request now : Nat) :
    (st.markReceiving request now).Valid :=
  h.modify rfl rfl rfl rfl fun _ => ⟨rfl, rfl⟩

/-- A reply renews an entry and keeps the channel valid. -/
theorem Valid.noteReply (h : st.Valid) (request : Nat) (replyId : Bytes) (now : Nat) :
    (st.noteReply request replyId now).Valid := by
  cases hentry : st.pending[request]?.bind (·.entry) with
  | none =>
    refine h.congr rfl rfl ?_ rfl
    simp [ChannelState.noteReply, hentry]
  | some sequence =>
    refine h.touch rfl rfl (by simp only [ChannelState.noteReply, hentry]; rfl) rfl fun entry => ?_
    split
    · exact ⟨rfl, rfl, rfl⟩
    · exact ⟨rfl, rfl, rfl⟩

/-- Retiring an entry touches no pending request. -/
theorem retire_pending (st : ChannelState) (request : Nat) :
    (st.retire request).pending = st.pending := by
  simp only [ChannelState.retire]
  split
  · rfl
  · split <;> rfl

/-- A request that finishes is no longer pending; the others are. -/
theorem getElem?_finishRequest (st : ChannelState) (request id : Nat) :
    (st.finishRequest request).pending[id]? = if request = id then none else st.pending[id]? := by
  simp only [ChannelState.finishRequest]
  split
  · next hnone =>
    split
    · next heq => rw [← heq, hnone]
    · rfl
  · exact getElem?_erase ..

/-- Retiring an entry keeps the channel valid. -/
theorem Valid.retire (h : st.Valid) (request : Nat) : (st.retire request).Valid := by
  simp only [ChannelState.retire]
  split
  · exact h
  · split
    · exact h.touch rfl rfl rfl rfl fun _ => ⟨rfl, rfl, rfl⟩
    · exact h

/-- A request that finishes keeps the channel valid. -/
theorem Valid.finishRequest (h : st.Valid) (request : Nat) : (st.finishRequest request).Valid := by
  simp only [ChannelState.finishRequest]
  split
  · exact h
  · next p hp =>
    have hlinked := h.linked.finish h.shelved hp
    cases hentry : p.entry with
    | none =>
      rw [hentry] at hlinked
      exact ⟨h.shelved, hlinked, h.packets, h.bytes⟩
    | some sequence =>
      rw [hentry] at hlinked
      refine ⟨h.shelved.of_labels (labels_updateEntry (leave_label request p.replay)), hlinked,
        ?_, ?_⟩
      · simpa only [updateEntry, length_updateFirst] using h.packets
      · dsimp only [updateEntry]
        rw [historyBytes_updateFirst (leave_label request p.replay)]
        exact h.bytes

/-- A terminal leaves an empty history. -/
theorem Valid.terminate (h : st.Valid) (budgets : Budgets) (terminal : Terminal) :
    (st.terminate budgets terminal).1.Valid :=
  h.forget rfl rfl (List.nil_sublist _) (Or.inr rfl)

/-- Forgetting old entries keeps the channel valid. -/
theorem Valid.sweep (h : st.Valid) (budgets : Budgets) (now : Nat) :
    (st.sweep budgets now).1.Valid := by
  refine h.forget rfl rfl List.filter_sublist ?_
  simp only [ChannelState.sweep]
  split
  · next hnil => exact Or.inr hnil
  · exact Or.inl rfl

end ChannelState

/-! ## Launching -/

/-- A body names one entry. -/
theorem Shelved.unique_body (h : Shelved key last history) {x y : ReplayEntry} (hx : x ∈ history)
    (hy : y ∈ history) (heq : x.body = y.body) : x = y := by
  by_contra hne
  have hsymm : Std.Symm fun x y : ReplayEntry => x.body ≠ y.body := ⟨fun _ _ h => h.symm⟩
  exact h.bodies.forall hx hy hne heq

/-- What the checks on a body leave. -/
theorem rememberable_length {body : Bytes} (h : ChannelState.rememberable body = true) :
    8 ≤ body.length := by
  simp only [ChannelState.rememberable, decide_eq_true_eq, not_or, Nat.not_lt] at h
  exact h.2.1

/-- A recorded original joins the entry of its body. -/
theorem record_valid {body : Bytes} {sequence : Nat} (hs : Shelved key last history)
    (hl : Linked last pending history) (hkey : key = some (body.take 8)) (hbody : 8 ≤ body.length)
    (h : ChannelState.record budgets history body (last + 1) now =
      some (sequence, history', budgets')) :
    Shelved key (last + 1) history' ∧
      Linked (last + 1) (pending.insert (last + 1) ⟨false, some sequence, none, false, none⟩)
        history' := by
  simp only [ChannelState.record] at h
  split at h
  · next entry hfind =>
    simp only [Option.some.injEq, Prod.mk.injEq] at h
    obtain ⟨rfl, rfl, -⟩ := h
    have hmem := List.mem_of_find?_eq_some hfind
    have hsame : entry.body = body := by simpa using List.find?_some hfind
    refine ⟨(hs.mono (Nat.le_succ _)).of_labels (map_updateFirst fun _ => rfl),
      hl.join (fun sequence hseq => ?_) fun x hx => ?_⟩
    · have := hs.issued entry hmem
      obtain rfl := Option.some.inj hseq
      omega
    · rcases (mem_updateFirst_key hs.bodies).mp hx with ⟨hx, hne⟩ | ⟨old, hold, hob, rfl⟩
      · refine Or.inl ⟨hx, fun hseq => hne ?_⟩
        rw [← hs.unique hmem hx (Option.some.inj hseq), hsame]
      · obtain rfl := hs.unique_body hmem hold (hsame.trans hob.symm)
        refine Or.inr ⟨rfl, fun id hid => ?_, fun id hid => Or.inr (hl.replays entry hmem id hid),
          Or.inl (Finset.mem_insert_self ..), fun id q hq hentry => ?_⟩
        · rcases Finset.mem_insert.mp hid with rfl | hid
          · exact Or.inl ⟨rfl, rfl⟩
          · exact Or.inr (hl.originals entry hmem id hid)
        · rcases hl.tracked id q hq entry hmem hentry with hid | hid
          · exact Or.inl (Finset.mem_insert_of_mem hid)
          · exact Or.inr hid
  · next hfind =>
    split at h
    · cases h
    · next permit _ hacquire =>
      simp only [Option.some.injEq, Prod.mk.injEq] at h
      obtain ⟨rfl, rfl, -⟩ := h
      have hnew : ∀ old ∈ history, old.body ≠ body := by
        simpa using List.find?_eq_none.mp hfind
      refine ⟨hs.push rfl hnew hkey hbody (permit_of_tryAcquire hacquire),
        hl.join (fun sequence hseq => ?_) fun x hx => ?_⟩
      · exact Nat.le_of_eq (Option.some.inj hseq).symm
      · rcases List.mem_append.mp hx with hx | hx
        · refine Or.inl ⟨hx, fun hseq => ?_⟩
          have := hs.issued x hx
          have := Option.some.inj hseq
          omega
        · obtain rfl := List.mem_singleton.mp hx
          refine Or.inr ⟨rfl, fun id hid => ?_, fun id hid => (by cases hid),
            Or.inl (Finset.mem_singleton_self _), fun id q hq hentry => ?_⟩
          · exact Or.inl ⟨Finset.mem_singleton.mp hid, rfl⟩
          · -- no request is named ahead of time
            have := (hl.requests id q hq).2 _ hentry
            simp only at this
            omega

/-- A replay joins the entry it sends again. -/
theorem Linked.replay (hl : Linked last pending history) (hs : Shelved key last history)
    {free : ReplayEntry} (hmem : free ∈ history) (hfree : free.pending = none)
    {f : ReplayEntry → ReplayEntry} (hf : (f free).sequence = free.sequence ∧
      (f free).originals = free.originals ∧ (f free).pending = some (last + 1)) :
    Linked (last + 1) (pending.insert (last + 1) ⟨true, some free.sequence, none, false, none⟩)
      (updateEntry free.sequence f history) := by
  refine hl.join (fun sequence hseq => ?_) fun x hx => ?_
  · have := hs.issued free hmem
    have := Option.some.inj hseq
    omega
  · rcases hs.mem_updateEntry.mp hx with ⟨hx, hne⟩ | ⟨old, hold, hseq, rfl⟩
    · exact Or.inl ⟨hx, fun hn => hne (Option.some.inj hn).symm⟩
    · obtain rfl := hs.unique hmem hold hseq.symm
      obtain ⟨hfseq, horig, hpend⟩ := hf
      refine Or.inr ⟨congrArg some hfseq.symm, fun id hid => Or.inr ?_, fun id hid => Or.inl ?_,
        Or.inr hpend, fun id q hq hentry => ?_⟩
      · rw [hfseq]
        exact hl.originals free hmem id (horig ▸ hid)
      · exact ⟨(Option.some.inj (hpend.symm.trans hid)).symm, rfl⟩
      · rw [hfseq] at hentry
        rcases hl.tracked id q hq free hmem hentry with hid | hid
        · exact Or.inl (horig ▸ hid)
        · rw [hfree] at hid
          cases hid

/-- A new entry is charged. -/
theorem Covers.record {body : Bytes} {request sequence : Nat}
    (h : Covers budgets (historyPermits history ++ permits))
    (hr : ChannelState.record budgets history body request now =
      some (sequence, history', budgets')) :
    Covers budgets' (historyPermits history' ++ permits) := by
  simp only [ChannelState.record] at hr
  split at hr
  · simp only [Option.some.injEq, Prod.mk.injEq] at hr
    obtain ⟨-, rfl, rfl⟩ := hr
    rw [historyPermits_updateFirst]
    · exact h
    · exact fun _ => rfl
  · split at hr
    · cases hr
    · next permit _ hacquire =>
      simp only [Option.some.injEq, Prod.mk.injEq] at hr
      obtain ⟨-, rfl, rfl⟩ := hr
      refine (h.acquire hacquire).congr fun weight => ?_
      simp only [historyPermits, List.map_append, List.map_cons, List.map_nil, tally_append,
        tally_cons, tally_nil]
      omega

/-- A new key forgets the history and gives back its permits. -/
theorem Covers.rekey {st : ChannelState} {body : Bytes}
    (h : Covers budgets (historyPermits st.history ++ permits)) :
    Covers (st.rekey budgets body).2
      (historyPermits (st.rekey budgets body).1.history ++ permits) := by
  simp only [ChannelState.rekey]
  split
  · exact h
  · exact h.drops

/-- Recording an entry pays for it, and gets back what is evicted. -/
theorem Covers.remember {st : ChannelState} {body : Bytes} {request : Nat}
    (h : Covers budgets (historyPermits st.history ++ permits)) :
    Covers (st.remember budgets body request now).2.2
      (historyPermits (st.remember budgets body request now).2.1.history ++ permits) := by
  simp only [ChannelState.remember]
  split
  · split
    · exact h.rekey
    · next hrecord => exact (h.rekey.record hrecord).evict
  · exact h

/-- A launch pays for the entry it records. -/
theorem Covers.launch {st st' : ChannelState} {closed : Bool} {body : Bytes} {request : Nat}
    {replaySequence : Option Nat} (h : Covers budgets (historyPermits st.history ++ permits))
    (hlaunch : st.launch budgets closed body replaySequence now = some (request, st', budgets')) :
    Covers budgets' (historyPermits st'.history ++ permits) := by
  simp only [ChannelState.launch] at hlaunch
  split at hlaunch
  · cases hlaunch
  · split at hlaunch
    · split at hlaunch
      · simp only [Option.some.injEq, Prod.mk.injEq] at hlaunch
        obtain ⟨-, rfl, rfl⟩ := hlaunch
        dsimp only [updateEntry]
        rw [historyPermits_updateFirst]
        · exact h
        · exact fun _ => rfl
      · cases hlaunch
    · simp only [Option.some.injEq, Prod.mk.injEq] at hlaunch
      obtain ⟨-, rfl, rfl⟩ := hlaunch
      exact Covers.remember h

namespace ChannelState

variable {st st' : ChannelState} {body : Bytes} {request sequence : Nat}

/-- Rekeying keeps what belongs to the key. -/
theorem rekey_spec (budgets : Budgets) (st : ChannelState) (body : Bytes) :
    (st.rekey budgets body).1.replayKey = some (body.take 8) ∧
      (st.rekey budgets body).1.nextRequest = st.nextRequest ∧
      (st.rekey budgets body).1.pending = st.pending ∧
      ((st.rekey budgets body).1.history = [] ∨
        (st.rekey budgets body).1.history = st.history ∧ st.replayKey = some (body.take 8)) := by
  simp only [rekey]
  split
  · next hkey => exact ⟨hkey, rfl, rfl, Or.inr ⟨rfl, hkey⟩⟩
  · exact ⟨rfl, rfl, rfl, Or.inl rfl⟩

/-- Remembering concerns the history and its key only. -/
theorem remember_spec (budgets : Budgets) (st : ChannelState) (body : Bytes) (request now : Nat) :
    (st.remember budgets body request now).2.1 =
      { st with
        history := (st.remember budgets body request now).2.1.history
        replayKey := (st.remember budgets body request now).2.1.replayKey } := by
  simp only [remember]
  split
  · split
    all_goals
      simp only [rekey]
      split <;> rfl
  · rfl

/-- Launching inserts the next request and is otherwise about the history. -/
theorem launch_spec {closed : Bool} {replaySequence : Option Nat}
    (hlaunch : st.launch budgets closed body replaySequence now = some (request, st', budgets')) :
    closed = false ∧ st.terminal = none ∧ request = st.nextRequest + 1 ∧
      ∃ p : Pending, st' = { st with
        nextRequest := request
        pending := st.pending.insert request p
        history := st'.history
        replayKey := st'.replayKey } := by
  simp only [ChannelState.launch] at hlaunch
  split at hlaunch
  · cases hlaunch
  · next hopen =>
    simp only [not_or, Bool.not_eq_true, Option.isSome_eq_false_iff, Option.isNone_iff_eq_none]
      at hopen
    refine ⟨hopen.1, hopen.2, ?_⟩
    split at hlaunch
    · split at hlaunch
      · simp only [Option.some.injEq, Prod.mk.injEq] at hlaunch
        obtain ⟨rfl, rfl, -⟩ := hlaunch
        exact ⟨rfl, _, rfl⟩
      · cases hlaunch
    · simp only [Option.some.injEq, Prod.mk.injEq] at hlaunch
      obtain ⟨rfl, rfl, -⟩ := hlaunch
      exact ⟨rfl, ⟨false, _, none, false, none⟩, by rw [remember_spec]⟩

/-- An original is remembered, or pends without an entry. -/
theorem remember_valid {entry : Option Nat} (h : st.Valid) (hlast : st.nextRequest = last)
    (hr :
      ({ st with nextRequest := last + 1 } : ChannelState).remember budgets body (last + 1) now =
      (entry, st', budgets')) :
    ({ st' with pending := st'.pending.insert (last + 1) ⟨false, entry, none, false, none⟩ } :
      ChannelState).Valid := by
  obtain ⟨hs, hl, hpackets, hbytes⟩ := h
  rw [hlast] at hs hl
  -- a request without an entry joins nothing
  have hnone : ∀ {history}, Linked last st.pending history →
      Linked (last + 1) (st.pending.insert (last + 1) ⟨false, none, none, false, none⟩) history :=
    fun hl => hl.join (fun _ hseq => by cases hseq) fun entry he =>
      Or.inl ⟨he, fun hn => by cases hn⟩
  simp only [remember] at hr
  split at hr
  · next hrememberable =>
    obtain ⟨hkey, hnext, hpending, hhistory⟩ :=
      rekey_spec budgets { st with nextRequest := last + 1 } body
    generalize ({ st with nextRequest := last + 1 } : ChannelState).rekey budgets body =
      rekeyed at *
    have hs' : Shelved rekeyed.1.replayKey last rekeyed.1.history := by
      rcases hhistory with hnil | ⟨heq, hsame⟩
      · exact hnil ▸ Shelved.nil
      · rw [hkey, ← hsame, heq]
        exact hs
    have hsub : rekeyed.1.history.Sublist st.history := by
      rcases hhistory with hnil | ⟨heq, _⟩
      · exact hnil ▸ List.nil_sublist _
      · exact heq ▸ List.Sublist.refl _
    have hl' : Linked last st.pending rekeyed.1.history := hl.subset hsub.subset
    split at hr
    · simp only [Prod.mk.injEq] at hr
      obtain ⟨rfl, rfl, -⟩ := hr
      refine ⟨?_, ?_, Nat.le_trans hsub.length_le hpackets,
        Nat.le_trans (tally_le_of_sublist hsub) hbytes⟩
      · rw [hnext]
        exact hs'.mono (Nat.le_succ _)
      · rw [hnext, hpending]
        exact hnone hl'
    · next sequence history recorded hrecord =>
      simp only [Prod.mk.injEq] at hr
      obtain ⟨rfl, rfl, -⟩ := hr
      obtain ⟨hs'', hl''⟩ := record_valid hs' hl' hkey (rememberable_length hrememberable) hrecord
      have hbounds := evict_bounded recorded now (Nat.le_refl history.length) rfl
      refine ⟨?_, ?_, hbounds.1, hbounds.2⟩
      · rw [hnext]
        exact hs''.sublist evict_sublist
      · rw [hnext, hpending]
        exact hl''.subset evict_sublist.subset
  · simp only [Prod.mk.injEq] at hr
    obtain ⟨rfl, rfl, -⟩ := hr
    exact ⟨hs.mono (Nat.le_succ _), hnone hl, hpackets, hbytes⟩

/-- A launched request is linked to the entry it names. -/
theorem Valid.launch {closed : Bool} {replaySequence : Option Nat} (h : st.Valid)
    (hlaunch : st.launch budgets closed body replaySequence now = some (request, st', budgets')) :
    st'.Valid := by
  simp only [ChannelState.launch] at hlaunch
  split at hlaunch
  · cases hlaunch
  · split at hlaunch
    · next sequence =>
      split at hlaunch
      · next hvalid =>
        simp only [Option.some.injEq, Prod.mk.injEq] at hlaunch
        obtain ⟨-, rfl, -⟩ := hlaunch
        obtain ⟨free, hmem, hfree⟩ := List.any_eq_true.mp hvalid
        obtain ⟨rfl, hnone⟩ := of_decide_eq_true hfree
        refine ⟨(h.shelved.mono (Nat.le_succ _)).of_labels (labels_updateEntry fun _ => rfl),
          h.linked.replay h.shelved hmem hnone ⟨rfl, rfl, rfl⟩, ?_, ?_⟩
        · simpa only [updateEntry, length_updateFirst] using h.packets
        · dsimp only [updateEntry]
          rw [historyBytes_updateFirst]
          · exact h.bytes
          · exact fun _ => rfl
      · cases hlaunch
    · simp only [Option.some.injEq, Prod.mk.injEq] at hlaunch
      obtain ⟨-, rfl, -⟩ := hlaunch
      exact remember_valid h rfl rfl

end ChannelState

end TgWsProxy.H2
