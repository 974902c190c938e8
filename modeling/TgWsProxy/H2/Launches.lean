import TgWsProxy.H2.ChannelRun
import TgWsProxy.H2.History

/-!
# Launches of a replay

What the operations of a channel do to what it has launched: most launch nothing, a reply renews
its entry, and a launch takes a pending request or the candidate of the history.
-/

namespace TgWsProxy.H2

open TgWsProxy.Core

/-- Times of which each later one keeps a distance fit into a window only so often. -/
theorem length_mul_gap_le {gap lo window : Nat} {times : List Nat}
    (hapart : times.Pairwise fun later earlier => earlier + gap ≤ later)
    (hlo : ∀ t ∈ times, lo ≤ t) (hhi : ∀ t ∈ times, t ≤ lo + window) :
    times.length * gap ≤ window + gap := by
  -- the induction needs the distance of the latest time from the start
  have hhead : ∀ t rest, times = t :: rest → times.length * gap ≤ t - lo + gap := by
    intro t rest heq
    induction times generalizing t rest with
    | nil => cases heq
    | cons first times ih =>
      obtain ⟨rfl, rfl⟩ := List.cons.inj heq
      obtain ⟨hfirst, htail⟩ := List.pairwise_cons.mp hapart
      cases times with
      | nil => simp
      | cons second times =>
        have hih := ih htail (fun t ht => hlo t (List.mem_cons_of_mem _ ht))
          (fun t ht => hhi t (List.mem_cons_of_mem _ ht)) second times rfl
        have hgap := hfirst second (List.mem_cons_self ..)
        have hsecond := hlo second (List.mem_cons_of_mem _ (List.mem_cons_self ..))
        rw [List.length_cons, Nat.add_mul]
        omega
  cases times with
  | nil => simp
  | cons t rest =>
    have hbound := hhead t rest rfl
    have hwindow := hhi t (List.mem_cons_self ..)
    omega

/-! ## Operations that launch nothing -/

namespace ChannelState

variable {st st' st'' : ChannelState} {budgets budgets' : Budgets} {body : Bytes}
  {request sequence now : Nat}

/-- Entries keep their record of replays and requests what they are for; some may go. -/
structure Keeps (st st' : ChannelState) : Prop where
  next : st'.nextRequest = st.nextRequest
  history : ∀ e' ∈ st'.history, ∃ e ∈ st.history, e'.sequence = e.sequence ∧ e'.body = e.body ∧
    e'.sentAt = e.sentAt ∧ e'.attempts = e.attempts ∧ e'.lastAttempt = e.lastAttempt
  pending : ∀ (r : Nat) (p' : Pending), st'.pending[r]? = some p' →
    ∃ p : Pending, st.pending[r]? = some p ∧ p'.replay = p.replay ∧ p'.entry = p.entry

namespace Keeps

/-- The history shrinks, and pending requests stay. -/
theorem of_subset (hnext : st'.nextRequest = st.nextRequest) (hsub : st'.history ⊆ st.history)
    (hpending : st'.pending = st.pending) : Keeps st st' where
  next := hnext
  history e' he' := ⟨e', hsub he', rfl, rfl, rfl, rfl, rfl⟩
  pending _ p' hp' := ⟨p', hpending ▸ hp', rfl, rfl⟩

/-- A channel that is left as it is launches nothing. -/
theorem refl (st : ChannelState) : Keeps st st := of_subset rfl (List.Subset.refl _) rfl

/-- Operations in sequence that launch nothing. -/
theorem trans (h : Keeps st st') (h' : Keeps st' st'') : Keeps st st'' where
  next := h'.next.trans h.next
  history e'' he'' := by
    obtain ⟨e', he', hseq', hbody', hsent', hatt', hlast'⟩ := h'.history e'' he''
    obtain ⟨e, he, hseq, hbody, hsent, hatt, hlast⟩ := h.history e' he'
    exact ⟨e, he, hseq'.trans hseq, hbody'.trans hbody, hsent'.trans hsent, hatt'.trans hatt,
      hlast'.trans hlast⟩
  pending r p'' hp'' := by
    obtain ⟨p', hp', hreplay', hentry'⟩ := h'.pending r p'' hp''
    obtain ⟨p, hp, hreplay, hentry⟩ := h.pending r p' hp'
    exact ⟨p, hp, hreplay'.trans hreplay, hentry'.trans hentry⟩

/-- A record of a pending request changes in what is not its kind or entry. -/
theorem modify {f : Pending → Pending} (hnext : st'.nextRequest = st.nextRequest)
    (hhistory : st'.history = st.history) (hpending : st'.pending = st.pending.modify request f)
    (hf : ∀ p, (f p).replay = p.replay ∧ (f p).entry = p.entry) : Keeps st st' where
  next := hnext
  history e' he' := ⟨e', hhistory ▸ he', rfl, rfl, rfl, rfl, rfl⟩
  pending r p' hp' := by
    rw [hpending] at hp'
    by_cases heq : request = r
    · subst heq
      rw [Std.TreeMap.getElem?_modify_self] at hp'
      obtain ⟨p, hp, rfl⟩ := Option.map_eq_some_iff.mp hp'
      exact ⟨p, hp, hf p⟩
    · rw [Std.TreeMap.getElem?_modify, if_neg (by simpa using heq)] at hp'
      exact ⟨p', hp', rfl, rfl⟩

/-- One entry changes in what is not its record of replays. -/
theorem touch {f : ReplayEntry → ReplayEntry} (hnext : st'.nextRequest = st.nextRequest)
    (hhistory : st'.history = updateEntry sequence f st.history)
    (hpending : ∀ (r : Nat) (p : Pending), st'.pending[r]? = some p → st.pending[r]? = some p)
    (hf : ∀ e ∈ st.history, e.sequence = sequence → (f e).sequence = e.sequence ∧
      (f e).body = e.body ∧ (f e).sentAt = e.sentAt ∧ (f e).attempts = e.attempts ∧
      (f e).lastAttempt = e.lastAttempt) : Keeps st st' where
  next := hnext
  history e' he' := by
    rw [hhistory] at he'
    rcases mem_of_mem_updateFirst he' with he | ⟨e, he, hseq, rfl⟩
    · exact ⟨e', he, rfl, rfl, rfl, rfl, rfl⟩
    · exact ⟨e, he, hf e he (of_decide_eq_true hseq)⟩
  pending r p' hp' := ⟨p', hpending r p' hp', rfl, rfl⟩

end Keeps

private theorem leave_record (request : Nat) (replay : Bool) (e : ReplayEntry) :
    (leave request replay e).sequence = e.sequence ∧ (leave request replay e).body = e.body ∧
      (leave request replay e).sentAt = e.sentAt ∧
      (leave request replay e).attempts = e.attempts ∧
      (leave request replay e).lastAttempt = e.lastAttempt := by
  unfold leave
  split <;> exact ⟨rfl, rfl, rfl, rfl, rfl⟩

/-- A request that finishes launches nothing. -/
theorem keeps_finishRequest (st : ChannelState) (request : Nat) :
    Keeps st (st.finishRequest request) := by
  have hpending : ∀ (r : Nat) (p : Pending), (st.finishRequest request).pending[r]? = some p →
      st.pending[r]? = some p := by
    intro r p hp
    rw [getElem?_finishRequest] at hp
    split at hp
    · cases hp
    · exact hp
  unfold finishRequest at hpending ⊢
  split at hpending
  · exact .refl st
  · next p _ =>
    cases hentry : p.entry with
    | none =>
      exact ⟨rfl, fun e' he' => ⟨e', he', rfl, rfl, rfl, rfl, rfl⟩,
        fun r p' hp' => ⟨p', hpending r p' hp', rfl, rfl⟩⟩
    | some sequence =>
      exact .touch rfl rfl hpending fun e _ _ => leave_record request p.replay e

/-- Retiring an entry launches nothing. -/
theorem keeps_retire (st : ChannelState) (request : Nat) : Keeps st (st.retire request) := by
  unfold retire
  split
  · exact .refl st
  · split
    · exact .touch rfl rfl (fun _ _ hp => hp) fun _ _ _ => ⟨rfl, rfl, rfl, rfl, rfl⟩
    · exact .refl st

/-- Forgetting old entries launches nothing. -/
theorem keeps_sweep (budgets : Budgets) (st : ChannelState) (now : Nat) :
    Keeps st (st.sweep budgets now).1 :=
  .of_subset rfl List.filter_sublist.subset rfl

/-- A terminal launches nothing. -/
theorem keeps_terminate (budgets : Budgets) (st : ChannelState) (terminal : Terminal) :
    Keeps st (st.terminate budgets terminal).1 :=
  .of_subset rfl (List.nil_subset _) rfl

/-! ## A reply -/

/-- A reply that renews nothing keeps every record. -/
theorem keeps_noteReply {replyId : Bytes} (h : RunningChannel.renews st request replyId = none) :
    Keeps st (st.noteReply request replyId now) := by
  cases hentry : st.pending[request]?.bind (·.entry) with
  | none =>
    have hhistory : (st.noteReply request replyId now).history = st.history := by
      simp [noteReply, hentry]
    exact .of_subset rfl (by rw [hhistory]; exact List.Subset.refl _) rfl
  | some sequence =>
    rw [RunningChannel.renews, hentry, Option.filter_some] at h
    have hsame : ∀ e ∈ st.history, e.sequence = sequence → e.replyId = some replyId := by
      intro e he hseq
      by_contra hne
      have hany : (st.history.any fun entry =>
          entry.sequence = sequence ∧ entry.replyId ≠ some replyId) = true :=
        List.any_eq_true.mpr ⟨e, he, by simp [hseq, hne]⟩
      rw [if_pos hany] at h
      cases h
    have hhistory : (st.noteReply request replyId now).history = updateEntry sequence (fun entry =>
        if entry.replyId ≠ some replyId then { entry with replyId := some replyId, attempts := 0 }
        else entry) st.history := by
      simp only [noteReply, hentry]
    refine .touch rfl hhistory (fun _ _ hp => hp) fun e he hseq => ?_
    rw [if_neg (not_not_intro (hsame e he hseq))]
    exact ⟨rfl, rfl, rfl, rfl, rfl⟩

/-- A reply that renews a sequence resets its attempts and keeps all else. -/
theorem noteReply_renews {replyId : Bytes} (h : st.Valid)
    (hrenews : RunningChannel.renews st request replyId = some sequence) :
    ∀ e' ∈ (st.noteReply request replyId now).history, ∃ e ∈ st.history,
      e'.sequence = e.sequence ∧ e'.body = e.body ∧ e'.sentAt = e.sentAt ∧
      e'.attempts = (if e.sequence = sequence then 0 else e.attempts) ∧
      e'.lastAttempt = e.lastAttempt := by
  obtain ⟨hentry, hany⟩ := Option.filter_eq_some_iff.mp hrenews
  have hhistory : (st.noteReply request replyId now).history = updateEntry sequence (fun entry =>
      if entry.replyId ≠ some replyId then { entry with replyId := some replyId, attempts := 0 }
      else entry) st.history := by
    simp only [noteReply, hentry]
  obtain ⟨found, hfound, hnew⟩ := List.any_eq_true.mp hany
  obtain ⟨hfseq, hfnew⟩ := of_decide_eq_true hnew
  intro e' he'
  rw [hhistory] at he'
  rcases h.shelved.mem_updateEntry.mp he' with ⟨he, hne⟩ | ⟨e, he, hseq, rfl⟩
  · exact ⟨e', he, rfl, rfl, rfl, by rw [if_neg hne], rfl⟩
  · obtain rfl := h.shelved.unique he hfound (hseq.trans hfseq.symm)
    refine ⟨e, he, ?_⟩
    rw [if_pos hfnew, if_pos hseq]
    exact ⟨rfl, rfl, rfl, rfl, rfl⟩

/-! ## Launches -/

/-- An entry after an original is recorded was there before, or is the new one. -/
theorem mem_remember {e' : ReplayEntry}
    (he' : e' ∈ (st.remember budgets body request now).2.1.history) :
    (∃ e ∈ st.history, e'.sequence = e.sequence ∧ e'.body = e.body ∧ e'.sentAt = e.sentAt ∧
      e'.attempts = e.attempts ∧ e'.lastAttempt = e.lastAttempt) ∨
    (e'.sequence = request ∧ e'.body = body ∧ e'.sentAt = now ∧ e'.attempts = 0) := by
  have hrekey : (st.rekey budgets body).1.history ⊆ st.history := by
    rcases (rekey_spec budgets st body).2.2.2 with hnil | ⟨hsame, -⟩
    · rw [hnil]
      exact List.nil_subset _
    · rw [hsame]
      exact List.Subset.refl _
  simp only [remember] at he'
  split at he'
  · split at he'
    · exact Or.inl ⟨e', hrekey he', rfl, rfl, rfl, rfl, rfl⟩
    · next sequence history recorded hrecord =>
      have hmem : e' ∈ history := evict_sublist.subset he'
      unfold record at hrecord
      split at hrecord
      · simp only [Option.some.injEq, Prod.mk.injEq] at hrecord
        obtain ⟨-, rfl, -⟩ := hrecord
        rcases mem_of_mem_updateFirst hmem with he | ⟨e, he, -, rfl⟩
        · exact Or.inl ⟨e', hrekey he, rfl, rfl, rfl, rfl, rfl⟩
        · exact Or.inl ⟨e, hrekey he, rfl, rfl, rfl, rfl, rfl⟩
      · split at hrecord
        · cases hrecord
        · simp only [Option.some.injEq, Prod.mk.injEq] at hrecord
          obtain ⟨-, rfl, -⟩ := hrecord
          rcases List.mem_append.mp hmem with he | he
          · exact Or.inl ⟨e', hrekey he, rfl, rfl, rfl, rfl, rfl⟩
          · rw [List.mem_singleton.mp he]
            exact Or.inr ⟨rfl, rfl, rfl, rfl⟩
  · exact Or.inl ⟨e', he', rfl, rfl, rfl, rfl, rfl⟩

/-- What `replay_candidate` has checked of the entry it returns. -/
theorem replayCandidate_spec (h : st.replayCandidate now = some (sequence, body)) :
    (st.pending.toList.filter (·.2.replay)).length < maxChannelReplays ∧
      ∃ e ∈ st.history, e.sequence = sequence ∧ e.body = body ∧ e.pending = none ∧
        now - e.sentAt ≤ replayMaxAge ∧ e.attempts < replayMaxAttempts ∧
        ∀ last, e.lastAttempt = some last → replayRetry ≤ now - last := by
  unfold replayCandidate at h
  split at h
  · cases h
  · split at h
    · cases h
    · next hfew =>
      obtain ⟨e, hfind, heq⟩ := Option.map_eq_some_iff.mp h
      obtain ⟨rfl, rfl⟩ := Prod.mk.inj heq
      have hmem : e ∈ st.history :=
        (List.mem_insertionSort _).mp (List.mem_of_find?_eq_some hfind)
      have hchecks := List.find?_some hfind
      simp only [replayable, decide_eq_true_eq, not_or, Nat.not_le, Nat.not_lt, gt_iff_lt,
        Option.isSome_iff_ne_none, not_not, Option.any_eq_true, not_exists, not_and] at hchecks
      obtain ⟨⟨hage, hattempts, hfree⟩, hretry, -⟩ := hchecks
      refine ⟨Nat.not_le.mp hfew, e, hmem, rfl, rfl, hfree, hage, ?_, fun last hlast => ?_⟩
      · split at hattempts
        · exact hattempts
        · omega
      · have := hretry last hlast
        omega

/-- An original is inserted under the next number, with the record of its entry. -/
theorem launch_original_spec {closed : Bool}
    (hlaunch : st.launch budgets closed body none now = some (request, st', budgets')) :
    request = st.nextRequest + 1 ∧ st'.nextRequest = request ∧
      (∃ p : Pending, p.replay = false ∧ st'.pending = st.pending.insert request p) ∧
      ∀ e' ∈ st'.history, (∃ e ∈ st.history, e'.sequence = e.sequence ∧ e'.body = e.body ∧
        e'.sentAt = e.sentAt ∧ e'.attempts = e.attempts ∧ e'.lastAttempt = e.lastAttempt) ∨
        (e'.sequence = request ∧ e'.body = body ∧ e'.sentAt = now ∧ e'.attempts = 0) := by
  simp only [launch] at hlaunch
  split at hlaunch
  · cases hlaunch
  · simp only [Option.some.injEq, Prod.mk.injEq] at hlaunch
    obtain ⟨rfl, rfl, -⟩ := hlaunch
    let recorded := ({ st with nextRequest := st.nextRequest + 1 } : ChannelState).remember budgets
      body (st.nextRequest + 1) now
    have hmem := @mem_remember { st with nextRequest := st.nextRequest + 1 } budgets body
      (st.nextRequest + 1) now
    refine ⟨rfl, ?_, ⟨⟨false, recorded.1, none, false, none⟩, rfl, ?_⟩, fun e' he' => hmem he'⟩
    · rw [remember_spec]
    · rw [remember_spec]

/-- A replay is inserted under the next number and noted in its entry. -/
theorem launch_replay_spec {closed : Bool}
    (hlaunch : st.launch budgets closed body (some sequence) now = some (request, st', budgets')) :
    request = st.nextRequest + 1 ∧ st'.nextRequest = request ∧
      st'.pending = st.pending.insert request ⟨true, some sequence, none, false, none⟩ ∧
      st'.history = updateEntry sequence (fun entry => { entry with
        attempts := min 255 (entry.attempts + 1), lastAttempt := some now,
        pending := some request }) st.history := by
  simp only [launch] at hlaunch
  split at hlaunch
  · cases hlaunch
  · split at hlaunch
    · simp only [Option.some.injEq, Prod.mk.injEq] at hlaunch
      obtain ⟨rfl, rfl, -⟩ := hlaunch
      exact ⟨rfl, rfl, rfl, rfl⟩
    · cases hlaunch

end ChannelState

end TgWsProxy.H2
