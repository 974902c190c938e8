import TgWsProxy.H2.Launches

/-!
# Bounded replay

What a channel sends again, and how often. The log of launches is tied to the history
by `Tracked`; an entry counts its replays since its last renewal and remembers the time
of the latest, so the checks of `replay_candidate` bound the log.
-/

namespace TgWsProxy.H2

open TgWsProxy.Core

/-! ## The log of launches -/

namespace LaunchEvent

/-- A replay of an entry. -/
def replays (sequence : Nat) : LaunchEvent → Bool
  | .replayed _ q _ _ => q = sequence
  | _ => false

/-- The moments at which an entry was replayed. -/
def replayTime (sequence : Nat) : LaunchEvent → Option Nat
  | .replayed _ q _ time => if q = sequence then some time else none
  | _ => none

/-- A launch that a channel can have made by a time. -/
def Issued (last now : Nat) : LaunchEvent → Prop
  | .sent request _ time => request ≤ last ∧ time ≤ now
  | .replayed _ sequence _ time => sequence ≤ last ∧ time ≤ now
  | .renewed _ => True

/-- Originals have numbers of their own. -/
def Distinct : LaunchEvent → LaunchEvent → Prop
  | .sent request _ _, .sent request' _ _ => request' < request
  | _, _ => True

/-- Replays of one entry keep their distance. -/
def Apart : LaunchEvent → LaunchEvent → Prop
  | .replayed _ sequence _ time, .replayed _ sequence' _ time' =>
    sequence = sequence' → time' + replayRetry ≤ time
  | _, _ => True

/-- The replays of an entry since its attempts were last reset. -/
def sinceRenewal (sequence : Nat) (log : List LaunchEvent) : Nat :=
  (log.takeWhile (· ≠ .renewed sequence)).countP (replays sequence)

variable {log : List LaunchEvent} {sequence last now : Nat} {event : LaunchEvent}

private theorem sinceRenewal_cons_of_ne (h : event ≠ .renewed sequence) :
    sinceRenewal sequence (event :: log) =
      sinceRenewal sequence log + if event.replays sequence then 1 else 0 := by
  simp [sinceRenewal, h, List.countP_cons]

private theorem sinceRenewal_renewed : sinceRenewal sequence (.renewed sequence :: log) = 0 := by
  simp [sinceRenewal]

private theorem sinceRenewal_le_countP : sinceRenewal sequence log ≤ log.countP
    (replays sequence) :=
  (List.takeWhile_sublist _).countP_le

/-- An event that was issued stays so, later and among more requests. -/
theorem Issued.mono {last' now' : Nat} (h : event.Issued last now) (hlast : last ≤ last')
    (hnow : now ≤ now') : event.Issued last' now' := by
  cases event with
  | sent _ _ _ | replayed _ _ _ _ => exact ⟨h.1.trans hlast, h.2.trans hnow⟩
  | renewed _ => trivial

/-- A request that is still to come has no replays. -/
theorem countP_replays_eq_zero (h : ∀ event ∈ log, event.Issued last now) (hnew : last < sequence) :
    log.countP (replays sequence) = 0 := by
  rw [List.countP_eq_zero]
  intro event hmem
  have hissued := h event hmem
  cases event with
  | sent _ _ _ | renewed _ => simp [replays]
  | replayed _ q _ _ =>
    have hle : q ≤ last := hissued.1
    have hne : q ≠ sequence := by omega
    simpa [replays] using hne

/-- Without a reset in between, a stretch of the log counts no more than the reset count. -/
theorem countP_le_sinceRenewal {segment : List LaunchEvent} (h : .renewed sequence ∉ segment) :
    segment.countP (replays sequence) ≤ sinceRenewal sequence (segment ++ log) := by
  have hkept : ∀ event ∈ segment, decide (event ≠ .renewed sequence) = true := by
    intro event hmem
    exact decide_eq_true fun heq => h (heq ▸ hmem)
  rw [sinceRenewal, List.takeWhile_append_of_pos hkept, List.countP_append]
  exact Nat.le_add_right _ _

end LaunchEvent

open LaunchEvent

variable {s t : RunningChannel}

/-- The history keeps account of the log, and the log obeys the limits so far. -/
structure Tracked (s : RunningChannel) : Prop where
  valid : s.state.Valid
  entries : ∀ e ∈ s.state.history, .sent e.sequence e.body e.sentAt ∈ s.launched ∧
    sinceRenewal e.sequence s.launched ≤ e.attempts ∧ e.attempts ≤ replayMaxAttempts ∧
    ∀ r b t, .replayed r e.sequence b t ∈ s.launched → ∃ last, e.lastAttempt = some last ∧ t ≤ last
  issued : ∀ event ∈ s.launched, event.Issued s.state.nextRequest s.clock
  distinct : s.launched.Pairwise Distinct
  bodies : ∀ r q b t, .replayed r q b t ∈ s.launched →
    ∃ sent, .sent q b sent ∈ s.launched ∧ sent ≤ t ∧ t ≤ sent + replayMaxAge
  apart : s.launched.Pairwise Apart
  renewal : ∀ q log, log <:+ s.launched → sinceRenewal q log ≤ replayMaxAttempts
  single : ∀ (r r' : Nat) (p p' : Pending) (q : Nat), s.state.pending[r]? = some p →
    s.state.pending[r']? = some p' → p.replay = true → p'.replay = true →
    p.entry = some q → p'.entry = some q → r = r'
  few : ∀ rs : List Nat, rs.Nodup →
    (∀ r ∈ rs, ∃ p : Pending, s.state.pending[r]? = some p ∧ p.replay = true) →
    rs.length ≤ maxChannelReplays

namespace Tracked

/-- A step that launches nothing and keeps the records. -/
theorem keep (h : Tracked s) (hk : s.state.Keeps t.state) (hvalid : t.state.Valid)
    (hlog : t.launched = s.launched) (hclock : s.clock ≤ t.clock) : Tracked t := by
  refine ⟨hvalid, fun e' he' => ?_, fun event hmem => ?_, ?_, ?_, ?_, ?_,
    fun r r' p p' q hp hp' hr hr' hq hq' => ?_, fun rs hnodup hrs => ?_⟩
  · obtain ⟨e, he, hseq, hbody, hsent, hatt, hlast⟩ := hk.history e' he'
    rw [hseq, hbody, hsent, hatt, hlast, hlog]
    exact h.entries e he
  · rw [hlog] at hmem
    rw [hk.next]
    exact (h.issued event hmem).mono (Nat.le_refl _) hclock
  · exact hlog ▸ h.distinct
  · exact hlog ▸ h.bodies
  · exact hlog ▸ h.apart
  · exact hlog ▸ h.renewal
  · obtain ⟨o, ho, horeplay, hoentry⟩ := hk.pending r p hp
    obtain ⟨o', ho', horeplay', hoentry'⟩ := hk.pending r' p' hp'
    exact h.single r r' o o' q ho ho' (horeplay ▸ hr) (horeplay' ▸ hr') (hoentry ▸ hq)
      (hoentry' ▸ hq')
  · apply h.few rs hnodup
    intro r hr
    obtain ⟨p, hp, hreplay⟩ := hrs r hr
    obtain ⟨o, ho, horeplay, -⟩ := hk.pending r p hp
    exact ⟨o, ho, horeplay ▸ hreplay⟩

/-- A new reply prefix resets the attempts of its entry. -/
theorem renew (h : Tracked s) {request sequence : Nat} {replyId : Bytes}
    (hrenews : RunningChannel.renews s.state request replyId = some sequence)
    (hstate : t.state = s.state.noteReply request replyId s.clock)
    (hlog : t.launched = .renewed sequence :: s.launched) (hclock : t.clock = s.clock) :
    Tracked t := by
  refine ⟨hstate ▸ h.valid.noteReply request replyId s.clock, fun e' he' => ?_,
    fun event hmem => ?_, ?_, fun r q b time hmem => ?_, ?_, fun q log hsuffix => ?_, ?_, ?_⟩
  · rw [hstate] at he'
    obtain ⟨e, he, hseq, hbody, hsent, hatt, hlast⟩ :=
      ChannelState.noteReply_renews h.valid hrenews e' he'
    obtain ⟨horigin, hsince, hmax, htimes⟩ := h.entries e he
    rw [hseq, hbody, hsent, hatt, hlast, hlog]
    refine ⟨List.mem_cons_of_mem _ horigin, ?_, ?_, fun r b time hmem => ?_⟩
    · by_cases heq : e.sequence = sequence
      · rw [if_pos heq, heq, sinceRenewal_renewed]
      · rw [if_neg heq, sinceRenewal_cons_of_ne (by simpa using Ne.symm heq)]
        simpa [replays] using hsince
    · split
      · exact Nat.zero_le _
      · exact hmax
    · exact htimes r b time ((List.mem_cons.mp hmem).resolve_left (by simp))
  · rw [hlog] at hmem
    rw [hstate, hclock]
    rcases List.mem_cons.mp hmem with rfl | hmem
    · trivial
    · exact h.issued event hmem
  · rw [hlog]
    exact List.pairwise_cons.mpr ⟨fun _ _ => trivial, h.distinct⟩
  · rw [hlog] at hmem ⊢
    obtain ⟨sent, hsent, hbounds⟩ := h.bodies r q b time
      ((List.mem_cons.mp hmem).resolve_left (by simp))
    exact ⟨sent, List.mem_cons_of_mem _ hsent, hbounds⟩
  · rw [hlog]
    exact List.pairwise_cons.mpr ⟨fun _ _ => trivial, h.apart⟩
  · rw [hlog] at hsuffix
    rcases List.suffix_cons_iff.mp hsuffix with rfl | hsuffix
    · by_cases heq : sequence = q
      · rw [heq, sinceRenewal_renewed]
        exact Nat.zero_le _
      · rw [sinceRenewal_cons_of_ne (by simpa using heq)]
        simpa [replays] using h.renewal q s.launched List.suffix_rfl
    · exact h.renewal q log hsuffix
  · rw [hstate]
    exact h.single
  · rw [hstate]
    exact h.few

/-- A replay that is still pending names no entry that is free. -/
theorem free (h : Tracked s) {e : ReplayEntry} (he : e ∈ s.state.history) (hfree : e.pending = none)
    {r : Nat} {p : Pending} (hp : s.state.pending[r]? = some p) (hreplay : p.replay = true) :
    p.entry ≠ some e.sequence := by
  intro hentry
  rcases h.valid.linked.tracked r p hp e he hentry with horiginal | hpending
  · obtain ⟨p', hp', hnot, -⟩ := h.valid.linked.originals e he r horiginal
    obtain rfl := Option.some.inj (hp.symm.trans hp')
    rw [hreplay] at hnot
    cases hnot
  · rw [hfree] at hpending
    cases hpending

/-- An original request opens the account of its entry. -/
theorem launchOriginal (h : Tracked s) (budgets : Budgets) (body : Bytes) :
    Tracked (s.launch budgets body none) := by
  unfold RunningChannel.launch
  split
  · exact h
  · next request state budgets' hlaunch =>
    have hvalid := h.valid.launch hlaunch
    obtain ⟨hrequest, hnext, ⟨p₀, hkind, hpending⟩, hhistory⟩ :=
      ChannelState.launch_original_spec hlaunch
    -- the new request is no replay
    have hold : ∀ (r : Nat) (p : Pending), state.pending[r]? = some p → p.replay = true →
        s.state.pending[r]? = some p := by
      intro r p hp hreplay
      rw [hpending, getElem?_insert] at hp
      split at hp
      · rw [← Option.some.inj hp, hkind] at hreplay
        cases hreplay
      · exact hp
    refine ⟨hvalid, fun e' he' => ?_, fun event hmem => ?_, List.pairwise_cons.mpr ⟨?_, h.distinct⟩,
      fun r q b time hmem => ?_, List.pairwise_cons.mpr ⟨fun _ _ => trivial, h.apart⟩,
      fun q log hsuffix => ?_, fun r r' p p' q hp hp' hr hr' => ?_, fun rs hnodup hrs => ?_⟩
    · rcases hhistory e' he' with
        ⟨e, he, hseq, hbody, hsent, hatt, hlast⟩ | ⟨hseq, hbody, hsent, hatt⟩
      · obtain ⟨horigin, hsince, hmax, htimes⟩ := h.entries e he
        rw [hseq, hbody, hsent, hatt, hlast, sinceRenewal_cons_of_ne (by simp)]
        exact ⟨List.mem_cons_of_mem _ horigin, by simpa [replays] using hsince, hmax,
          fun r b time hmem => htimes r b time ((List.mem_cons.mp hmem).resolve_left (by simp))⟩
      · have hzero : s.launched.countP (replays request) = 0 :=
          countP_replays_eq_zero h.issued (by omega)
        have hsince : sinceRenewal request s.launched = 0 :=
          Nat.le_zero.mp (hzero ▸ sinceRenewal_le_countP)
        rw [hseq, hbody, hsent, hatt, sinceRenewal_cons_of_ne (by simp), hsince]
        refine ⟨List.mem_cons_self .., by simp [replays], Nat.zero_le _, fun r b time hmem => ?_⟩
        have hmem' := (List.mem_cons.mp hmem).resolve_left (by simp)
        have hissued : request ≤ s.state.nextRequest := (h.issued _ hmem').1
        omega
    · rcases List.mem_cons.mp hmem with rfl | hmem
      · exact ⟨hnext.ge, Nat.le_refl _⟩
      · have hle : s.state.nextRequest ≤ state.nextRequest := by omega
        exact (h.issued event hmem).mono hle (Nat.le_refl _)
    · intro event hmem
      cases event with
      | sent r _ _ =>
        have hissued : r ≤ s.state.nextRequest := (h.issued _ hmem).1
        have hlt : r < request := by omega
        exact hlt
      | replayed _ _ _ _ | renewed _ => trivial
    · obtain ⟨sent, hsent, hbounds⟩ := h.bodies r q b time
        ((List.mem_cons.mp hmem).resolve_left (by simp))
      exact ⟨sent, List.mem_cons_of_mem _ hsent, hbounds⟩
    · rcases List.suffix_cons_iff.mp hsuffix with rfl | hsuffix
      · rw [sinceRenewal_cons_of_ne (by simp)]
        simpa [replays] using h.renewal q s.launched List.suffix_rfl
      · exact h.renewal q log hsuffix
    · exact h.single r r' p p' q (hold r p hp hr) (hold r' p' hp' hr') hr hr'
    · apply h.few rs hnodup
      intro r hr
      obtain ⟨p, hp, hreplay⟩ := hrs r hr
      exact ⟨p, hold r p hp hreplay, hreplay⟩

/-- Pending replays are among those that `replay_candidate` counts. -/
theorem length_le_replays (st : ChannelState) {rs : List Nat} (hnodup : rs.Nodup)
    (hrs : ∀ r ∈ rs, ∃ p : Pending, st.pending[r]? = some p ∧ p.replay = true) :
    rs.length ≤ (st.pending.toList.filter (·.2.replay)).length := by
  have hsub : rs ⊆ (st.pending.toList.filter (·.2.replay)).map Prod.fst := by
    intro r hr
    obtain ⟨p, hp, hreplay⟩ := hrs r hr
    have hmem : (r, p) ∈ st.pending.toList := Std.TreeMap.mem_toList_iff_getElem?_eq_some.mpr hp
    exact List.mem_map_of_mem (List.mem_filter.mpr ⟨hmem, hreplay⟩)
  have hle := (List.subperm_of_subset hnodup hsub).length_le
  rwa [List.length_map] at hle

/-- A replay of a candidate is one more in every account. -/
theorem launchReplay (h : Tracked s) {sequence : Nat} {body : Bytes} (budgets : Budgets)
    (hcandidate : s.state.replayCandidate s.clock = some (sequence, body)) :
    Tracked (s.launch budgets body (some sequence)) := by
  obtain ⟨hfew, e, he, rfl, rfl, hfree, hage, hattempts, hretry⟩ :=
    ChannelState.replayCandidate_spec hcandidate
  obtain ⟨horigin, hsince, hmax, htimes⟩ := h.entries e he
  have hissued : e.sequence ≤ s.state.nextRequest ∧ e.sentAt ≤ s.clock := h.issued _ horigin
  unfold RunningChannel.launch
  split
  · exact h
  · next request state budgets' hlaunch =>
    have hvalid := h.valid.launch hlaunch
    obtain ⟨hrequest, hnext, hpending, hhistory⟩ := ChannelState.launch_replay_spec hlaunch
    have hsame : ∀ q, q ≠ e.sequence →
        sinceRenewal q (.replayed request e.sequence e.body s.clock :: s.launched) =
          sinceRenewal q s.launched := by
      intro q hne
      rw [sinceRenewal_cons_of_ne (by simp)]
      simp [replays, Ne.symm hne]
    have hone : sinceRenewal e.sequence
        (.replayed request e.sequence e.body s.clock :: s.launched) =
          sinceRenewal e.sequence s.launched + 1 := by
      rw [sinceRenewal_cons_of_ne (by simp)]
      simp [replays]
    have hget : ∀ (r : Nat) (p : Pending), state.pending[r]? = some p →
        r = request ∧ p.entry = some e.sequence ∨ r ≠ request ∧ s.state.pending[r]? = some p := by
      intro r p hp
      rw [hpending, getElem?_insert] at hp
      split at hp
      · next heq =>
        rw [← Option.some.inj hp]
        exact Or.inl ⟨heq.symm, rfl⟩
      · next hne => exact Or.inr ⟨Ne.symm hne, hp⟩
    refine ⟨hvalid, fun e' he' => ?_, fun event hmem => ?_,
      List.pairwise_cons.mpr ⟨fun _ _ => trivial, h.distinct⟩, fun r q b time hmem => ?_,
      List.pairwise_cons.mpr ⟨fun event hmem => ?_, h.apart⟩, fun q log hsuffix => ?_,
      fun r r' p p' q hp hp' hr hr' hq hq' => ?_, fun rs hnodup hrs => ?_⟩
    · have he'' : e' ∈ updateEntry e.sequence _ s.state.history := hhistory ▸ he'
      rcases h.valid.shelved.mem_updateEntry.mp he'' with ⟨hold, hne⟩ | ⟨old, hold, hseq, rfl⟩
      · obtain ⟨horigin', hsince', hmax', htimes'⟩ := h.entries e' hold
        rw [hsame e'.sequence hne]
        refine ⟨List.mem_cons_of_mem _ horigin', hsince', hmax', fun r b time hmem => ?_⟩
        refine htimes' r b time ((List.mem_cons.mp hmem).resolve_left fun heq => ?_)
        simp only [LaunchEvent.replayed.injEq] at heq
        exact hne heq.2.1
      · obtain rfl := h.valid.shelved.unique hold he hseq
        refine ⟨List.mem_cons_of_mem _ horigin, ?_, ?_, fun r b time hmem => ⟨s.clock, rfl, ?_⟩⟩
        · simp only [hone, replayMaxAttempts] at hattempts ⊢
          omega
        · simp only [replayMaxAttempts] at hattempts ⊢
          omega
        · rcases List.mem_cons.mp hmem with heq | hmem
          · simp only [LaunchEvent.replayed.injEq] at heq
            exact heq.2.2.2.le
          · exact (h.issued _ hmem).2
    · rcases List.mem_cons.mp hmem with rfl | hmem
      · exact ⟨by dsimp only; omega, Nat.le_refl _⟩
      · exact (h.issued event hmem).mono (by dsimp only; omega) (Nat.le_refl _)
    · rcases List.mem_cons.mp hmem with heq | hmem
      · simp only [LaunchEvent.replayed.injEq] at heq
        obtain ⟨-, rfl, rfl, rfl⟩ := heq
        exact ⟨e.sentAt, List.mem_cons_of_mem _ horigin, hissued.2, by omega⟩
      · obtain ⟨sent, hsent, hbounds⟩ := h.bodies r q b time hmem
        exact ⟨sent, List.mem_cons_of_mem _ hsent, hbounds⟩
    · cases event with
      | replayed r q b time =>
        rintro rfl
        obtain ⟨last, hlast, hle⟩ := htimes r b time hmem
        have hgap := hretry last hlast
        have hpos : 0 < replayRetry := by decide
        omega
      | sent _ _ _ | renewed _ => trivial
    · rcases List.suffix_cons_iff.mp hsuffix with rfl | hsuffix
      · by_cases heq : q = e.sequence
        · rw [heq, hone]
          omega
        · rw [hsame q heq]
          exact h.renewal q s.launched List.suffix_rfl
      · exact h.renewal q log hsuffix
    · rcases hget r p hp with ⟨rfl, hentry⟩ | ⟨hne, hold⟩
      · rcases hget r' p' hp' with ⟨rfl, -⟩ | ⟨-, hold'⟩
        · rfl
        · rw [hentry] at hq
          exact absurd (hq'.trans hq.symm) (h.free he hfree hold' hr')
      · rcases hget r' p' hp' with ⟨rfl, hentry'⟩ | ⟨-, hold'⟩
        · rw [hentry'] at hq'
          exact absurd (hq.trans hq'.symm) (h.free he hfree hold hr)
        · exact h.single r r' p p' q hold hold' hr hr' hq hq'
    · have herase : (rs.erase request).length ≤
          (s.state.pending.toList.filter (·.2.replay)).length := by
        apply length_le_replays s.state (hnodup.erase request)
        intro r hr
        obtain ⟨hne, hr⟩ := hnodup.mem_erase_iff.mp hr
        obtain ⟨p, hp, hreplay⟩ := hrs r hr
        rcases hget r p hp with ⟨heq, -⟩ | ⟨-, hold⟩
        · exact absurd heq hne
        · exact ⟨p, hold, hreplay⟩
      have hlength : rs.length ≤ (rs.erase request).length + 1 := by
        rw [List.length_erase]
        split <;> omega
      omega

/-! ## Steps -/

/-- A channel that fails launches nothing. -/
theorem fail (h : Tracked s) (terminal : Terminal) : Tracked (s.fail terminal) := by
  unfold RunningChannel.fail
  split
  · exact h
  · exact h.keep (.refl _) h.valid rfl (Nat.le_refl _)

/-- A request that is retired and aborted launches nothing. -/
theorem retireAndAbort (h : Tracked s) (request : Nat) : Tracked (s.retireAndAbort request) := by
  unfold RunningChannel.retireAndAbort
  split
  · exact h.keep (ChannelState.keeps_retire _ _) (h.valid.retire request) rfl (Nat.le_refl _)
  · exact h

/-- A reply renews at most the entry of its request. -/
theorem deliver (h : Tracked s) (request : Nat) (reply : BufferedReply) :
    Tracked (s.deliver request reply) := by
  have hvalid := h.valid.noteReply request reply.replayId s.clock
  unfold RunningChannel.deliver
  split
  · exact h
  · cases hrenews : RunningChannel.renews s.state request reply.replayId with
    | none =>
      have hkeep : s.state.Keeps (s.state.noteReply request reply.replayId s.clock) :=
        ChannelState.keeps_noteReply hrenews
      dsimp only
      split
      · apply fail
        exact h.keep hkeep hvalid rfl (Nat.le_refl _)
      · refine h.keep (hkeep.trans ?_) ?_ rfl (Nat.le_refl _)
        · exact .of_subset rfl (List.Subset.refl _) rfl
        · exact hvalid.congr rfl rfl rfl rfl
    | some sequence =>
      have hnoted : Tracked { s with
          state := s.state.noteReply request reply.replayId s.clock
          launched := .renewed sequence :: s.launched } := h.renew hrenews rfl rfl rfl
      dsimp only
      split
      · exact hnoted.fail _
      · refine hnoted.keep ?_ ?_ rfl (Nat.le_refl _)
        · exact .of_subset rfl (List.Subset.refl _) rfl
        · exact hvalid.congr rfl rfl rfl rfl

/-- A replay is logged, and counted with its entry. -/
theorem replay (h : Tracked s) (budgets : Budgets) (granted : Bool) :
    Tracked (s.replay budgets granted) := by
  unfold RunningChannel.replay
  split
  · next sequence body hcandidate =>
    split
    · exact h.launchReplay budgets hcandidate
    · exact h
  · exact h

/-- A turn of the recovery loop launches one replay at most. -/
theorem recover (h : Tracked s) (room : Option Nat) (budgets : Budgets) (granted : Bool) :
    Tracked (s.recover room budgets granted) := by
  have hswept : Tracked { s with state := (s.state.sweep budgets s.clock).1 } :=
    h.keep (ChannelState.keeps_sweep budgets _ _) (h.valid.sweep budgets s.clock) rfl
      (Nat.le_refl _)
  have hrotated : ∀ {u : RunningChannel}, Tracked u → Tracked u.rotate := fun hu =>
    hu.keep (.refl _) hu.valid rfl (Nat.le_refl _)
  unfold RunningChannel.recover
  cases room with
  | none => exact (hrotated hswept).replay budgets granted
  | some request =>
    apply replay
    apply hrotated
    dsimp only
    split
    · exact hswept.retireAndAbort request
    · exact hswept

/-- A call of `receive` leaves requests and history alone. -/
theorem returned (h : Tracked s) (hstate : t.state = { s.state with terminal := t.state.terminal })
    (hlog : t.launched = s.launched) (hclock : t.clock = s.clock) : Tracked t := by
  apply h.keep _ _ hlog hclock.ge
  · rw [hstate]
    exact .of_subset rfl (List.Subset.refl _) rfl
  · rw [hstate]
    exact h.valid.congr rfl rfl rfl rfl

/-- Every step keeps the log tied to the history. -/
theorem step (h : Tracked s) {a : ChannelAction} (hstep : channelSystem.step s a = some t) :
    Tracked t := by
  cases a with
  | tick elapsed =>
    obtain rfl := Option.some.inj hstep
    exact h.keep (.refl _) h.valid rfl (Nat.le_add_right _ _)
  | uploadWaits _ | uploadReady | progress | nativeWrite _ | replyDropped _ =>
    obtain rfl := Option.some.inj hstep
    exact h.keep (.of_subset rfl (List.Subset.refl _) rfl) (h.valid.congr rfl rfl rfl rfl) rfl
      (Nat.le_refl _)
  | send body budgets =>
    obtain rfl := Option.some.inj hstep
    exact h.launchOriginal budgets body
  | markStarted request generation =>
    obtain rfl := Option.some.inj hstep
    exact h.keep (.modify rfl rfl rfl fun _ => ⟨rfl, rfl⟩) (h.valid.markStarted _ _) rfl
      (Nat.le_refl _)
  | markSent request =>
    obtain rfl := Option.some.inj hstep
    exact h.keep (.modify rfl rfl rfl fun _ => ⟨rfl, rfl⟩) (h.valid.markSent _ _) rfl
      (Nat.le_refl _)
  | markReceiving request =>
    obtain rfl := Option.some.inj hstep
    exact h.keep (.modify rfl rfl rfl fun _ => ⟨rfl, rfl⟩) (h.valid.markReceiving _ _) rfl
      (Nat.le_refl _)
  | deliver request reply =>
    simp only [channelSystem, RunningChannel.step] at hstep
    split at hstep
    · obtain rfl := Option.some.inj hstep
      exact h.deliver request reply
    · cases hstep
  | trySend i =>
    obtain ⟨reply, -, rfl⟩ := Option.map_eq_some_iff.mp hstep
    unfold RunningChannel.trySend
    dsimp only
    split
    · exact h.keep (.refl _) h.valid rfl (Nat.le_refl _)
    · apply fail
      exact h.keep (.refl _) h.valid rfl (Nat.le_refl _)
  | finishRequest request =>
    obtain rfl := Option.some.inj hstep
    exact h.keep (ChannelState.keeps_finishRequest ..) (h.valid.finishRequest request) rfl
      (Nat.le_refl _)
  | fail terminal =>
    obtain rfl := Option.some.inj hstep
    exact h.fail terminal
  | terminate budgets =>
    obtain ⟨terminal, -, rfl⟩ := Option.map_eq_some_iff.mp hstep
    exact h.keep (ChannelState.keeps_terminate budgets _ _) (h.valid.terminate budgets terminal) rfl
      (Nat.le_refl _)
  | retireAndAbort request =>
    obtain rfl := Option.some.inj hstep
    exact h.retireAndAbort request
  | recover room budgets granted =>
    obtain rfl := Option.some.inj hstep
    exact h.recover room budgets granted
  | wake =>
    simp only [channelSystem, RunningChannel.step] at hstep
    split at hstep
    · obtain rfl := Option.some.inj hstep
      exact h.returned rfl rfl rfl
    · cases hstep
  | receive =>
    obtain rfl := Option.some.inj hstep
    exact h.returned rfl rfl rfl
  | cancel call =>
    simp only [channelSystem, RunningChannel.step] at hstep
    split at hstep
    all_goals first
      | obtain rfl := Option.some.inj hstep
        exact h.returned rfl rfl rfl
      | cases hstep
  | enable call | take call | lock call | poll call | check call =>
    cases RunningChannel.callStep_of_step rfl hstep with
    | moves _ _ | pops _ | hands _ | packet _ _ => exact h.returned rfl rfl rfl

/-- A channel starts with nothing launched. -/
theorem of_start (h : channelSystem.start s) : Tracked s := by
  have hs : s = { clock := s.clock, state := { lastProgress := some s.clock } } := h
  rw [hs]
  refine ⟨.fresh rfl rfl, List.forall_mem_nil _, List.forall_mem_nil _, List.Pairwise.nil,
    (fun _ _ _ _ hmem => nomatch hmem), List.Pairwise.nil, fun q log hsuffix => ?_,
    fun r r' p p' q hp => ?_, fun rs _ hrs => ?_⟩
  · rw [List.eq_nil_of_suffix_nil hsuffix]
    exact Nat.zero_le _
  · simp at hp
  · cases rs with
    | nil => exact Nat.zero_le _
    | cons r rs =>
      obtain ⟨p, hp, -⟩ := hrs r (List.mem_cons_self ..)
      simp at hp

end Tracked

/-- In every run the log is tied to the history. -/
theorem tracked_of_reachable (h : channelSystem.Reachable s) : Tracked s :=
  h.invariant (fun _ => Tracked.of_start) fun _ _ _ htracked hstep => htracked.step hstep

/-! ## The bounds -/

/-- How a channel sends its packets again; the latest launch stands first in the log. -/
structure ReplayBounded (s : RunningChannel) : Prop where
  /-- Entries are named after an original request, which there is only one of. -/
  recorded : ∀ e ∈ s.state.history, .sent e.sequence e.body e.sentAt ∈ s.launched
  unique : ∀ r b t b' t', .sent r b t ∈ s.launched → .sent r b' t' ∈ s.launched → b = b' ∧ t = t'
  /-- A replay sends the body of the original, and not when that is too old. -/
  bodies : ∀ r q b t, .replayed r q b t ∈ s.launched →
    ∃ sent, .sent q b sent ∈ s.launched ∧ sent ≤ t ∧ t ≤ sent + replayMaxAge
  single : ∀ (r r' : Nat) (p p' : Pending) (q : Nat), s.state.pending[r]? = some p →
    s.state.pending[r']? = some p' → p.replay = true → p'.replay = true →
    p.entry = some q → p'.entry = some q → r = r'
  apart : ∀ later earlier r q b t r' b' t', s.launched = later ++ .replayed r q b t :: earlier →
    .replayed r' q b' t' ∈ earlier → t' + replayRetry ≤ t
  times : ∀ q, s.launched.countP (replays q) ≤ 16
  attempts : ∀ q later segment earlier, s.launched = later ++ segment ++ earlier →
    .renewed q ∉ segment → segment.countP (replays q) ≤ replayMaxAttempts
  replays : (s.state.pending.toList.filter (·.2.replay)).length ≤ maxChannelReplays

/-- A request number is sent once. -/
theorem Tracked.unique (h : Tracked s) {r : Nat} {b b' : Bytes} {time time' : Nat}
    (hb : .sent r b time ∈ s.launched) (hb' : .sent r b' time' ∈ s.launched) :
    b = b' ∧ time = time' := by
  have hsymm : Std.Symm fun x y : LaunchEvent => Distinct x y ∨ Distinct y x :=
    ⟨fun _ _ => Or.symm⟩
  by_contra hne
  have hevents : (LaunchEvent.sent r b time) ≠ .sent r b' time' := by
    simpa only [ne_eq, LaunchEvent.sent.injEq, true_and] using hne
  have hpair : s.launched.Pairwise fun x y => Distinct x y ∨ Distinct y x :=
    h.distinct.imp fun hd => Or.inl hd
  have hdistinct := hpair.forall hb hb' hevents
  rcases hdistinct with hlt | hlt <;> exact Nat.lt_irrefl r hlt

private theorem countP_replays_eq_length (sequence : Nat) (log : List LaunchEvent) :
    log.countP (LaunchEvent.replays sequence) = (log.filterMap (replayTime sequence)).length := by
  induction log with
  | nil => rfl
  | cons event log ih =>
    rw [List.countP_cons, List.filterMap_cons, ih]
    cases event with
    | sent _ _ _ | renewed _ => rfl
    | replayed r q b time =>
      by_cases hq : q = sequence <;> simp [LaunchEvent.replays, replayTime, hq]

private theorem mem_replayTimes {sequence time : Nat} {log : List LaunchEvent}
    (h : time ∈ log.filterMap (replayTime sequence)) :
    ∃ r b, .replayed r sequence b time ∈ log := by
  obtain ⟨event, hmem, htime⟩ := List.mem_filterMap.mp h
  cases event with
  | sent _ _ _ | renewed _ => cases htime
  | replayed r q b time' =>
    simp only [replayTime] at htime
    split at htime
    · next hq =>
      obtain rfl := Option.some.inj htime
      exact ⟨r, b, hq ▸ hmem⟩
    · cases htime

/-- Sixteen replays fill the thirty seconds of an entry. -/
theorem Tracked.times (h : Tracked s) (q : Nat) :
    s.launched.countP (LaunchEvent.replays q) ≤ 16 := by
  rw [countP_replays_eq_length]
  by_cases hnone : s.launched.filterMap (replayTime q) = []
  · rw [hnone]
    exact Nat.zero_le _
  · obtain ⟨time, htime⟩ := List.exists_mem_of_ne_nil _ hnone
    obtain ⟨r, b, hmem⟩ := mem_replayTimes htime
    obtain ⟨sent, hsent, -⟩ := h.bodies r q b time hmem
    have hwindow : ∀ t ∈ s.launched.filterMap (replayTime q), sent ≤ t ∧
        t ≤ sent + replayMaxAge := by
      intro t ht
      obtain ⟨r', b', hmem'⟩ := mem_replayTimes ht
      obtain ⟨sent', hsent', hbounds⟩ := h.bodies r' q b' t hmem'
      rw [(h.unique hsent hsent').2]
      exact hbounds
    have hapart : (s.launched.filterMap (replayTime q)).Pairwise
        fun later earlier => earlier + replayRetry ≤ later := by
      rw [List.pairwise_filterMap]
      refine h.apart.imp fun {x y} hxy t ht t' ht' => ?_
      cases x with
      | sent _ _ _ | renewed _ => cases ht
      | replayed r q b time =>
        cases y with
        | sent _ _ _ | renewed _ => cases ht'
        | replayed r' q' b' time' =>
          simp only [replayTime, Option.ite_none_right_eq_some, Option.some.injEq] at ht ht'
          obtain ⟨rfl, rfl⟩ := ht
          obtain ⟨rfl, rfl⟩ := ht'
          exact hxy rfl
    have hlength := length_mul_gap_le hapart (fun t ht => (hwindow t ht).1)
      fun t ht => (hwindow t ht).2
    simp only [replayRetry, replayMaxAge, seconds] at hlength
    omega

/-- Replay is bounded in every run of a channel. -/
theorem replayBounded (h : channelSystem.Reachable s) : ReplayBounded s := by
  have htracked := tracked_of_reachable h
  refine ⟨fun e he => (htracked.entries e he).1, fun r b t b' t' => htracked.unique,
    htracked.bodies, htracked.single, fun later earlier r q b t r' b' t' hlog hmem => ?_,
    htracked.times, fun q later segment earlier hlog hnone => ?_, ?_⟩
  · have hapart := htracked.apart
    rw [hlog] at hapart
    have htail := (List.pairwise_append.mp hapart).2.1
    exact (List.pairwise_cons.mp htail).1 _ hmem rfl
  · have hsuffix : segment ++ earlier <:+ s.launched :=
      ⟨later, by rw [hlog, List.append_assoc]⟩
    exact (countP_le_sinceRenewal hnone).trans (htracked.renewal q _ hsuffix)
  · have hkeys : ((s.state.pending.toList.filter (·.2.replay)).map Prod.fst).Nodup := by
      have hdistinct := Std.TreeMap.distinct_keys_toList (t := s.state.pending)
      have hnodup : s.state.pending.toList.Pairwise fun x y => x.1 ≠ y.1 := by
        refine hdistinct.imp fun hne heq => hne ?_
        rw [heq]
        exact Std.ReflCmp.compare_self
      exact List.pairwise_map.mpr (hnodup.filter _)
    have hle := htracked.few _ hkeys fun r hr => by
      obtain ⟨⟨r', p⟩, hmem, rfl⟩ := List.mem_map.mp hr
      obtain ⟨hmem, hreplay⟩ := List.mem_filter.mp hmem
      exact ⟨p, Std.TreeMap.mem_toList_iff_getElem?_eq_some.mp hmem, hreplay⟩
    rwa [List.length_map] at hle

/-- A packet without an answer is sent three times again, and after a first reply once more. -/
def replayActions : List ChannelAction :=
  let again : List ChannelAction := [.tick replayRequest, .recover none processDefaults true]
  let reply : BufferedReply := ⟨[[1]], 1, ⟨0, 1, ⟨.replies, 1⟩⟩, none⟩
  [.send (List.replicate 8 1) processDefaults, .markSent 1] ++ again ++ [.finishRequest 2] ++
    again ++ [.finishRequest 3] ++ again ++ [.finishRequest 4] ++ again ++
    [.deliver 1 reply, .replyDropped 1] ++ again

/-- One original, three replays, a renewal and a fourth replay. -/
def replayCheck (s : RunningChannel) : Bool :=
  s.launched.map (LaunchEvent.replays 1) = [true, false, true, true, true, false]

/-- A run that replays a packet as often as it may. -/
theorem replayBounded_run : ∃ s, channelSystem.run .initial replayActions = some s ∧
    replayCheck s = true ∧ ReplayBounded s := by
  obtain ⟨s, hrun, hcheck⟩ := channelSystem.exists_of_run .initial replayActions replayCheck
    (by decide +kernel)
  exact ⟨s, hrun, hcheck,
    replayBounded ((System.Reachable.start RunningChannel.initial_start).run hrun)⟩

end TgWsProxy.H2
