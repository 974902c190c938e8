import TgWsProxy.Core.StableSort
import TgWsProxy.H2.Wiring

/-!
# Making room

Which request `make_room` aborts for an upload: the least under its sort among those in
its scope. What is lost by it, and for which uploads it looks in the right place.
-/

namespace TgWsProxy.H2

open TgWsProxy.Core

/-- The order of the sort, replays first and then by time of sending, and of the lists
that it sorts. -/
def Candidate.rank (x : Candidate) : (Bool ×ₗ Nat) ×ₗ (Nat ×ₗ Nat) :=
  toLex (toLex (x.original, x.sent), toLex (x.channel, x.request))

/-- The budget that an upload waits for. -/
def Reservation.awaits (r : Reservation) : Option BudgetId :=
  match r.stage with
  | .channel => some (.channel r.channel)
  | .lane _ => some (.lane r.lane)
  | .global _ _ => some .requests
  | .reserved _ => none

namespace ChannelState

/-- A pending request carries the packet of an entry. -/
def Carries (st : ChannelState) (request sequence : Nat) : Prop :=
  st.pending[request]?.bind (·.entry) = some sequence

instance (st : ChannelState) (request sequence : Nat) : Decidable (st.Carries request sequence) :=
  inferInstanceAs (Decidable (_ = _))

/-- The entry is still there, neither too old nor out of attempts. -/
def Resendable (st : ChannelState) (now sequence : Nat) : Prop :=
  ∃ entry ∈ st.history, entry.sequence = sequence ∧ now - entry.sentAt ≤ replayMaxAge ∧
    entry.attempts < replayMaxAttempts

instance (st : ChannelState) (now sequence : Nat) : Decidable (st.Resendable now sequence) :=
  inferInstanceAs (Decidable (∃ _ ∈ _, _))

/-- A packet that is on its way or can be sent again. -/
def Recoverable (st : ChannelState) (now sequence : Nat) : Prop :=
  (∃ request, st.Carries request sequence) ∨ st.Resendable now sequence

private theorem exists_carries {st : ChannelState} {sequence : Nat} :
    (∃ request, st.Carries request sequence) ↔
      ∃ x ∈ st.pending.toList, x.2.entry = some sequence := by
  simp only [Carries, Option.bind_eq_some_iff, Prod.exists,
    Std.TreeMap.mem_toList_iff_getElem?_eq_some]

instance (st : ChannelState) (now sequence : Nat) : Decidable (st.Recoverable now sequence) :=
  decidable_of_iff ((∃ x ∈ st.pending.toList, x.2.entry = some sequence) ∨
    st.Resendable now sequence) (or_congr_left exists_carries.symm)

end ChannelState

namespace Process

/-- A channel whose requests `make_room` looks at: the upload's own where that one's budget
is short, else a registered one of the lane where the lane's is. -/
def InScope (s : Process) (c bytes d : Nat) : Prop :=
  ∃ ch, s.channel? c = some ch ∧
    if (s.budgets (.channel c)).hasCapacity bytes then
      (s.budgets (.lane ch.lane)).hasCapacity bytes = false ∧ d ∈ (s.lanes ch.lane).channels
    else d = c

/-- A request that may be aborted: all of it sent long ago, no answer begun, and a replay or
still in its channel's history. -/
def Removable (s : Process) (c request : Nat) : Prop :=
  ∃ ch p, s.channel? c = some ch ∧ ch.state.pending[request]? = some p ∧
    ch.state.removable s.clock p = true

instance (s : Process) (c request : Nat) : Decidable (s.Removable c request) :=
  decidable_of_iff ((s.channel? c).any fun ch =>
    ch.state.pending[request]?.any (ch.state.removable s.clock)) <| by
      simp only [Removable, Option.any_eq_true, exists_and_left]

/-- A request in scope that may be aborted, with its sort key. -/
def IsCandidate (s : Process) (c bytes : Nat) (x : Candidate) : Prop :=
  s.InScope c bytes x.channel ∧
    ∃ ch p, s.channel? x.channel = some ch ∧ ch.state.pending[x.request]? = some p ∧
      ch.state.removable s.clock p = true ∧ x.original = !p.replay ∧ x.sent = p.sentAt.getD 0

/-- `make_room` aborts the request of task `i`. -/
def Aborts (s : Process) (c bytes i : Nat) (t : RequestTask) : Prop :=
  s.tasks[i]? = some t ∧ ∃ x, s.firstCandidate c bytes = some x ∧
    t.guard.channel = x.channel ∧ t.guard.request = x.request

/-- What `make_room` aborts for an upload leaves its packet recoverable once it is finished. -/
def KeepsPacket (s : Process) (c bytes : Nat) : Prop :=
  ∀ i t ch sequence s', s.Aborts c bytes i t → s.channel? t.guard.channel = some ch →
    ch.state.Carries t.guard.request sequence →
    (s.makeRoom c bytes).step (.taskDropped i) = some s' →
    ∃ ch', s'.channel? t.guard.channel = some ch' ∧ ch'.state.Recoverable s'.clock sequence

/-- If no other request carries the packet of the least candidate, its entry can be sent again. -/
def SparesPacket (s : Process) (c bytes : Nat) : Prop :=
  ∀ x ch sequence, s.IsCandidate c bytes x → (∀ y, s.IsCandidate c bytes y → x.rank ≤ y.rank) →
    s.channel? x.channel = some ch → ch.state.Carries x.request sequence →
    (∀ request, ch.state.Carries request sequence → request = x.request) →
    ch.state.Resendable s.clock sequence

/-- An upload of the channel has long waited for this budget, which has no room for it. -/
structure Blocked (s : Process) (c bytes : Nat) (id : BudgetId) : Prop where
  waiting : ∃ r ∈ s.reservations, r.channel = c ∧ r.bytes = bytes ∧ r.awaits = some id
  full : (s.budgets id).hasCapacity bytes = false
  long : ∃ ch ∈ s.channel? c, ∃ upload ∈ ch.state.waitingUpload,
    upload.2 = bytes ∧ replayRequest ≤ s.clock - upload.1

instance (s : Process) (c bytes : Nat) (id : BudgetId) : Decidable (s.Blocked c bytes id) :=
  decidable_of_iff (_ ∧ _ ∧ _) ⟨fun ⟨hwaiting, hfull, hlong⟩ => ⟨hwaiting, hfull, hlong⟩,
    fun ⟨hwaiting, hfull, hlong⟩ => ⟨hwaiting, hfull, hlong⟩⟩

/-- A request on the lane of the channel that is charged to the budget and may be aborted. -/
def Relieves (s : Process) (c : Nat) (id : BudgetId) (t : RequestTask) : Prop :=
  t ∈ s.tasks ∧ (∃ ch, s.channel? c = some ch ∧ t.lane = ch.lane) ∧
    (∃ permit ∈ t.guard.permits, permit.budget = id) ∧
    s.Removable t.guard.channel t.guard.request

/-- If some request can give room in the budget, `make_room` aborts one that does. -/
def GivesRoom (s : Process) (c bytes : Nat) (id : BudgetId) : Prop :=
  (∃ t, s.Relieves c id t) → ∃ i t, s.Aborts c bytes i t ∧ s.Relieves c id t

/-- If some request can give room in the budget, there is one to abort in scope. -/
def LooksRight (s : Process) (c bytes : Nat) (id : BudgetId) : Prop :=
  (∃ t, s.Relieves c id t) → ∃ d request, s.InScope c bytes d ∧ s.Removable d request

end Process

/-- What is asked of the calls of `make_room` in a run. -/
def RoomCalls (P : Process → Nat → Nat → Prop) (s : Process) (a : ProcessAction) : Prop :=
  ∀ c bytes, a = .makeRoom c → s.roomFor c = some bytes → P s c bytes

variable {s s' : Process} {c d bytes i request sequence : Nat} {x y : Candidate}
  {ch : ChannelInner} {t : RequestTask}

/-! ## The candidates -/

/-- The order of candidates is that of their keys. -/
theorem before_iff (x y : Candidate) :
    x.before y = true ↔ toLex (x.original, x.sent) ≤ toLex (y.original, y.sent) := by
  simp only [Candidate.before, Prod.Lex.toLex_le_toLex]
  cases x.original <;> cases y.original <;> simp

/-- What one channel offers. -/
theorem mem_channelCandidates : x ∈ s.channelCandidates c ↔ x.channel = c ∧
    ∃ ch p, s.channel? c = some ch ∧ ch.state.pending[x.request]? = some p ∧
      ch.state.removable s.clock p = true ∧ x.original = !p.replay ∧
        x.sent = p.sentAt.getD 0 := by
  obtain ⟨original, sent, channel, request⟩ := x
  simp only [Process.channelCandidates]
  cases hch : s.channel? c with
  | none => simp
  | some ch =>
    simp only [List.mem_filterMap, Prod.exists, Std.TreeMap.mem_toList_iff_getElem?_eq_some,
      Option.ite_none_right_eq_some, Option.some.injEq, Candidate.mk.injEq]
    constructor
    · rintro ⟨id, p, hp, hremovable, rfl, rfl, rfl, rfl⟩
      exact ⟨rfl, ch, p, rfl, hp, hremovable, rfl, rfl⟩
    · rintro ⟨rfl, ch', p, rfl, hp, hremovable, rfl, rfl⟩
      exact ⟨request, p, hp, hremovable, rfl, rfl, rfl, rfl⟩

/-- The candidates of a channel come in the order of their requests. -/
theorem channelCandidates_increasing (s : Process) (c : Nat) :
    (s.channelCandidates c).Pairwise fun x y => x.request < y.request := by
  simp only [Process.channelCandidates]
  split
  · exact .nil
  · next ch _ =>
    refine List.pairwise_filterMap.mpr (Std.TreeMap.ordered_keys_toList.imp ?_)
    rintro ⟨id, p⟩ ⟨id', p'⟩ hlt x hx y hy
    simp only [Option.ite_none_right_eq_some, Option.some.injEq] at hx hy
    rw [← hx.2, ← hy.2]
    exact Nat.compare_eq_lt.mp hlt

/-- The list of candidates has just the candidates. -/
theorem mem_candidates : x ∈ s.candidates c bytes ↔ s.IsCandidate c bytes x := by
  simp only [Process.candidates, Process.IsCandidate, Process.InScope]
  cases hch : s.channel? c with
  | none => simp
  | some ch =>
    simp only [Option.some.injEq, exists_eq_left']
    cases hchannel : (s.budgets (.channel c)).hasCapacity bytes with
    | false =>
      simp only [Bool.not_false, if_true, mem_channelCandidates, Bool.false_eq_true, if_false]
      constructor
      · rintro ⟨rfl, h⟩
        exact ⟨rfl, h⟩
      · rintro ⟨hc, h⟩
        exact ⟨hc, hc ▸ h⟩
    | true =>
      simp only [Bool.not_true, Bool.false_eq_true, if_false, if_true]
      cases (s.budgets (.lane ch.lane)).hasCapacity bytes with
      | true => simp
      | false =>
        simp only [Bool.not_false, if_true, List.mem_flatMap, List.mem_filter,
          mem_channelCandidates, true_and]
        constructor
        · rintro ⟨d, ⟨hmem, -⟩, rfl, h⟩
          exact ⟨hmem, h⟩
        · rintro ⟨hmem, ch', p, hch', h⟩
          exact ⟨x.channel, ⟨hmem, by simp [hch']⟩, rfl, ch', p, hch', h⟩

/-- The candidates come in the order of their channels and requests. -/
theorem Wired.candidates_increasing (h : Wired s) (c bytes : Nat) :
    (s.candidates c bytes).Pairwise fun x y =>
      toLex (x.channel, x.request) < toLex (y.channel, y.request) := by
  have hone : ∀ d, (s.channelCandidates d).Pairwise fun x y =>
      toLex (x.channel, x.request) < toLex (y.channel, y.request) := fun d => by
    refine (channelCandidates_increasing s d).imp_of_mem fun hx hy hlt => ?_
    rw [Prod.Lex.toLex_lt_toLex]
    exact Or.inr ⟨(mem_channelCandidates.mp hx).1.trans (mem_channelCandidates.mp hy).1.symm, hlt⟩
  simp only [Process.candidates]
  split
  · exact .nil
  · next ch _ =>
    split
    · exact hone c
    · split
      · refine List.pairwise_flatMap.mpr ⟨fun d _ => hone d, ?_⟩
        refine ((h.increasing ch.lane).filter _).imp fun hlt x hx y hy => ?_
        rw [Prod.Lex.toLex_lt_toLex, (mem_channelCandidates.mp hx).1,
          (mem_channelCandidates.mp hy).1]
        exact Or.inl hlt
      · exact .nil

/-- `make_room` aborts the least candidate. -/
theorem Wired.firstCandidate_eq_some (h : Wired s) : s.firstCandidate c bytes = some x ↔
    s.IsCandidate c bytes x ∧ ∀ y, s.IsCandidate c bytes y → x.rank ≤ y.rank := by
  simp only [Process.firstCandidate, ← mem_candidates]
  exact head?_insertionSort_eq_some before_iff (h.candidates_increasing c bytes)

/-- Where there is a candidate, one is chosen. -/
theorem firstCandidate_of_isCandidate (hx : s.IsCandidate c bytes x) :
    ∃ y, s.firstCandidate c bytes = some y := by
  have hmem := (List.mem_insertionSort fun x y => x.before y = true).mpr (mem_candidates.mpr hx)
  exact ⟨_, List.head?_eq_some_head (List.ne_nil_of_mem hmem)⟩

/-- Every candidate has its task. -/
theorem Wired.task_of_candidate (h : Wired s) (hx : s.IsCandidate c bytes x) :
    ∃ (i : Nat) (t : RequestTask), s.tasks[i]? = some t ∧ t.guard.channel = x.channel ∧
      t.guard.request = x.request := by
  obtain ⟨-, ch, p, hch, hp, -⟩ := hx
  have hpending : x.request ∈ ch.state.pending := by
    rw [Std.TreeMap.mem_iff_isSome_getElem?, hp]
    rfl
  obtain ⟨t, ht, hguard⟩ := (h.pending _ ch hch _).mp hpending
  obtain ⟨i, hi⟩ := List.getElem?_of_mem ht
  exact ⟨i, t, hi, hguard⟩

/-! ## The abort -/

/-- The candidate is pending, so it is retired and its task aborted. -/
theorem Wired.makeRoom_of_first (h : Wired s) (hfirst : s.firstCandidate c bytes = some x) :
    ∃ ch, s.channel? x.channel = some ch ∧ s.makeRoom c bytes =
      (s.setChannel x.channel { ch with state := ch.state.retire x.request }).abortTasks fun t =>
        t.guard.channel = x.channel ∧ t.guard.request = x.request := by
  obtain ⟨-, ch, p, hch, hp, -⟩ := (h.firstCandidate_eq_some.mp hfirst).1
  have hpending : x.request ∈ ch.state.pending := by
    rw [Std.TreeMap.mem_iff_isSome_getElem?, hp]
    rfl
  exact ⟨ch, hch, by simp only [Process.makeRoom, hfirst, Process.retireAndAbort, hch, hpending,
    if_true]⟩

/-- What an aborted request leaves behind once its task is dropped: a channel without it. -/
theorem Wired.drop_aborted (h : Wired s) (ha : s.Aborts c bytes i t) :
    ∃ s' ch, (s.makeRoom c bytes).step (.taskDropped i) = some s' ∧ s'.clock = s.clock ∧
      s.channel? t.guard.channel = some ch ∧ s'.channel? t.guard.channel = some
        { ch with state := (ch.state.retire t.guard.request).finishRequest t.guard.request } := by
  obtain ⟨ht, x, hfirst, hchannel, hrequest⟩ := ha
  obtain ⟨ch, hch, heq⟩ := h.makeRoom_of_first hfirst
  rw [heq]
  let freed : Process :=
    { s.setChannel x.channel { ch with state := ch.state.retire x.request } with
    tasks := (s.tasks.map fun t => if t.guard.channel = x.channel ∧ t.guard.request = x.request then
      { t with aborted := true } else t).eraseIdx i }
  have hfreed : freed.channel? x.channel = some { ch with state := ch.state.retire x.request } :=
    (Process.channel?_setChannel hch x.channel).trans (if_pos rfl)
  refine ⟨freed.dropTask { t with aborted := true }, ch, ?_, Process.dropTask_clock .., ?_, ?_⟩
  · simp [Process.step, Process.abortTasks, Process.setChannel, ht, hchannel, hrequest, freed]
  · rw [hchannel, hch]
  · rw [Process.channel?_dropTask]
    simp [hfreed, hchannel, hrequest]

/-! ## The packet of an aborted request -/

/-- What decides whether an entry can be sent again. -/
def ReplayEntry.standing (entry : ReplayEntry) : Nat × Nat × Nat :=
  (entry.sequence, entry.sentAt, entry.attempts)

/-- Whether a packet can be sent again depends on the standing of its entry. -/
theorem resendable_of_standing {st st' : ChannelState} (now : Nat)
    (h : st'.history.map (·.standing) = st.history.map (·.standing)) :
    st'.Resendable now sequence ↔ st.Resendable now sequence := by
  have hstanding : ∀ st : ChannelState, st.Resendable now sequence ↔
      ∃ x ∈ st.history.map (·.standing), x.1 = sequence ∧ now - x.2.1 ≤ replayMaxAge ∧
        x.2.2 < replayMaxAttempts := fun st => by
    simp only [List.mem_map, exists_exists_and_eq_and]
    rfl
  rw [hstanding, hstanding, h]

private theorem retire_standing (st : ChannelState) (request : Nat) :
    (st.retire request).history.map (·.standing) = st.history.map (·.standing) := by
  simp only [ChannelState.retire]
  split
  · rfl
  · split
    · exact map_updateFirst fun _ => rfl
    · rfl

private theorem finishRequest_standing (st : ChannelState) (request : Nat) :
    (st.finishRequest request).history.map (·.standing) = st.history.map (·.standing) := by
  simp only [ChannelState.finishRequest]
  split
  · rfl
  · split
    · refine map_updateFirst fun entry => ?_
      simp only [ChannelState.leave]
      split <;> rfl
    · rfl

/-- The end of a request takes away what that request carried, and no entry. -/
theorem recoverable_finish (st : ChannelState) (request now : Nat) :
    ((st.retire request).finishRequest request).Recoverable now sequence ↔
      (∃ other, other ≠ request ∧ st.Carries other sequence) ∨ st.Resendable now sequence := by
  have hentry : ((st.retire request).finishRequest request).Resendable now sequence ↔
      st.Resendable now sequence := resendable_of_standing now
    ((finishRequest_standing (st.retire request) request).trans (retire_standing st request))
  have hcarries : ∀ other, ((st.retire request).finishRequest request).Carries other sequence ↔
      other ≠ request ∧ st.Carries other sequence := fun other => by
    simp only [ChannelState.Carries, ChannelState.getElem?_finishRequest,
      ChannelState.retire_pending]
    split
    · next heq => simp [heq]
    · next hne => simp [Ne.symm hne]
  simp only [ChannelState.Recoverable, hentry, hcarries]

/-- Making room keeps the packet just when its candidate is of the kind that spares it. -/
theorem Wired.keepsPacket_iff (h : Wired s) : s.KeepsPacket c bytes ↔ s.SparesPacket c bytes := by
  constructor
  · intro hkeeps x ch sequence hx hleast hch hcarries honly
    have hfirst := h.firstCandidate_eq_some.mpr ⟨hx, hleast⟩
    obtain ⟨i, t, hi, hchannel, hrequest⟩ := h.task_of_candidate hx
    have haborts : s.Aborts c bytes i t := ⟨hi, x, hfirst, hchannel, hrequest⟩
    obtain ⟨s', old, hstep, hclock, hold, hnew⟩ := h.drop_aborted haborts
    obtain rfl := Option.some.inj ((hchannel ▸ hch).symm.trans hold)
    obtain ⟨ch', hch', hrecoverable⟩ :=
      hkeeps i t ch sequence s' haborts hold (hrequest ▸ hcarries) hstep
    obtain rfl := Option.some.inj (hnew.symm.trans hch')
    rw [hclock] at hrecoverable
    rcases (recoverable_finish ..).mp hrecoverable with ⟨other, hne, hother⟩ | hresendable
    · exact absurd ((honly other hother).trans hrequest.symm) hne
    · exact hresendable
  · intro hspares i t ch sequence s' haborts hch hcarries hstep
    obtain ⟨s'', old, hstep', hclock, hold, hnew⟩ := h.drop_aborted haborts
    obtain rfl := Option.some.inj (hstep'.symm.trans hstep)
    obtain rfl := Option.some.inj (hold.symm.trans hch)
    refine ⟨_, hnew, ?_⟩
    rw [hclock, recoverable_finish]
    by_cases hother : ∃ other, other ≠ t.guard.request ∧ old.state.Carries other sequence
    · exact Or.inl hother
    · obtain ⟨-, x, hfirst, hchannel, hrequest⟩ := haborts
      obtain ⟨hx, hleast⟩ := h.firstCandidate_eq_some.mp hfirst
      refine Or.inr (hspares x old sequence hx hleast (hchannel ▸ hch) (hrequest ▸ hcarries) ?_)
      intro other hcarried
      by_contra hne
      exact hother ⟨other, hrequest ▸ hne, hcarried⟩

/-- A run keeps the packets of what it aborts for room exactly if, at each such call, the least
candidate is spared; and so does any further call. -/
theorem make_room_keeps_packets {actions : List ProcessAction} (hstart : processSystem.start s)
    (hrun : processSystem.run s actions = some s') :
    (processSystem.Meets (RoomCalls Process.KeepsPacket) s actions ↔
      processSystem.Meets (RoomCalls Process.SparesPacket) s actions) ∧
    ∀ c bytes, s'.KeepsPacket c bytes ↔ s'.SparesPacket c bytes := by
  have hreachable : processSystem.Reachable s := .start hstart
  refine ⟨System.meets_congr (fun _ _ _ hr hst => hr.step hst) (fun u a hr => ?_) hreachable,
    fun c bytes => (wired (hreachable.run hrun)).keepsPacket_iff⟩
  exact forall₄_congr fun c bytes _ _ => (wired hr).keepsPacket_iff

/-- A client takes nothing more of a reply, so the next packet is not sent again, and after
some time an upload waits for the process budget. -/
def stalledClient (time : Nat) : List ProcessAction :=
  [.openLane, .openChannel 0, .openChannel 0] ++
    uploadActions 0 0 0 (List.replicate 40 7) ++
    [.markReceiving 0, .charged 0 8, .finished 0 (.reply [List.replicate 8 1]), .taskDropped 0,
      .receive 0, .nativeWrite 0 true] ++
    uploadActions 0 0 0 (List.replicate 44 7) ++ [.tick time] ++
    reserveActions 1 0 maxPaddedPacket ++
    [.reserve 0 maxPaddedPacket, .acquired 1, .acquired 1, .tick replayRequest]

/-- Young enough to be sent again, the packet is kept. -/
theorem make_room_keeps_young_packet : ∃ s : Process, processSystem.Reachable s ∧
    s.roomFor 0 = some maxPaddedPacket ∧ (∃ t, s.Aborts 0 maxPaddedPacket 0 t) ∧
    s.KeepsPacket 0 maxPaddedPacket := by
  obtain ⟨s, hrun, hcheck⟩ :=
    processSystem.exists_of_run Process.initial (stalledClient (seconds 1))
    (fun s => s.roomFor 0 = some maxPaddedPacket ∧
      s.firstCandidate 0 maxPaddedPacket = some ⟨true, 0, 0, 2⟩ ∧
      (s.tasks[0]?.any fun t => t.guard.channel = 0 ∧ t.guard.request = 2) ∧
      ((s.channel? 0).any fun ch => ch.state.Carries 2 2 ∧ ch.state.Resendable s.clock 2))
    (by decide +kernel)
  have hreachable : processSystem.Reachable s := .run (.start initial_start) hrun
  simp only [decide_eq_true_eq, Option.any_eq_true] at hcheck
  obtain ⟨hroom, hfirst, ⟨t, ht, hguard⟩, ch, hch, hcarries, hresendable⟩ := hcheck
  refine ⟨s, hreachable, hroom, ⟨t, ht, _, hfirst, hguard⟩,
    ((make_room_keeps_packets initial_start hrun).2 0 maxPaddedPacket).mpr ?_⟩
  intro x ch' sequence hx hleast hch' hcarries' _
  obtain rfl := Option.some.inj
    (hfirst.symm.trans ((wired hreachable).firstCandidate_eq_some.mpr ⟨hx, hleast⟩))
  obtain rfl := Option.some.inj (hch.symm.trans hch')
  obtain rfl := Option.some.inj (hcarries.symm.trans hcarries')
  exact hresendable

/-- Older than that, the packet is lost. -/
theorem packet_lost : ∃ s : Process, processSystem.Reachable s ∧
    s.roomFor 0 = some maxPaddedPacket ∧ ¬s.KeepsPacket 0 maxPaddedPacket := by
  obtain ⟨s, hrun, hcheck⟩ :=
    processSystem.exists_of_run Process.initial (stalledClient (seconds 31))
    (fun s => s.roomFor 0 = some maxPaddedPacket ∧
      s.firstCandidate 0 maxPaddedPacket = some ⟨true, 0, 0, 2⟩ ∧
      (s.tasks[0]?.any fun t => t.guard.channel = 0 ∧ t.guard.request = 2) ∧
      ((s.channel? 0).any fun ch => ch.state.Carries 2 2) ∧
      (((s.makeRoom 0 maxPaddedPacket).step (.taskDropped 0)).any fun s' =>
        (s'.channel? 0).all fun ch => ¬ch.state.Recoverable s'.clock 2))
    (by decide +kernel)
  simp only [decide_eq_true_eq, Option.any_eq_true, Option.all_eq_true] at hcheck
  obtain ⟨hroom, hfirst, ⟨t, ht, hchannel, hrequest⟩, ⟨ch, hch, hcarries⟩, s', hstep, hlost⟩ :=
    hcheck
  refine ⟨s, .run (.start initial_start) hrun, hroom, fun hkeeps => ?_⟩
  obtain ⟨ch', hch', hrecoverable⟩ := hkeeps 0 t ch 2 s' ⟨ht, _, hfirst, hchannel, hrequest⟩
    (hchannel ▸ hch) (hrequest ▸ hcarries) hstep
  rw [hchannel] at hch'
  exact hlost ch' hch' hrecoverable

/-! ## The level that blocks -/

/-- What is aborted for a blocked upload is charged to the budget that blocks it. -/
theorem Wired.relieves_of_candidate {id : BudgetId} (h : Wired s) (hblocked : s.Blocked c bytes id)
    (hx : s.IsCandidate c bytes x) (ht : t ∈ s.tasks) (hchannel : t.guard.channel = x.channel)
    (hrequest : t.guard.request = x.request) : s.Relieves c id t := by
  obtain ⟨⟨ch, hch, hscope⟩, ch', p, hch', hp, hremovable, -⟩ := hx
  have htask := h.task t ht
  -- the scope never leaves the lane
  have hlane : t.lane = ch.lane := by
    rw [← htask.same ch' (hchannel ▸ hch')]
    split at hscope
    · exact (h.registered _ _ hscope.2).2 ch' hch'
    · rw [hscope] at hch'
      rw [Option.some.inj (hch'.symm.trans hch)]
  refine ⟨ht, ⟨ch, hch, hlane⟩, ?_, ch', p, hchannel ▸ hch', hrequest ▸ hp, hremovable⟩
  obtain ⟨size, -, hpermits⟩ := htask.permits
  rw [hpermits]
  obtain ⟨r, hr, rfl, rfl, hawaits⟩ := hblocked.waiting
  simp only [Reservation.awaits] at hawaits
  split at hawaits
  · obtain rfl := Option.some.inj hawaits
    rw [hblocked.full] at hscope
    exact ⟨_, List.mem_cons_self .., congrArg _ (hchannel.trans hscope)⟩
  · obtain rfl := Option.some.inj hawaits
    obtain ⟨ch'', hch'', hsame⟩ := (h.reservation r hr).alive
    obtain rfl := Option.some.inj (hch.symm.trans hch'')
    exact ⟨⟨.lane t.lane, size⟩, by simp [requestPermits], by rw [hlane, hsame]⟩
  · obtain rfl := Option.some.inj hawaits
    exact ⟨⟨.requests, size⟩, by simp [requestPermits], rfl⟩
  · cases hawaits

/-- Making room gives room just when it looks at the right level. -/
theorem Wired.givesRoom_iff {id : BudgetId} (h : Wired s) (hblocked : s.Blocked c bytes id) :
    s.GivesRoom c bytes id ↔ s.LooksRight c bytes id := by
  refine imp_congr_right fun hrelieves => ⟨?_, ?_⟩
  · rintro ⟨i, t, ⟨-, x, hfirst, -⟩, -⟩
    obtain ⟨hscope, ch, p, hch, hp, hremovable, -⟩ := (h.firstCandidate_eq_some.mp hfirst).1
    exact ⟨x.channel, x.request, hscope, ch, p, hch, hp, hremovable⟩
  · rintro ⟨d, request, hscope, ch, p, hch, hp, hremovable⟩
    have hcandidate : s.IsCandidate c bytes ⟨!p.replay, p.sentAt.getD 0, d, request⟩ :=
      ⟨hscope, ch, p, hch, hp, hremovable, rfl, rfl⟩
    obtain ⟨x, hfirst⟩ := firstCandidate_of_isCandidate hcandidate
    have hx := (h.firstCandidate_eq_some.mp hfirst).1
    obtain ⟨i, t, hi, hchannel, hrequest⟩ := h.task_of_candidate hx
    exact ⟨i, t, ⟨hi, x, hfirst, hchannel, hrequest⟩,
      h.relieves_of_candidate hblocked hx (List.mem_of_getElem? hi) hchannel hrequest⟩

/-- The calls of `make_room` in a run give every blocked upload room exactly if there was
something to abort in scope each time; and so does any further call. -/
theorem make_room_at_blocked_level {actions : List ProcessAction}
    (hstart : processSystem.start s) (hrun : processSystem.run s actions = some s') :
    (processSystem.Meets (RoomCalls fun s c bytes => ∀ id, s.Blocked c bytes id →
        s.GivesRoom c bytes id) s actions ↔
      processSystem.Meets (RoomCalls fun s c bytes => ∀ id, s.Blocked c bytes id →
        s.LooksRight c bytes id) s actions) ∧
    ∀ c bytes id, s'.Blocked c bytes id → (s'.GivesRoom c bytes id ↔ s'.LooksRight c bytes id) := by
  have hreachable : processSystem.Reachable s := .start hstart
  refine ⟨System.meets_congr (fun _ _ _ hr hst => hr.step hst) (fun u a hr => ?_) hreachable,
    fun c bytes id => (wired (hreachable.run hrun)).givesRoom_iff⟩
  exact forall₄_congr fun c bytes _ _ => forall₂_congr fun id => (wired hr).givesRoom_iff

/-- A channel with eight requests in flight gets room for a ninth. -/
theorem make_room_at_full_channel : ∃ s : Process, processSystem.Reachable s ∧
    s.Blocked 0 40 (.channel 0) ∧ (∃ t, s.Relieves 0 (.channel 0) t) ∧
    s.GivesRoom 0 40 (.channel 0) := by
  obtain ⟨s, hrun, hcheck⟩ := processSystem.exists_of_run Process.initial
    ([.openLane, .openChannel 0] ++
      (List.range 8).flatMap (fun i => uploadActions 0 0 i (List.replicate 40 7)) ++
      [.reserve 0 40, .tick replayRequest])
    (fun s => s.Blocked 0 40 (.channel 0) ∧
      (∃ ch ∈ s.channel? 0, ∃ t ∈ s.tasks, t.lane = ch.lane ∧
        (∃ permit ∈ t.guard.permits, permit.budget = .channel 0) ∧
        s.Removable t.guard.channel t.guard.request) ∧ s.Removable 0 1)
    (by decide +kernel)
  obtain ⟨hblocked, ⟨ch, hch, t, ht, hlane, hrelieves⟩, hremovable⟩ := of_decide_eq_true hcheck
  refine ⟨s, .run (.start initial_start) hrun, hblocked, ⟨t, ht, ⟨ch, hch, hlane⟩, hrelieves⟩,
    ((make_room_at_blocked_level initial_start hrun).2 0 40 _ hblocked).mpr fun _ => ?_⟩
  have hscope : s.InScope 0 40 0 := ⟨ch, hch, by simp [hblocked.full]⟩
  exact ⟨0, 1, hscope, hremovable⟩

/-- Two large uploads on other channels leave no room in the process budget, and an upload
waits for it although its own channel has a request to give up. -/
def exhaustedProcess : List ProcessAction :=
  [.openLane, .openChannel 0, .openChannel 0, .openChannel 0] ++
    uploadActions 2 0 0 (List.replicate 40 7) ++ reserveActions 0 0 maxPacket ++
    reserveActions 1 1 maxPacket ++ [.reserve 2 480, .acquired 2, .acquired 2, .tick replayRequest]

/-- Nothing is aborted for it. -/
theorem blocked_upload_ignored : ∃ s : Process, processSystem.Reachable s ∧
    s.roomFor 2 = some 480 ∧ s.Blocked 2 480 .requests ∧ ¬s.GivesRoom 2 480 .requests := by
  obtain ⟨s, hrun, hcheck⟩ := processSystem.exists_of_run Process.initial exhaustedProcess
    (fun s => s.roomFor 2 = some 480 ∧ s.Blocked 2 480 .requests ∧
      (∃ ch ∈ s.channel? 2, ∃ t ∈ s.tasks, t.lane = ch.lane ∧
        (∃ permit ∈ t.guard.permits, permit.budget = .requests) ∧
        s.Removable t.guard.channel t.guard.request) ∧
      s.firstCandidate 2 480 = none)
    (by decide +kernel)
  obtain ⟨hroom, hblocked, ⟨ch, hch, t, ht, hlane, hrelieves⟩, hnone⟩ := of_decide_eq_true hcheck
  refine ⟨s, .run (.start initial_start) hrun, hroom, hblocked, fun hgives => ?_⟩
  obtain ⟨i, t, ⟨-, x, hfirst, -⟩, -⟩ := hgives ⟨t, ht, ⟨ch, hch, hlane⟩, hrelieves⟩
  rw [hnone] at hfirst
  cases hfirst

end TgWsProxy.H2
