import TgWsProxy.Upstream.PoolBuckets

/-!
# The warm sockets

In every interleaving of the clients and `maintain`, a socket is in one place at a time, fits its
bucket and is fresh when it is handed out; and the loop goes on.
-/

namespace TgWsProxy

open TgWsProxy.Core

/-! ## The invariant -/

/-- The buckets that a client may take from: its own, and for production the worker's. -/
def PoolClient.May (c : PoolClient) (key : PoolKey) : Prop :=
  key = .direct c.dc c.media c.test ∨ key = .worker c.dc ∧ c.test = false

def PoolClient.Sound (cfg : Config) (c : PoolClient) : Prop :=
  match c.stage with
  | .taking key | .missed key => c.May key
  | .popped key item => c.May key ∧ item.socket.Fits cfg key
  | .examining key item checkedAt | .hit key item checkedAt =>
    c.May key ∧ item.socket.Fits cfg key ∧ checkedAt - item.created < poolMaxAge key
  | _ => True

/-- What holds of a socket that was handed out. -/
structure HandOut.Sound (cfg : Config) (h : HandOut) : Prop where
  fits : h.socket.Fits cfg h.key
  fresh : h.checkedAt - h.created < poolMaxAge h.key
  separate : h.key = .direct h.dc h.media h.test ∨ h.key = .worker h.dc ∧ h.test = false

/-- The maintenance loop finds the buckets it looks for, and room in the one it dials for. -/
def Maintain.Sound (cfg : Config) (pools : Pools) : Maintain → Prop
  | .passing rest _ _ => ∀ key ∈ rest, (Pools.get pools key).isSome
  | .dialling key rest _ => (∀ other ∈ rest, (Pools.get pools other).isSome) ∧
      ∃ b, Pools.get pools key = some b ∧ b.idle.length < capacity cfg key
  | .panicked => False
  | _ => True

/-- A bucket that is there stays. -/
theorem Pools.Keeps.isSome {pools pools' : Pools} (h : Pools.Keeps pools pools') {key : PoolKey}
    (hsome : (Pools.get pools key).isSome) : (Pools.get pools' key).isSome := by
  obtain ⟨b, hb⟩ := Option.isSome_iff_exists.mp hsome
  obtain ⟨b', hb', -⟩ := h key b hb
  exact Option.isSome_iff_exists.mpr ⟨b', hb'⟩

/-- The loop is sound over pools that keep their buckets. -/
theorem Maintain.Sound.keep {cfg : Config} {pools pools' : Pools} {m : Maintain}
    (h : m.Sound cfg pools) (hkeeps : Pools.Keeps pools pools') : m.Sound cfg pools' := by
  cases m with
  | passing rest _ _ => exact fun key hkey => hkeeps.isSome (h key hkey)
  | dialling key rest _ =>
    obtain ⟨hrest, b, hb, hlt⟩ := h
    obtain ⟨b', hb', hle⟩ := hkeeps key b hb
    exact ⟨fun other hother => hkeeps.isSome (hrest other hother), b', hb',
      Nat.lt_of_le_of_lt hle hlt⟩
  | panicked => exact h
  | starting | waiting _ | stopped => trivial

namespace SocketPool

variable {s t : SocketPool}

/-- How often a number is in the buckets, with clients and among what was handed out. -/
def count (s : SocketPool) (id : Nat) : Nat :=
  Pools.count id s.pools + tally (PoolClient.at id) s.clients + tally (HandOut.at id) s.handed

structure Sound (s : SocketPool) : Prop where
  pools : Pools.Sound s.config s.pools
  clients : ∀ c ∈ s.clients, c.Sound s.config
  handed : ∀ h ∈ s.handed, h.Sound s.config
  counted : ∀ id, s.count id ≤ if id < s.nextId then 1 else 0
  maintain : s.maintain.Sound s.config s.pools

/-- The invariant holds at the start. -/
theorem Sound.start (h : poolsSystem.start s) : s.Sound := by
  have hs : s = { config := s.config, clock := s.clock, pools := initialPools s.config } := h
  have hpools : s.pools = initialPools s.config := by rw [hs]
  have hempty : ∀ id, Pools.count id (initialPools s.config) = 0 := fun id =>
    tally_eq_zero fun e he => by rw [(placed_of_initial e he).2]; rfl
  rw [hs]
  refine ⟨fun e he => ?_, List.forall_mem_nil _, List.forall_mem_nil _, fun id => ?_, trivial⟩
  · obtain ⟨hplaced, hbucket⟩ := placed_of_initial e he
    rw [hbucket]
    exact ⟨hplaced, Nat.zero_le _, List.forall_mem_nil _⟩
  · simp only [SocketPool.count, hempty, tally_nil]
    exact Nat.zero_le _

/-- A client goes on and keeps what it holds, or drops it. -/
theorem Sound.advance (h : s.Sound) {client : Nat} {c : PoolClient} {stage : ClientStage}
    (hclient : s.clients[client]? = some c) (hstage : PoolClient.Sound s.config { c with stage })
    (hitem : stage.item = c.stage.item ∨ stage.item = none) : (s.advance client c stage).Sound := by
  refine { h with clients := fun other hother => ?_, counted := fun id => ?_ }
  · rcases List.mem_or_eq_of_mem_set hother with hold | rfl
    · exact h.clients other hold
    · exact hstage
  · have hset := tally_set (PoolClient.at id) hclient { c with stage }
    have hle : PoolClient.at id { c with stage } ≤ PoolClient.at id c := by
      unfold PoolClient.at
      rcases hitem with heq | hnone
      · rw [heq]
      · rw [hnone]
        exact Nat.zero_le _
    refine Nat.le_trans ?_ (h.counted id)
    simp only [SocketPool.count, SocketPool.advance]
    omega

/-- The buckets change, and no socket is added. -/
theorem Sound.rebucket (h : s.Sound) {pools : Pools} (hpools : Pools.Sound s.config pools)
    (hkeeps : Pools.Keeps s.pools pools)
    (hcount : ∀ id, Pools.count id pools ≤ Pools.count id s.pools) :
    Sound { s with pools } := by
  refine { h with pools := hpools, counted := fun id => ?_, maintain := h.maintain.keep hkeeps }
  refine Nat.le_trans ?_ (h.counted id)
  exact Nat.add_le_add_right (Nat.add_le_add_right (hcount id) _) _

/-- A change of one bucket that adds no socket. -/
theorem Sound.modify (h : s.Sound) (key : PoolKey) (f : Bucket → Bucket)
    (hf : ∀ b, (f b).idle.Sublist b.idle) : Sound { s with pools := Pools.modify key f s.pools } :=
  h.rebucket (h.pools.modify hf) (Pools.keeps_modify fun b _ => (hf b).length_le)
    fun _ => Pools.count_modify_le fun b _ => hf b

/-- A client that takes a warm socket, or asks for one. -/
theorem Sound.directRoute (h : s.Sound) {client : Nat} {c : PoolClient}
    (hclient : s.clients[client]? = some c) : (s.directRoute client c).Sound := by
  unfold SocketPool.directRoute
  split
  · exact h.advance hclient trivial (Or.inr rfl)
  · next hdirect =>
    have hdc : c.dc ∈ s.config.dcRedirects := not_not.mp (not_or.mp hdirect).1
    have hmay : PoolClient.Sound s.config
        { c with stage := .taking (.direct c.dc c.media c.test) } := Or.inl rfl
    dsimp only
    refine Sound.advance ?_ hclient hmay (Or.inr rfl)
    refine h.rebucket (fun e he => ?_) (Pools.keeps_orDefault _)
      fun id => (Pools.count_orDefault id _).le
    rcases Pools.mem_orDefault he with hold | rfl
    · exact h.pools e hold
    · exact ⟨hdc, Nat.zero_le _, List.forall_mem_nil _⟩

/-- A socket goes from its bucket to the client. -/
theorem Sound.pop (h : s.Sound) {client : Nat} {c : PoolClient} {key : PoolKey}
    (hclient : s.clients[client]? = some c) (hstage : c.stage = .taking key) :
    (s.pop client c key).Sound := by
  have hmay : c.May key := by
    have := h.clients c (List.mem_of_getElem? hclient)
    rwa [PoolClient.Sound, hstage] at this
  unfold SocketPool.pop
  split
  · exact h.advance hclient hmay (Or.inr rfl)
  · next item hitem =>
    obtain ⟨b, hb, hlast⟩ := Option.bind_eq_some_iff.mp hitem
    have hsplit : b.idle = b.idle.dropLast ++ [item] :=
      (List.dropLast_append_getLast? item hlast).symm
    have hmem : item ∈ b.idle := List.mem_of_getLast? hlast
    have hmodified := h.modify key (fun b => { b with idle := b.idle.dropLast })
      fun b => List.dropLast_sublist b.idle
    refine { hmodified with clients := fun other hother => ?_, counted := fun id => ?_ }
    · rcases List.mem_or_eq_of_mem_set hother with hold | rfl
      · exact h.clients other hold
      · exact ⟨hmay, (h.pools _ (Pools.mem_of_get hb)).2.2 item hmem⟩
    · -- what the bucket loses the client holds
      have hset := tally_set (PoolClient.at id) hclient { c with stage := .popped key item }
      have hcount := Pools.count_modify
        (f := fun b : Bucket => { b with idle := b.idle.dropLast }) id hb
      have hidle :
          tally (Idle.at id) b.idle = tally (Idle.at id) b.idle.dropLast + Idle.at id item := by
        conv_lhs => rw [hsplit]
        rw [tally_append, tally_cons, tally_nil, Nat.add_zero]
      have hold : PoolClient.at id c = 0 := by
        rw [PoolClient.at, hstage]
        rfl
      have hnew : PoolClient.at id { c with stage := .popped key item } = Idle.at id item := rfl
      refine Nat.le_trans ?_ (h.counted id)
      simp only [SocketPool.count, SocketPool.advance] at hcount ⊢
      omega

/-- Asking for a refill keeps the invariant. -/
theorem Sound.requestRefill (h : s.Sound) (key : PoolKey) : (s.requestRefill key).Sound := by
  have hmodified := h.modify key (fun b => { b with refillRequested := true })
    fun b => List.Sublist.refl b.idle
  exact ⟨hmodified.pools, h.clients, h.handed, hmodified.counted, hmodified.maintain⟩

/-- A client gets the socket that it holds. -/
theorem Sound.hand (h : s.Sound) {client : Nat} {c : PoolClient} {key : PoolKey} {item : Idle}
    {checkedAt : Nat} (hclient : s.clients[client]? = some c)
    (hstage : c.stage = .hit key item checkedAt) :
    Sound ({ s with
      handed := ⟨c.dc, c.media, c.test, key, item.socket, item.created, checkedAt⟩ ::
        s.handed }.advance client c .done) := by
  have hsound := h.clients c (List.mem_of_getElem? hclient)
  rw [PoolClient.Sound, hstage] at hsound
  obtain ⟨hmay, hfits, hfresh⟩ := hsound
  refine { h with clients := fun other hother => ?_, handed := ?_, counted := fun id => ?_ }
  · rcases List.mem_or_eq_of_mem_set hother with hold | rfl
    · exact h.clients other hold
    · trivial
  · exact List.forall_mem_cons.mpr ⟨⟨hfits, hfresh, hmay⟩, h.handed⟩
  · have hset := tally_set (PoolClient.at id) hclient { c with stage := .done }
    have hold : PoolClient.at id c = Idle.at id item := by
      rw [PoolClient.at, hstage]
      rfl
    have hnew : PoolClient.at id { c with stage := .done } = 0 := rfl
    have hsame : HandOut.at id ⟨c.dc, c.media, c.test, key, item.socket, item.created, checkedAt⟩ =
        Idle.at id item := rfl
    refine Nat.le_trans ?_ (h.counted id)
    simp only [SocketPool.count, SocketPool.advance, tally_cons]
    omega

/-- A client of the workers that takes a warm socket. -/
theorem Sound.workerRoute (h : s.Sound) {client : Nat} {c : PoolClient}
    (hclient : s.clients[client]? = some c) : (s.workerRoute client c).Sound := by
  unfold SocketPool.workerRoute
  split
  · next hworker => exact h.advance hclient (Or.inr ⟨rfl, hworker.2.2.1⟩) (Or.inr rfl)
  · exact h.advance hclient trivial (Or.inr rfl)

/-! ## The steps of the maintenance loop -/

/-- The loop may go on to any sound place. -/
theorem Sound.maintained (h : s.Sound) {m : Maintain} (hm : m.Sound s.config s.pools) :
    Sound { s with maintain := m } :=
  { h with maintain := hm }

/-- `maintain` changes one bucket without a new socket and moves on. -/
theorem Sound.modified (h : s.Sound) {key : PoolKey} {f : Bucket → Bucket} {m : Maintain}
    (hf : ∀ b, (f b).idle.Sublist b.idle)
    (hm : m.Sound s.config (Pools.modify key f s.pools)) :
    Sound { s with pools := Pools.modify key f s.pools, maintain := m } :=
  (h.modify _ _ hf).maintained hm

private theorem isSome_modify {key other : PoolKey} {f : Bucket → Bucket}
    (hf : ∀ b, (f b).idle.length ≤ b.idle.length) (h : (Pools.get s.pools other).isSome) :
    (Pools.get (Pools.modify key f s.pools) other).isSome :=
  (Pools.keeps_modify fun b _ => hf b).isSome h

/-- A bucket that is looked at is refilled, put off or passed. -/
theorem Sound.examineBucket (h : s.Sound) {key : PoolKey} {rest : List PoolKey} {attempted : Bool}
    {nextRetry : Option Nat} (hmaintain : s.maintain = .passing (key :: rest) attempted nextRetry) :
    (s.examineBucket key rest attempted nextRetry).Sound := by
  have hfound := h.maintain
  rw [hmaintain] at hfound
  obtain ⟨b, hb⟩ := Option.isSome_iff_exists.mp (hfound key (List.mem_cons_self ..))
  have hrest : ∀ other ∈ rest, (Pools.get s.pools other).isSome := fun other hother =>
    hfound other (List.mem_cons_of_mem _ hother)
  unfold SocketPool.examineBucket
  rw [hb]
  dsimp only
  have hsub : ∀ b : Bucket, (b.idle.filter fun item =>
      decide (s.clock - item.created < poolMaxAge key)).Sublist b.idle := fun _ =>
        List.filter_sublist
  split
  · next hneeded =>
    refine h.modified ?_ ?_
    · exact hsub
    · refine ⟨fun other hother => ?_, _, Pools.get_modify_self hb, ?_⟩
      · exact isSome_modify (fun b => (hsub b).length_le) (hrest other hother)
      · exact hneeded.1
  · refine h.modified ?_ fun other hother => ?_
    · exact hsub
    · exact isSome_modify (fun b => (hsub b).length_le) (hrest other hother)

/-- The dial that ends adds a socket, or sets the bucket's retry. -/
theorem finishDial_spec (h : s.Sound) (shuffled : List String) (ws : WsAnswers) {key : PoolKey}
    {rest : List PoolKey} {nextRetry : Option Nat}
    (hmaintain : s.maintain = .dialling key rest nextRetry) :
    ∃ b, Pools.get s.pools key = some b ∧ b.idle.length < capacity s.config key ∧
      ((∃ request, dial s.config ws shuffled key = some (.ok request) ∧
        s.finishDial key rest nextRetry shuffled ws = { s with
          pools := Pools.modify key (fun b => { b with
            idle := b.idle ++ [⟨⟨s.nextId, key, request⟩, s.clock⟩]
            failures := 0
            retry := none }) s.pools
          nextId := s.nextId + 1
          maintain := .passing rest true nextRetry }) ∨
      ∃ failures, s.finishDial key rest nextRetry shuffled ws = { s with
        pools := Pools.modify key (fun b => { b with
          failures
          retry := some (s.clock + refillBackoff failures) }) s.pools
        maintain := .passing rest true nextRetry }) := by
  have hfound := h.maintain
  rw [hmaintain] at hfound
  obtain ⟨-, b, hb, hlt⟩ := hfound
  have hplaced := (h.pools _ (Pools.mem_of_get hb)).1
  refine ⟨b, hb, hlt, ?_⟩
  unfold SocketPool.finishDial
  cases hdial : dial s.config ws shuffled key with
  | none =>
    have := hplaced.dial_isSome ws shuffled
    rw [hdial] at this
    cases this
  | some result =>
    rw [hb]
    cases result with
    | ok request => exact Or.inl ⟨request, rfl, rfl⟩
    | error e => exact Or.inr ⟨_, rfl⟩

/-- A socket that was dialled goes to the bucket it was dialled for. -/
theorem Sound.finishDial (h : s.Sound) {key : PoolKey} {rest : List PoolKey}
    {nextRetry : Option Nat} {shuffled : List String} {ws : WsAnswers}
    (hmaintain : s.maintain = .dialling key rest nextRetry)
    (hperm : shuffled.Perm s.config.cfproxyWorkerDomains) :
    (s.finishDial key rest nextRetry shuffled ws).Sound := by
  have hrest := h.maintain
  rw [hmaintain] at hrest
  replace hrest := hrest.1
  obtain ⟨b, hb, hlt, ⟨request, hdial, heq⟩ | ⟨failures, heq⟩⟩ :=
    finishDial_spec h shuffled ws hmaintain
  · rw [heq]
    refine ⟨fun e he => ?_, h.clients, h.handed, fun id => ?_, fun other hother => ?_⟩
    · dsimp only at he
      rcases Pools.mem_modify he with hold | ⟨b', hb', rfl⟩
      · exact h.pools e hold
      · obtain rfl := Option.some.inj (hb.symm.trans hb')
        obtain ⟨hplaced, -, hfits⟩ := h.pools _ (Pools.mem_of_get hb)
        refine ⟨hplaced, ?_, fun item hitem => ?_⟩
        · rw [List.length_append]
          exact hlt
        · rcases List.mem_append.mp hitem with hold | hnew
          · exact hfits item hold
          · rw [List.mem_singleton.mp hnew]
            exact dial_fits hperm hdial s.nextId
    · -- the new number was nowhere before
      have hcounted := h.counted id
      have hidle := Pools.count_modify (f := fun b => { b with
        idle := b.idle ++ [⟨⟨s.nextId, key, request⟩, s.clock⟩]
        failures := 0
        retry := none }) id hb
      simp only [tally_append, tally_cons, tally_nil, Idle.at] at hidle
      simp only [SocketPool.count] at hcounted ⊢
      split at hidle
      · next heq =>
        rw [← heq] at hcounted hidle ⊢
        rw [if_neg (Nat.lt_irrefl _)] at hcounted
        rw [if_pos (Nat.lt_succ_self _)]
        omega
      · next hne =>
        have hsame : (if id < s.nextId + 1 then 1 else 0) = if id < s.nextId then 1 else 0 := by
          split <;> split <;> omega
        rw [hsame]
        omega
    · by_cases hkey : other = key
      · rw [hkey, Pools.get_modify_self hb]
        rfl
      · rw [Pools.get_modify_of_ne hkey]
        exact hrest other hother
  · rw [heq]
    refine h.modified ?_ fun other hother => ?_
    · exact fun b => List.Sublist.refl b.idle
    · exact isSome_modify (fun _ => Nat.le_refl _) (hrest other hother)

/-- Every step keeps the invariant. -/
theorem Sound.step (h : s.Sound) {a : PoolAction} (hstep : s.step a = some t) : t.Sound := by
  cases a with
  | tick elapsed =>
    obtain rfl := Option.some.inj hstep
    exact ⟨h.pools, h.clients, h.handed, h.counted, h.maintain⟩
  | connect dc media test =>
    obtain rfl := Option.some.inj hstep
    refine { h with clients := fun c hc => ?_, counted := fun id => ?_ }
    · rcases List.mem_append.mp hc with hold | hnew
      · exact h.clients c hold
      · rw [List.mem_singleton.mp hnew]
        trivial
    · simpa [SocketPool.count, PoolClient.at, ClientStage.item] using h.counted id
  | directRoute client =>
    simp only [SocketPool.step] at hstep
    split at hstep
    · next hclient =>
      obtain rfl := Option.some.inj hstep
      exact h.directRoute hclient
    · cases hstep
  | pop client =>
    simp only [SocketPool.step] at hstep
    split at hstep
    · next hclient =>
      obtain rfl := Option.some.inj hstep
      exact h.pop hclient rfl
    · cases hstep
  | checkAge client =>
    simp only [SocketPool.step] at hstep
    split at hstep
    · next hclient =>
      obtain rfl := Option.some.inj hstep
      obtain ⟨hmay, hfits⟩ := h.clients _ (List.mem_of_getElem? hclient)
      split
      · next hfresh => exact h.advance hclient ⟨hmay, hfits, hfresh⟩ (Or.inl rfl)
      · exact h.advance hclient hmay (Or.inr rfl)
    · cases hstep
  | examine client healthy =>
    simp only [SocketPool.step] at hstep
    split at hstep
    · next hclient =>
      obtain rfl := Option.some.inj hstep
      have hsound := h.clients _ (List.mem_of_getElem? hclient)
      split
      · exact h.advance hclient hsound (Or.inl rfl)
      · exact h.advance hclient hsound.1 (Or.inr rfl)
    · cases hstep
  | requestRefill client =>
    simp only [SocketPool.step] at hstep
    split at hstep
    · next key hclient =>
      obtain rfl := Option.some.inj hstep
      cases key with
      | direct dc media test => exact (h.requestRefill _).advance hclient trivial (Or.inr rfl)
      | worker dc => exact (h.requestRefill _).advance hclient trivial (Or.inr rfl)
    · next key item checkedAt hclient =>
      obtain rfl := Option.some.inj hstep
      exact (h.requestRefill key).hand hclient rfl
    · cases hstep
  | workerRoute client =>
    simp only [SocketPool.step] at hstep
    split at hstep
    · next hclient =>
      obtain rfl := Option.some.inj hstep
      exact h.workerRoute hclient
    · cases hstep
  | cancel client whole =>
    simp only [SocketPool.step] at hstep
    split at hstep
    · next hclient =>
      obtain rfl := Option.some.inj hstep
      split
      · exact h.advance hclient trivial (Or.inr rfl)
      · exact h.advance hclient trivial (Or.inr rfl)
    · cases hstep
  | startPass =>
    simp only [SocketPool.step] at hstep
    split at hstep
    · split at hstep
      · obtain rfl := Option.some.inj hstep
        exact h.maintained trivial
      · obtain rfl := Option.some.inj hstep
        exact h.maintained fun key hkey => Pools.get_isSome_of_mem hkey
    · cases hstep
  | examineBucket =>
    simp only [SocketPool.step] at hstep
    split at hstep
    · next hmaintain =>
      obtain rfl := Option.some.inj hstep
      exact h.examineBucket hmaintain
    · cases hstep
  | finishDial shuffled ws =>
    simp only [SocketPool.step] at hstep
    split at hstep
    · next hmaintain =>
      split at hstep
      · next hperm =>
        obtain rfl := Option.some.inj hstep
        exact h.finishDial hmaintain hperm
      · cases hstep
    · cases hstep
  | endPass =>
    simp only [SocketPool.step] at hstep
    split at hstep
    · split at hstep
      all_goals
        obtain rfl := Option.some.inj hstep
        exact h.maintained trivial
    · cases hstep
  | wake notified =>
    simp only [SocketPool.step] at hstep
    split at hstep
    · split at hstep
      · split at hstep
        · obtain rfl := Option.some.inj hstep
          exact ⟨h.pools, h.clients, h.handed, h.counted, trivial⟩
        · cases hstep
      · split at hstep
        · obtain rfl := Option.some.inj hstep
          exact h.maintained trivial
        · cases hstep
    · cases hstep

/-- A dial that ends leaves a socket or a time to try again. -/
theorem Sound.progress (h : s.Sound) {shuffled : List String} {ws : WsAnswers}
    (hstep : s.step (.finishDial shuffled ws) = some t) :
    ∃ key b b', Pools.get s.pools key = some b ∧ Pools.get t.pools key = some b' ∧
      ((∃ item, b'.idle = b.idle ++ [item]) ∨
        ∃ retry, b'.retry = some retry ∧ s.clock + seconds 1 ≤ retry) := by
  simp only [SocketPool.step] at hstep
  split at hstep
  · next key rest nextRetry hmaintain =>
    split at hstep
    · obtain rfl := Option.some.inj hstep
      obtain ⟨b, hb, -, ⟨request, -, heq⟩ | ⟨failures, heq⟩⟩ :=
        finishDial_spec h shuffled ws hmaintain
      · rw [heq]
        dsimp only
        refine ⟨key, b, _, hb, Pools.get_modify_self hb, Or.inl ?_⟩
        exact ⟨_, rfl⟩
      · rw [heq]
        dsimp only
        refine ⟨key, b, _, hb, Pools.get_modify_self hb, Or.inr ?_⟩
        exact ⟨_, rfl, Nat.add_le_add_left (le_refillBackoff failures) _⟩
    · cases hstep
  · cases hstep

end SocketPool

end TgWsProxy
