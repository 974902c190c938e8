import TgWsProxy.Web.Panel

/-!
# Access control

What a request that passes the checks of the panel has shown, what the panel keeps in every run,
and that no effect comes from a request without it.
-/

namespace TgWsProxy

open TgWsProxy.Core

namespace Web

variable {crates : Crates}

/-! ## What the checks let through -/

private theorem hostname_ne_empty {value host : String} (h : hostname value = some host) :
    host ≠ "" := by
  rintro rfl
  have hparse : IpAddr.parse "" = none := by decide
  have hvalid : validDomain "" = false := by decide
  rw [hostname] at h
  split at h
  · split at h
    · cases h
    · split at h
      · cases h
      · obtain ⟨address, haddress, hname⟩ := Option.map_eq_some_iff.mp h
        rw [hname, hparse] at haddress
        cases haddress
  · dsimp only at h
    split at h
    · cases h
    · split at h
      · next hname =>
        rw [Option.some.inj h, hparse, hvalid] at hname
        simp at hname
      · cases h

private theorem stripPrefix_eq_some {front text rest : String}
    (h : stripPrefix front text = some rest) :
    text = front ++ rest := by
  rw [stripPrefix] at h
  obtain ⟨⟨suffix, hsuffix⟩, heq⟩ := Option.ite_none_right_eq_some.mp h
  rw [← hsuffix, ← String.length_toList, List.drop_left] at heq
  rw [← Option.some.inj heq, ← String.toList_inj, String.toList_append, String.toList_ofList,
    hsuffix]

private theorem utf8_inj {a b : String} (h : utf8 a = utf8 b) : a = b := by
  rw [utf8, utf8] at h
  exact String.toByteArray_inj.mp (ByteArray.ext (Array.toList_inj.mp h))

/-- A host that the checks take. -/
def HostAllowed (localIp : IpAddr) (cfg : Config) (host : String) : Prop :=
  IpAddr.parse host = some localIp ∨ (cfg.linkHost ≠ "" ∧ host = cfg.linkHost) ∨
    (host = "localhost" ∧ localIp.isLoopback = true)

/-- What `authorize` has checked of a request that it lets through. -/
theorem authorize_eq_ok {localIp : IpAddr} {csrf : String} {request : Request} {cfg : Config}
    {host : String} (h : authorize crates localIp csrf request cfg = .ok host) :
    (∃ value, request.headers["host"]? = some value ∧ hostname value = some host) ∧
      HostAllowed localIp cfg host ∧
      (cfg.webPassword ≠ "" →
        sameSecret crates (request.supplied crates) (credentials cfg) = true) ∧
      (request.method = "POST" → sameSecret crates (utf8 request.token) (utf8 csrf) = true) := by
  rw [authorize] at h
  split at h
  · cases h
  · next host' hhost =>
    obtain ⟨value, hvalue, hname⟩ := Option.bind_eq_some_iff.mp hhost
    split at h
    · cases h
    · next hallowed =>
      split at h
      · cases h
      · next hpassword =>
        split at h
        · cases h
        · next htoken =>
          obtain rfl := Except.ok.inj h
          refine ⟨⟨value, hvalue, hname⟩, ?_, ?_, ?_⟩
          · by_cases hparse : IpAddr.parse host' = some localIp
            · exact .inl hparse
            · by_cases hlink : host' = cfg.linkHost
              · exact .inr (.inl ⟨hlink ▸ hostname_ne_empty hname, hlink⟩)
              · exact .inr (.inr (not_not.mp fun hlocal => hallowed ⟨hparse, hlink, hlocal⟩))
          · exact fun hsome => not_not.mp fun hdiffers => hpassword ⟨hsome, hdiffers⟩
          · exact fun hpost => not_not.mp fun hdiffers => htoken ⟨hpost, hdiffers⟩

/-- What `authorize` refuses, it answers with one of its refusals. -/
theorem authorize_eq_error {localIp : IpAddr} {csrf : String} {request : Request} {cfg : Config}
    {response : Response} (h : authorize crates localIp csrf request cfg = .error response) :
    response ∈ refusals := by
  have hmem {refusal : Response} (hrefusal : refusal ∈ refusals)
      (heq : (.error refusal : Except Response String) = .error response) : response ∈ refusals :=
    Except.error.inj heq ▸ hrefusal
  rw [authorize] at h
  split at h
  · exact hmem (by simp [refusals]) h
  · split at h
    · exact hmem (by simp [refusals]) h
    · split at h
      · exact hmem (by simp [refusals]) h
      · split at h
        · exact hmem (by simp [refusals]) h
        · cases h

/-- Whether an effect changes the configuration, starts an update or forces a check. -/
def Effect.mutates : Effect → Bool
  | .respond _ => false
  | .change _ | .startUpdate => true
  | .check force => force

/-- Only a POST changes anything. -/
theorem dispatch_mutates {csrf host : String} {request : Request} {cfg : Config}
    {answers : Answers} {effect : Effect}
    (h : effect ∈ dispatch crates csrf request cfg host answers)
    (hmutates : effect.mutates = true) :
    request.method = "POST" := by
  have hnever {effects : List Effect} (heffects : effects.all fun effect => !effect.mutates)
      (hmem : effect ∈ effects) : False := by
    have := List.all_eq_true.mp heffects effect hmem
    rw [hmutates] at this
    cases this
  rw [dispatch] at h
  split at h
  all_goals
    first
    | exact ‹_ = "POST"›
    | exact (hnever rfl h).elim

/-- What `handle` does is a refusal, or the checks are passed. -/
theorem handle_cases {localIp : IpAddr} {csrf : String} {request : Request} {cfg : Config}
    {answers : Answers} {effect : Effect}
    (h : effect ∈ handle crates localIp csrf request cfg answers) :
    (∃ response ∈ refusals, effect = .respond response) ∨
      (∃ host, authorize crates localIp csrf request cfg = .ok host) ∧
        (effect.mutates = true → request.method = "POST") := by
  rw [handle] at h
  split at h
  · next response hpass =>
    exact .inl ⟨response, authorize_eq_error hpass, List.mem_singleton.mp h⟩
  · next host hpass => exact .inr ⟨⟨host, hpass⟩, dispatch_mutates h⟩

/-- A change is sent only when the checks are passed. -/
theorem authorize_of_changes {localIp : IpAddr} {csrf : String} {request : Request} {cfg : Config}
    {answers : Answers}
    (h : Panel.changes (handle crates localIp csrf request cfg answers) = true) :
    ∃ host, authorize crates localIp csrf request cfg = .ok host := by
  obtain ⟨effect, hmem, heffect⟩ := List.any_eq_true.mp h
  rcases handle_cases hmem with ⟨response, -, rfl⟩ | ⟨hpass, -⟩
  · cases heffect
  · exact hpass

/-! ## What the panel keeps -/

/-- A request that was read from the stream, and a snapshot that was published, for a POST not
before the lock was taken. -/
structure Seen.Sound (seen : Seen) (reader : BufReader) (published : List Config) : Prop where
  read : ∃ rest, readRequest reader = .ok (seen.request, rest)
  snapshot : published[seen.readAt]? = some seen.config
  locked : seen.request.method = "POST" → ∃ lockedAt, seen.lockedAt = some lockedAt ∧
    lockedAt ≤ seen.readAt

/-- What was seen stays sound when a configuration is published. -/
theorem Seen.Sound.publish {seen : Seen} {reader : BufReader} {published : List Config}
    (h : seen.Sound reader published) (config : Config) :
    seen.Sound reader (published ++ [config]) :=
  ⟨h.read, List.getElem?_append_left (List.getElem?_eq_some_iff.mp h.snapshot).1 ▸ h.snapshot,
    h.locked⟩

/-- What a task has done so far. -/
def Connection.Sound (crates : Crates) (csrf : String) (published : List Config)
    (c : Connection) : Prop :=
  match c.stage with
  | .parsed request => ∃ rest, readRequest c.reader = .ok (request, rest)
  | .locked request lockedAt =>
    (∃ rest, readRequest c.reader = .ok (request, rest)) ∧ lockedAt < published.length
  | .authorizing seen => seen.Sound c.reader published
  | .changing seen =>
    seen.Sound c.reader published ∧
      ∃ host, authorize crates c.localIp csrf seen.request seen.config = .ok host
  | .reading | .responding _ | .finished => True

/-- So does a connection. -/
theorem Connection.Sound.publish {csrf : String} {published : List Config} {c : Connection}
    (h : c.Sound crates csrf published) (config : Config) :
    c.Sound crates csrf (published ++ [config]) := by
  rw [Connection.Sound] at h ⊢
  cases hstage : c.stage with
  | reading | responding _ | finished => trivial
  | parsed request =>
    rw [hstage] at h
    exact h
  | locked request lockedAt =>
    rw [hstage] at h
    exact ⟨h.1, by rw [List.length_append]; exact Nat.lt_add_right _ h.2⟩
  | authorizing seen =>
    rw [hstage] at h
    exact h.publish config
  | changing seen =>
    rw [hstage] at h
    exact ⟨h.1.publish config, h.2⟩

/-- An effect is a refusal, or what it is for has passed the checks. -/
def Event.Sound (crates : Crates) (csrf : String) (published : List Config) (e : Event) : Prop :=
  (∃ response ∈ refusals, e.effect = .respond response) ∨
    ∃ seen, e.seen = some seen ∧ seen.Sound e.reader published ∧
      (∃ host, authorize crates e.localIp csrf seen.request seen.config = .ok host) ∧
      (e.effect.mutates = true → seen.request.method = "POST")

/-- So does an event of the log. -/
theorem Event.Sound.publish {csrf : String} {published : List Config} {e : Event}
    (h : e.Sound crates csrf published) (config : Config) :
    e.Sound crates csrf (published ++ [config]) := by
  rcases h with hrefusal | ⟨seen, hseen, hsound, hpass, hpost⟩
  · exact .inl hrefusal
  · exact .inr ⟨seen, hseen, hsound.publish config, hpass, hpost⟩

/-- The invariant of the panel. -/
structure Panel.Sound (crates : Crates) (s : Panel) : Prop where
  csrf : ∃ random : Block 16, s.csrf = hex random.val
  current : s.published.getLast? = some s.config
  connections : ∀ c ∈ s.connections, c.Sound crates s.csrf s.published
  holder : ∀ i c, s.connections[i]? = some c → c.stage.holds = true → s.mutation = some i
  log : ∀ e ∈ s.log, e.Sound crates s.csrf s.published

namespace Panel.Sound

variable {s : Panel}

/-- The configuration in force is the last published one. -/
theorem snapshot (h : s.Sound crates) : s.published[s.published.length - 1]? = some s.config := by
  rw [← List.getLast?_eq_getElem?]
  exact h.current

/-- Effects are logged. -/
theorem record (h : s.Sound crates) {c : Connection} {seen : Option Seen} {effects : List Effect}
    (heffects : ∀ effect ∈ effects,
      Event.Sound crates s.csrf s.published ⟨c.localIp, c.reader, seen, effect⟩) :
    (s.record c seen effects).Sound crates := by
  refine ⟨h.csrf, h.current, h.connections, h.holder, fun e he => ?_⟩
  rcases List.mem_append.mp he with hold | hnew
  · exact h.log e hold
  · obtain ⟨effect, heffect, rfl⟩ := List.mem_map.mp hnew
    exact heffects effect heffect

/-- A task goes on, which holds the lock only if it is the one that has it. -/
theorem advance (h : s.Sound crates) {i : Nat} {c : Connection} (hc : s.connections[i]? = some c)
    {stage : Stage} (hstage : Connection.Sound crates s.csrf s.published { c with stage })
    (hholds : stage.holds = true → s.mutation = some i) : (s.advance i c stage).Sound crates := by
  refine ⟨h.csrf, h.current, fun other hother => ?_, fun j other hother hj => ?_, h.log⟩
  · rcases List.mem_or_eq_of_mem_set hother with hold | rfl
    · exact h.connections other hold
    · exact hstage
  · have hset : (s.connections.set i { c with stage })[j]? = some other := hother
    by_cases hij : i = j
    · subst hij
      rw [List.getElem?_set_self (List.getElem?_eq_some_iff.mp hc).1] at hset
      rw [← Option.some.inj hset] at hj
      exact hholds hj
    · rw [List.getElem?_set_ne hij] at hset
      exact h.holder j other hset hj

/-- The lock is taken while nobody has it. -/
theorem lock (h : s.Sound crates) (i : Nat) (hfree : s.mutation = none) :
    Sound crates { s with mutation := some i } := by
  refine ⟨h.csrf, h.current, h.connections, fun j c hc hj => ?_, h.log⟩
  have hheld := h.holder j c hc hj
  rw [hfree] at hheld
  cases hheld

/-- The lock is given back when the task that has it ends. -/
theorem finish (h : s.Sound crates) {i : Nat} {c : Connection} (hc : s.connections[i]? = some c) :
    (Panel.advance { s with mutation := if c.stage.holds then none else s.mutation } i c
      .finished).Sound crates := by
  have hother : ∀ j other, (s.connections.set i { c with stage := .finished })[j]? = some other →
      other.stage.holds = true → j ≠ i ∧ s.connections[j]? = some other := by
    intro j other hget hj
    by_cases hij : i = j
    · subst hij
      rw [List.getElem?_set_self (List.getElem?_eq_some_iff.mp hc).1] at hget
      rw [← Option.some.inj hget] at hj
      cases hj
    · rw [List.getElem?_set_ne hij] at hget
      exact ⟨Ne.symm hij, hget⟩
  refine ⟨h.csrf, h.current, fun other hmem => ?_, fun j other hget hj => ?_, h.log⟩
  · rcases List.mem_or_eq_of_mem_set hmem with hold | rfl
    · exact h.connections other hold
    · trivial
  · obtain ⟨hne, hold⟩ := hother j other hget hj
    have hheld := h.holder j other hold hj
    have hfree : c.stage.holds = false := by
      by_contra hholds
      have hheld' := h.holder i c hc ((Bool.not_eq_false _).mp hholds)
      exact hne (Option.some.inj (hheld.symm.trans hheld'))
    change (if c.stage.holds then none else s.mutation) = some j
    rw [hfree]
    exact hheld

/-- Every step of a connection keeps the panel sound. -/
theorem taskStep (h : s.Sound crates) {t : Panel} {i : Nat} {c : Connection} {action : Action}
    (hc : s.connections[i]? = some c) (hstep : s.taskStep crates i c action = some t) :
    t.Sound crates := by
  have hsound := h.connections c (List.mem_of_getElem? hc)
  rw [Connection.Sound] at hsound
  cases action with
  | accept _ _ | publish _ => cases hstep
  | read _ =>
    cases hstage : c.stage with
    | parsed _ | locked _ _ | authorizing _ | changing _ | responding _ | finished =>
      simp [Panel.taskStep, hstage] at hstep
    | reading =>
      simp only [Panel.taskStep, hstage] at hstep
      split at hstep
      · obtain rfl := Option.some.inj hstep
        refine (h.record fun effect heffect => .inl ⟨invalidRequest, ?_, ?_⟩).advance hc
          trivial nofun
        · exact List.mem_cons_self ..
        · exact List.mem_singleton.mp heffect
      · next request rest hread =>
        obtain rfl := Option.some.inj hstep
        exact h.advance hc ⟨rest, hread⟩ nofun
  | lock _ =>
    cases hstage : c.stage with
    | reading | locked _ _ | authorizing _ | changing _ | responding _ | finished =>
      simp [Panel.taskStep, hstage] at hstep
    | parsed request =>
      simp only [Panel.taskStep, hstage] at hstep
      rw [hstage] at hsound
      obtain ⟨⟨-, hfree⟩, heq⟩ := Option.ite_none_right_eq_some.mp hstep
      obtain rfl := Option.some.inj heq
      refine (h.lock i hfree).advance hc ⟨hsound, ?_⟩ fun _ => rfl
      exact (List.getElem?_eq_some_iff.mp h.snapshot).1
  | snapshot _ =>
    cases hstage : c.stage with
    | reading | authorizing _ | changing _ | responding _ | finished =>
      simp [Panel.taskStep, hstage] at hstep
    | parsed request =>
      simp only [Panel.taskStep, hstage] at hstep
      rw [hstage] at hsound
      obtain ⟨hget, heq⟩ := Option.ite_none_left_eq_some.mp hstep
      obtain rfl := Option.some.inj heq
      exact h.advance hc ⟨hsound, h.snapshot, fun hpost => absurd hpost hget⟩ nofun
    | locked request lockedAt =>
      simp only [Panel.taskStep, hstage] at hstep
      rw [hstage] at hsound
      obtain rfl := Option.some.inj hstep
      have hheld := h.holder i c hc (by rw [hstage]; rfl)
      refine h.advance hc ⟨hsound.1, h.snapshot, fun _ => ⟨lockedAt, rfl, ?_⟩⟩ fun _ => hheld
      exact Nat.le_sub_one_of_lt hsound.2
  | handle _ answers =>
    cases hstage : c.stage with
    | reading | parsed _ | locked _ _ | changing _ | responding _ | finished =>
      simp [Panel.taskStep, hstage] at hstep
    | authorizing seen =>
      simp only [Panel.taskStep, hstage] at hstep
      rw [hstage] at hsound
      obtain rfl := Option.some.inj hstep
      have hheld (hsome : seen.lockedAt.isSome = true) : s.mutation = some i :=
        h.holder i c hc (by rw [hstage]; exact hsome)
      have hrecord : (s.record c seen
          (handle crates c.localIp s.csrf seen.request seen.config answers)).Sound crates :=
        h.record fun effect heffect => (handle_cases heffect).imp id fun ⟨hpass, hpost⟩ =>
          ⟨seen, rfl, hsound, hpass, hpost⟩
      split
      · next hchanges => exact hrecord.advance hc ⟨hsound, authorize_of_changes hchanges⟩ hheld
      · exact hrecord.advance hc trivial hheld
  | answer _ answer =>
    cases hstage : c.stage with
    | reading | parsed _ | locked _ _ | authorizing _ | responding _ | finished =>
      simp [Panel.taskStep, hstage] at hstep
    | changing seen =>
      simp only [Panel.taskStep, hstage] at hstep
      rw [hstage] at hsound
      obtain rfl := Option.some.inj hstep
      have hheld (hsome : seen.lockedAt.isSome = true) : s.mutation = some i :=
        h.holder i c hc (by rw [hstage]; exact hsome)
      refine (h.record fun effect heffect => .inr ⟨seen, rfl, hsound.1, hsound.2, ?_⟩).advance hc
        trivial hheld
      rw [List.mem_singleton.mp heffect]
      nofun
  | finish _ =>
    obtain ⟨-, heq⟩ := Option.ite_none_left_eq_some.mp hstep
    obtain rfl := Option.some.inj heq
    exact h.finish hc

/-- Every step keeps the panel sound. -/
theorem step (h : s.Sound crates) {t : Panel} {action : Action}
    (hstep : s.step crates action = some t) : t.Sound crates := by
  cases action with
  | accept localIp reader =>
    obtain ⟨-, heq⟩ := Option.ite_none_right_eq_some.mp hstep
    obtain rfl := Option.some.inj heq
    refine ⟨h.csrf, h.current, fun c hc => ?_, fun i c hc hholds => ?_, h.log⟩
    · rcases List.mem_append.mp hc with hold | hnew
      · exact h.connections c hold
      · rw [List.mem_singleton.mp hnew]
        trivial
    · rw [List.getElem?_append] at hc
      split at hc
      · exact h.holder i c hc hholds
      · rw [List.mem_singleton.mp (List.mem_of_getElem? hc)] at hholds
        cases hholds
  | publish config =>
    obtain rfl := Option.some.inj hstep
    refine ⟨h.csrf, List.getLast?_concat, fun c hc => (h.connections c hc).publish config, h.holder,
      fun e he => (h.log e he).publish config⟩
  | read i | lock i | snapshot i | handle i _ | answer i _ | finish i =>
    obtain ⟨c, hc, htask⟩ := Option.bind_eq_some_iff.mp hstep
    exact h.taskStep hc htask

end Panel.Sound

/-- In every run the panel is sound. -/
theorem Panel.sound {s : Panel} (h : (webSystem crates).Reachable s) : s.Sound crates := by
  apply h.invariant
  · rintro s ⟨config, random, rfl⟩
    refine ⟨⟨random, rfl⟩, List.getLast?_singleton, List.forall_mem_nil _, fun i c hc => ?_,
      List.forall_mem_nil _⟩
    rw [List.getElem?_nil] at hc
    cases hc
  · intro s action t hs hstep
    exact hs.step hstep

/-! ## Access control -/

/-- The hashes of these pairs tell them apart. -/
def NoCollisions (crates : Crates) (pairs : List (Bytes × Bytes)) : Prop :=
  ∀ p ∈ pairs, crates.sha256 p.1 = crates.sha256 p.2 → p.1 = p.2

/-- The request that an effect is for is admitted: the stream has it, with these header fields
of different names. -/
structure Event.Admitted (crates : Crates) (csrf : String) (published : List Config) (e : Event)
    (seen : Seen) (fields : List (String × String)) : Prop where
  logged : e.seen = some seen
  read : ∃ rest, readRequest e.reader = .ok (seen.request, rest)
  parses : seen.request.Parses e.reader.unread fields
  host : ∃ value host, ("host", value) ∈ fields ∧ hostname value = some host ∧
    HostAllowed e.localIp seen.config host
  password : seen.config.webPassword ≠ "" → ∃ value, ("authorization", "Basic " ++ value) ∈ fields ∧
    crates.decodeBase64 value = some (credentials seen.config)
  snapshot : published[seen.readAt]? = some seen.config
  locked : seen.request.method = "POST" → ∃ lockedAt, seen.lockedAt = some lockedAt ∧
    lockedAt ≤ seen.readAt
  token : e.effect.mutates = true → seen.request.method = "POST" ∧ ("x-csrf-token", csrf) ∈ fields

private theorem credentials_ne_nil (cfg : Config) : credentials cfg ≠ [] := by
  intro h
  have hempty : cfg.webUser ++ ":" ++ cfg.webPassword = "" := utf8_inj h
  simp at hempty

private theorem hex_ne_empty (random : Block 16) : hex random.val ≠ "" := by
  intro h
  rw [hex, ← String.toList_inj, String.toList_ofList] at h
  obtain ⟨byte, hbyte⟩ := List.exists_mem_of_length_pos (l := random.val) (by rw [random.2]; decide)
  have hnil := List.flatMap_eq_nil_iff.mp h byte hbyte
  cases hnil

/-- Credentials that are supplied come from a field. -/
theorem Request.supplied_eq {request : Request} {cfg : Config}
    (h : request.supplied crates = credentials cfg) :
    ∃ value, request.headers["authorization"]? = some ("Basic " ++ value) ∧
      crates.decodeBase64 value = some (credentials cfg) := by
  rw [supplied] at h
  cases hbytes : (request.headers["authorization"]?.bind (stripPrefix "Basic ")).bind
      crates.decodeBase64 with
  | none =>
    rw [hbytes] at h
    exact absurd h.symm (credentials_ne_nil cfg)
  | some bytes =>
    rw [hbytes] at h
    obtain ⟨value, hvalue, hdecode⟩ := Option.bind_eq_some_iff.mp hbytes
    obtain ⟨text, htext, hstrip⟩ := Option.bind_eq_some_iff.mp hvalue
    refine ⟨value, ?_, ?_⟩
    · rw [htext, stripPrefix_eq_some hstrip]
    · rw [hdecode]
      exact congrArg some h

/-- An effect that is no refusal comes from a request that was admitted. -/
theorem Event.Sound.admitted {csrf : String} {published : List Config} {e : Event}
    (h : e.Sound crates csrf published) (hcsrf : csrf ≠ "")
    (hguarded : ∀ response ∈ refusals, e.effect ≠ .respond response)
    (hcollisions : ∀ seen, e.seen = some seen →
      NoCollisions crates (compared crates csrf seen.request seen.config)) :
    ∃ seen fields, e.Admitted crates csrf published seen fields := by
  obtain ⟨response, hmem, heffect⟩ | ⟨seen, hseen, hsound, ⟨host, hpass⟩, hpost⟩ := h
  · exact absurd heffect (hguarded response hmem)
  have hdistinct := hcollisions seen hseen
  obtain ⟨rest, hread⟩ := hsound.read
  obtain ⟨fields, hparses⟩ := readRequest_spec hread
  obtain ⟨⟨value, hvalue, hname⟩, hallowed, hpassword, htoken⟩ := authorize_eq_ok hpass
  refine ⟨seen, fields, hseen, hsound.read, hparses,
    ⟨value, host, hparses.mem_fields hvalue, hname, hallowed⟩, fun hset => ?_, hsound.snapshot,
    hsound.locked, fun hmutates => ⟨hpost hmutates, ?_⟩⟩
  · have hsame : seen.request.supplied crates = credentials seen.config := by
      refine hdistinct (_, _) (List.mem_append_left _ ?_) (of_decide_eq_true (hpassword hset))
      rw [if_pos hset]
      exact List.mem_singleton_self _
    obtain ⟨value, hfield, hdecode⟩ := Request.supplied_eq hsame
    exact ⟨value, hparses.mem_fields hfield, hdecode⟩
  · have hsame : utf8 seen.request.token = utf8 csrf := by
      have hmethod := hpost hmutates
      refine hdistinct (_, _) (List.mem_append_right _ ?_) (of_decide_eq_true (htoken hmethod))
      rw [if_pos hmethod]
      exact List.mem_singleton_self _
    apply hparses.mem_fields
    have htoken' := utf8_inj hsame
    rw [Request.token] at htoken'
    cases hfield : seen.request.headers["x-csrf-token"]? with
    | none =>
      rw [hfield] at htoken'
      exact absurd htoken'.symm hcsrf
    | some token =>
      rw [hfield] at htoken'
      exact congrArg some htoken'

/-- Whatever is not a refusal is for a request that is admitted, while the lock of the changes
is with one task at most. -/
theorem panelGuarded {s : Panel} (h : (webSystem crates).Reachable s) :
    (∀ i c, s.connections[i]? = some c → c.stage.holds = true → s.mutation = some i) ∧
      ∀ e ∈ s.log, (∀ response ∈ refusals, e.effect ≠ .respond response) →
        (∀ seen, e.seen = some seen →
          NoCollisions crates (compared crates s.csrf seen.request seen.config)) →
        ∃ seen fields, e.Admitted crates s.csrf s.published seen fields := by
  have hsound := Panel.sound h
  refine ⟨hsound.holder, fun e he hguarded hcollisions => ?_⟩
  obtain ⟨random, hrandom⟩ := hsound.csrf
  exact (hsound.log e he).admitted (hrandom ▸ hex_ne_empty random) hguarded hcollisions

/-- Whether an effect is a forced check. -/
def Effect.isForced : Effect → Bool
  | .check force => force
  | _ => false

private theorem Effect.eq_check_of_isForced {effect : Effect} (h : effect.isForced = true) :
    effect = .check true := by
  cases effect with
  | respond _ | change _ | startUpdate => cases h
  | check force => exact congrArg Effect.check h

/-- The hash and the decoding at the strings that `checkReader` has compared. -/
def checkCrates : Crates where
  sha256 bytes :=
    if bytes = utf8 "a:p" then
      ⟨[116, 82, 94, 11, 187, 55, 93, 31, 193, 215, 140, 175, 206, 150, 142, 204,
      163, 167, 152, 101, 104, 184, 84, 250, 152, 102, 248, 52, 226, 93, 91, 72], rfl⟩
    else
      ⟨[132, 224, 192, 234, 250, 169, 90, 52, 194, 147, 242, 120, 172, 82, 228, 92,
      229, 55, 186, 181, 231, 82, 160, 14, 105, 89, 161, 58, 225, 3, 182, 90], rfl⟩
  decodeBase64 text := if text = "YTpw" then some (utf8 "a:p") else none
  serde := zerosSerde 0

/-- A stream with a forced check for updates, in three reads. -/
def checkReader : BufReader where
  source := ⟨utf8 "POST /api/update/check HTTP/1.1\r\nHost: 10.0.0.1\r\n" ++
    utf8 "Authorization: Basic YTpw\r\n" ++
    utf8 "X-CSRF-Token: 00000000000000000000000000000000\r\n\r\n", [10, 50]⟩

/-- A request with the password and the token, and the check that it forces. -/
theorem panelGuarded_check :
    ∃ s e seen fields, (webSystem checkCrates).Reachable s ∧ e ∈ s.log ∧ e.effect = .check true ∧
      e.Admitted checkCrates s.csrf s.published seen fields := by
  let config : Config := { webUser := "a", webPassword := "p" }
  let start : Panel := { config, published := [config], csrf := hex (List.replicate 16 0) }
  have hstart : (webSystem checkCrates).start start := ⟨config, ⟨List.replicate 16 0, rfl⟩, rfl⟩
  let answers : Answers := ⟨.null, .null, .null, .ok .null, ⟨List.replicate 16 0, rfl⟩, true⟩
  obtain ⟨s, hrun, hcheck⟩ := (webSystem checkCrates).exists_of_run start
    [.accept (.v4 10 0 0 1) checkReader, .read 0, .lock 0, .snapshot 0, .handle 0 answers]
    (fun t => t.log.any fun e => e.effect.isForced && e.seen.all fun seen =>
      (compared checkCrates t.csrf seen.request seen.config).all fun p => p.1 = p.2)
    (by decide +kernel)
  have hreachable := (System.Reachable.start hstart).run hrun
  obtain ⟨e, he, hforced⟩ := List.any_eq_true.mp hcheck
  obtain ⟨hforced, hsame⟩ := Bool.and_eq_true_iff.mp hforced
  have heffect := Effect.eq_check_of_isForced hforced
  obtain ⟨seen, fields, hadmitted⟩ := (panelGuarded hreachable).2 e he
    (fun response _ hresponse => by cases heffect.symm.trans hresponse)
    fun seen hseen p hp _ => by
      rw [hseen] at hsame
      exact of_decide_eq_true (List.all_eq_true.mp hsame p hp)
  exact ⟨s, e, seen, fields, hreachable, he, heffect, hadmitted⟩

end Web

end TgWsProxy
