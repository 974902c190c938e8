import TgWsProxy.FrontReading

/-!
# What a front sends

One relation between the verdict on a connection, where it is and what either side of it has been
sent holds from its acceptance on, whatever its peer and the fake domain do.
-/

namespace TgWsProxy

open TgWsProxy.Core
open TgWsProxy.AsyncRead

variable {cfg : Config}

section

variable (P : Primitives) (mac : Mac) (secret : Block 16) (epoch : Nat) (cfg : Config)
  (c : FrontConn)

/-- Behind a ClientHello that is answered, with so much of the answer to write. -/
structure Greets (record : Bytes) (time : Nat) (left : Bytes) : Prop where
  isHello : IsHelloRecord cfg record
  host : c.toHost = []
  sent : ∃ header, Announced cfg header ∧ c.sent = header ++ (record ++ c.input.bytes)
  peer :
    ∃ parsed key payload, authenticate mac record secret (wallSeconds epoch time) = .ok parsed ∧
    c.toPeer ++ left = buildServerHello mac secret parsed key payload

/-- Behind a ClientHello that is not, with so much to write in either direction. -/
structure Passes (record up down : Bytes) : Prop where
  isHello : IsHelloRecord cfg record
  sent : ∃ header, Announced cfg header ∧
    c.sent = header ++ (c.toHost ++ (up ++ c.input.bytes))
  record : ∃ rest, c.toHost ++ (up ++ c.input.bytes) = record ++ rest
  host : c.toPeer ++ (down ++ c.host.bytes) = c.hostSent

/-- The way of a handshake to the proxy. -/
inductive Carries (block : Bytes) : Verdict → Prop
  | plain {header rest : Bytes} (hheader : Announced cfg header)
    (hsent : c.sent = header ++ (block ++ rest)) : Carries block .plain
  | hello {record header rest data : Bytes} {time : Nat} {ending : Except IoError Unit}
    (hheader : Announced cfg header) (hsent : c.sent = header ++ (record ++ rest))
    (hrecords : Records rest data ending) (hblock : block <+: data) :
    Carries block (.hello record time)

/-- A handshake under the secret, for a DC that there is. -/
structure Admitted (verdict : Verdict) (handshake : ClientHandshake) (dc : Int)
    (media test : Bool) : Prop where
  parsed : ∃ block : Block 64, parseClientHandshake P block secret = .ok handshake ∧
    Carries cfg c block.val verdict
  dc : normalizeDc handshake.dcIndex.toInt cfg.forceTestDc = .ok (dc, media, test)

/-- What the peer and the fake domain of a connection have been sent. -/
inductive Exposed : Verdict → Prop
  /-- Nothing. -/
  | unknown (hpeer : c.toPeer = []) (hhost : c.toHost = []) : Exposed .unknown
  /-- A ServerHello, to a peer that has the secret. -/
  | hello {record header : Bytes} {time : Nat} {parsed : ClientHello} {key : Block 32}
    {payload : Bytes} (hrecord : IsHelloRecord cfg record) (hheader : Announced cfg header)
    (hsent : header ++ record <+: c.sent)
    (hauth : authenticate mac record secret (wallSeconds epoch time) = .ok parsed)
    (hpeer : c.toPeer <+: buildServerHello mac secret parsed key payload) (hhost : c.toHost = []) :
    Exposed (.hello record time)
  /-- What each of them has sent to the other. -/
  | masked {record header rest : Bytes} (hrecord : IsHelloRecord cfg record)
    (hheader : Announced cfg header) (hsent : c.sent = header ++ (record ++ rest))
    (hhost : c.toHost <+: record ++ rest) (hpeer : c.toPeer <+: c.hostSent) :
    Exposed (.masked record)
  | redirected (hdomain : cfg.fakeTlsDomain ≠ "")
    (hpeer : c.toPeer <+: redirectResponse cfg.fakeTlsDomain) (hhost : c.toHost = []) :
    Exposed .redirected
  | plain (hdomain : cfg.fakeTlsDomain = "") (hpeer : c.toPeer = []) (hhost : c.toHost = []) :
    Exposed .plain

/-- What is known of a connection at a stage. -/
inductive Flows : Verdict → FrontStage → Prop
  | opening (expiry : Nat) (hinput : c.input.bytes = c.sent) (hhost : c.host.bytes = c.hostSent)
    (hpeer : c.toPeer = []) (htoHost : c.toHost = []) : Flows .unknown (.opening expiry)
  | greeting {record left : Bytes} {time : Nat} (expiry : Nat)
    (h : Greets mac secret epoch cfg c record time left) :
    Flows (.hello record time) (.greeting left expiry)
  | tlsHandshake {record : Bytes} {time : Nat} (expiry : Nat)
    (h : Greets mac secret epoch cfg c record time []) :
    Flows (.hello record time) (.tlsHandshake expiry)
  | maskConnect {record : Bytes} (hello : Bytes) (expiry : Nat) (h : Passes cfg c record hello []) :
    Flows (.masked record) (.maskConnect hello expiry)
  | maskHello {record : Bytes} (left : Bytes) (expiry : Nat) (h : Passes cfg c record left []) :
    Flows (.masked record) (.maskHello left expiry)
  | masking {record : Bytes} {copies : Masking}
    (h : Passes cfg c record copies.up.left copies.down.left) :
    Flows (.masked record) (.masking copies)
  | redirecting {left : Bytes} (expiry : Nat) (hdomain : cfg.fakeTlsDomain ≠ "")
    (hpeer : c.toPeer ++ left = redirectResponse cfg.fakeTlsDomain) (hhost : c.toHost = []) :
    Flows .redirected (.redirecting left expiry)
  | plainHandshake {header : Bytes} {first : UInt8} (expiry : Nat)
      (hdomain : cfg.fakeTlsDomain = "")
    (hheader : Announced cfg header) (hsent : c.sent = header ++ first :: c.input.bytes)
    (hpeer : c.toPeer = []) (hhost : c.toHost = []) : Flows .plain (.plainHandshake first expiry)
  | connecting {verdict : Verdict} {handshake : ClientHandshake} {dc : Int} {media test : Bool}
    (h : Exposed mac secret epoch cfg c verdict)
    (hadmitted : Admitted P secret cfg c verdict handshake dc media test) :
    Flows verdict (.connecting handshake dc media test)
  | closed {verdict : Verdict} (h : Exposed mac secret epoch cfg c verdict) : Flows verdict .closed
  | failed {verdict : Verdict} (e : IoError) (h : Exposed mac secret epoch cfg c verdict) :
    Flows verdict (.failed e)
  | gone {verdict : Verdict} (h : Exposed mac secret epoch cfg c verdict) : Flows verdict .gone

end

variable {P : Primitives} {mac : Mac} {secret : Block 16} {epoch : Nat} {c : FrontConn}
  {verdict : Verdict} {stage : FrontStage}

/-- What a connection that is greeted has exposed. -/
theorem Greets.exposed {record left : Bytes} {time : Nat}
    (h : Greets mac secret epoch cfg c record time left) :
    Exposed mac secret epoch cfg c (.hello record time) := by
  obtain ⟨header, hheader, hsent⟩ := h.sent
  obtain ⟨parsed, key, payload, hauth, hpeer⟩ := h.peer
  refine .hello h.isHello hheader ?_ hauth (hpeer ▸ List.prefix_append ..) h.host
  rw [hsent, ← List.append_assoc]
  exact List.prefix_append ..

/-- What a connection that is masked has exposed. -/
theorem Passes.exposed {record up down : Bytes} (h : Passes cfg c record up down) :
    Exposed mac secret epoch cfg c (.masked record) := by
  obtain ⟨header, hheader, hsent⟩ := h.sent
  obtain ⟨rest, hrest⟩ := h.record
  exact .masked h.isHello hheader (hsent.trans (congrArg (header ++ ·) hrest))
    (hrest ▸ List.prefix_append ..) (h.host ▸ List.prefix_append ..)

/-- Wherever a connection is. -/
theorem Flows.exposed (h : Flows P mac secret epoch cfg c verdict stage) :
    Exposed mac secret epoch cfg c verdict := by
  cases h with
  | opening _ _ _ hpeer hhost => exact .unknown hpeer hhost
  | greeting _ h => exact h.exposed
  | tlsHandshake _ h => exact h.exposed
  | maskConnect _ _ h => exact h.exposed
  | maskHello _ _ h => exact h.exposed
  | masking h => exact h.exposed
  | redirecting _ hdomain hpeer hhost =>
    exact .redirected hdomain (hpeer ▸ List.prefix_append ..) hhost
  | plainHandshake _ hdomain _ _ hpeer hhost => exact .plain hdomain hpeer hhost
  | connecting h => exact h
  | closed h => exact h
  | failed _ h => exact h
  | gone h => exact h

/-- Only what was written matters. -/
theorem Exposed.keep {c' : FrontConn} (h : Exposed mac secret epoch cfg c verdict)
    (hsent : c'.sent = c.sent) (hhostSent : c'.hostSent = c.hostSent) (hpeer : c'.toPeer = c.toPeer)
    (hhost : c'.toHost = c.toHost) : Exposed mac secret epoch cfg c' verdict := by
  cases h with
  | unknown hp hh => exact .unknown (hpeer.trans hp) (hhost.trans hh)
  | hello hrecord hheader hs hauth hp hh =>
    exact .hello hrecord hheader (hsent ▸ hs) hauth (hpeer ▸ hp) (hhost.trans hh)
  | masked hrecord hheader hs hh hp =>
    exact .masked hrecord hheader (hsent.trans hs) (hhost ▸ hh) (by rw [hpeer, hhostSent]; exact hp)
  | redirected hdomain hp hh => exact .redirected hdomain (hpeer ▸ hp) (hhost.trans hh)
  | plain hdomain hp hh => exact .plain hdomain (hpeer.trans hp) (hhost.trans hh)

/-- What a step leaves of a connection is known, and its peer's bytes and verdict stay. -/
structure Follows (P : Primitives) (mac : Mac) (secret : Block 16) (epoch : Nat) (cfg : Config)
    (c c' : FrontConn) : Prop where
  flows : Flows P mac secret epoch cfg c' c'.verdict c'.stage
  sent : c'.sent = c.sent
  hostSent : c'.hostSent = c.hostSent
  began : c'.began = c.began

/-- A connection that ends. -/
theorem follows_end (h : Flows P mac secret epoch cfg c c.verdict c.stage)
    (hstage : stage = .closed ∨ (∃ e, stage = .failed e) ∨ stage = .gone) :
    Follows P mac secret epoch cfg c { c with stage } := by
  have hexposed : Exposed mac secret epoch cfg { c with stage } c.verdict :=
    h.exposed.keep rfl rfl rfl rfl
  refine ⟨?_, rfl, rfl, rfl⟩
  rcases hstage with rfl | ⟨e, rfl⟩ | rfl
  · exact .closed hexposed
  · exact .failed e hexposed
  · exact .gone hexposed

private theorem authenticate_of_verifyAndCache {cache cache' : ReplayCache} {now wall : Nat}
    {data : Bytes}
    {parsed : ClientHello}
    (h : verifyAndCache mac secret cache now wall data = (.ok parsed, cache')) :
    authenticate mac data secret wall = .ok parsed := by
  unfold verifyAndCache at h
  split at h
  · cases h
  · next hello hauth =>
    dsimp only at h
    split at h
    · cases h
    · split at h
      · cases h
      · cases h
        exact hauth

variable {now : Nat} {shared : FrontShared}

/-- Only a connection that is opening is opened. -/
theorem stepConn_opened {key : Block 32} {payload : Bytes} {r : FrontResult}
    (h : stepConn P mac secret epoch cfg now c shared (.opened key payload) = some r) :
    ∃ expiry, c.stage = .opening expiry ∧
      r = openConn mac secret epoch cfg now c shared key payload := by
  unfold stepConn at h
  dsimp only at h
  split at h
  · next expiry hstage => exact ⟨expiry, hstage, (Option.some.inj h).symm⟩
  · cases h

/-- Only a connection that waits for the fake domain is connected to it. -/
theorem stepConn_connected {r : FrontResult}
    (h : stepConn P mac secret epoch cfg now c shared .connected = some r) :
    ∃ hello expiry, c.stage = .maskConnect hello expiry ∧
      r = (shared, { c with stage := .maskHello hello (now + cfg.idleLimit) }) := by
  unfold stepConn at h
  dsimp only at h
  split at h
  · next hello expiry hstage => exact ⟨hello, expiry, hstage, (Option.some.inj h).symm⟩
  · cases h

/-- What opening leaves of a connection is known. -/
theorem follows_openConn {expiry : Nat} (h : Flows P mac secret epoch cfg c c.verdict c.stage)
    (hstage : c.stage = .opening expiry) (key : Block 32) (payload : Bytes) :
    Follows P mac secret epoch cfg c
      (openConn mac secret epoch cfg now c shared key payload).2 := by
  have hopening := h
  rw [hstage] at hopening
  generalize hverdict : c.verdict = verdict at hopening
  cases hopening with
  | opening _ hinput hhost hpeer htoHost =>
    unfold openConn
    split
    · exact follows_end h (.inr (.inl ⟨_, rfl⟩))
    · next first hello input hopen =>
      obtain ⟨header, hheader, hbytes, hrecord, -⟩ := opening_ok hopen
      have hsent : c.sent = header ++ (hello ++ input.source.bytes) := hinput.symm.trans hbytes
      have hhello := hrecord hello rfl
      dsimp only
      split
      · next parsed cache hverify =>
        refine ⟨.greeting _ ⟨hhello, htoHost, ⟨header, hheader, hsent⟩, parsed, key, payload,
          authenticate_of_verifyAndCache hverify, ?_⟩, rfl, rfl, rfl⟩
        dsimp only
        rw [hpeer, List.nil_append]
      · refine ⟨.maskConnect _ _ ⟨hhello, ⟨header, hheader, ?_⟩, ⟨input.source.bytes, ?_⟩, ?_⟩, rfl,
          rfl, rfl⟩ <;> dsimp only
        · rw [htoHost, List.nil_append, hsent]
        · rw [htoHost, List.nil_append]
        · rw [hpeer, hhost, List.nil_append, List.nil_append]
    · next first input hopen =>
      obtain ⟨header, hheader, hbytes, -, -⟩ := opening_ok hopen
      have hsent : c.sent = header ++ first :: input.source.bytes := hinput.symm.trans hbytes
      dsimp only
      split
      · next hdomain =>
        refine ⟨.redirecting _ hdomain ?_ htoHost, rfl, rfl, rfl⟩
        dsimp only
        rw [hpeer, List.nil_append]
      · next hdomain =>
        exact ⟨.plainHandshake _ (not_not.mp hdomain) hheader hsent hpeer htoHost, rfl, rfl, rfl⟩

/-- A handshake that has come its way. -/
theorem follows_serveHandshake {block : Block 64}
    (h : Exposed mac secret epoch cfg c c.verdict) (hcarries : Carries cfg c block.val c.verdict) :
    Follows P mac secret epoch cfg c (serveHandshake P secret cfg c shared block).2 := by
  have hkeep (stage : FrontStage) : Exposed mac secret epoch cfg { c with stage } c.verdict :=
    h.keep rfl rfl rfl rfl
  have hcarries' (stage : FrontStage) : Carries cfg { c with stage } block.val c.verdict := by
    generalize c.verdict = verdict at hcarries
    cases hcarries with
    | plain hheader hsent => exact .plain hheader hsent
    | hello hheader hsent hrecords hblock => exact .hello hheader hsent hrecords hblock
  unfold serveHandshake
  split
  · exact ⟨.failed _ (hkeep _), rfl, rfl, rfl⟩
  · next parsed hparsed =>
    split
    · exact ⟨.failed _ (hkeep _), rfl, rfl, rfl⟩
    · next dc media test hdc =>
      exact ⟨.connecting (hkeep _) ⟨⟨block, hparsed, hcarries' _⟩, hdc⟩, rfl, rfl, rfl⟩

/-- The same step, seen from a connection with the same peers and the same start. -/
theorem Follows.of_same {c₀ c₁ : FrontConn} (h : Follows P mac secret epoch cfg c₀ c₁)
    (hsent : c₀.sent = c.sent) (hhostSent : c₀.hostSent = c.hostSent)
    (hbegan : c₀.began = c.began) :
    Follows P mac secret epoch cfg c c₁ :=
  ⟨h.flows, h.sent.trans hsent, h.hostSent.trans hhostSent, h.began.trans hbegan⟩

/-- The end of a `read_exact` of a handshake: it has failed, or the handshake has come its way. -/
theorem follows_handshakeRead {result : Except IoError Bytes}
    (h : Exposed mac secret epoch cfg c c.verdict)
    (hresult : ∀ data, result = .ok data → data.length = 64 ∧ Carries cfg c data c.verdict) :
    Follows P mac secret epoch cfg c (handshakeRead P secret cfg c shared result).2 := by
  unfold handshakeRead
  split
  · exact ⟨.failed _ (h.keep rfl rfl rfl rfl), rfl, rfl, rfl⟩
  · next data =>
    obtain ⟨hlength, hcarries⟩ := hresult data rfl
    rw [dif_pos hlength]
    exact follows_serveHandshake h hcarries

/-- What reading a handshake leaves of it is known. -/
theorem follows_handshakeConn {grants : List (Option Nat)} {r : FrontResult}
    (h : Flows P mac secret epoch cfg c c.verdict c.stage)
    (hstep : handshakeConn P secret cfg c shared grants = some r) :
    Follows P mac secret epoch cfg c r.2 := by
  have hexposed := h.exposed
  unfold handshakeConn at hstep
  split at hstep
  · next expiry hstage =>
    -- the records behind the ClientHello
    obtain ⟨⟨result, stream⟩, hread, rfl⟩ := Option.map_eq_some_iff.mp hstep
    refine Follows.of_same (c := c)
      (follows_handshakeRead (hexposed.keep rfl rfl rfl rfl) fun bytes hbytes => ?_) rfl rfl rfl
    subst hbytes
    obtain ⟨data, ending, hrecords⟩ := records_total c.input.bytes
    have hfills := handshake_fills hrecords grants
    rcases Nat.lt_or_ge data.length 64 with hshort | hfull
    · obtain ⟨e, t, hfail⟩ := hfills.short hshort
      cases hread.symm.trans hfail
    · obtain ⟨t, hok, -⟩ := hfills.full hfull
      cases hread.symm.trans hok
      refine ⟨List.length_take_of_le hfull, ?_⟩
      rw [hstage] at h
      dsimp only
      generalize c.verdict = verdict at h
      cases h with
      | tlsHandshake _ hgreets =>
        obtain ⟨header, hheader, hsent⟩ := hgreets.sent
        exact .hello hheader hsent hrecords (List.take_prefix ..)
  · next first expiry hstage =>
    rw [hstage] at h
    generalize hverdict : c.verdict = verdict at h
    cases h with
    | plainHandshake _ hdomain hheader hsent hpeer hhost =>
      split at hstep
      · cases hstep
        exact ⟨hverdict ▸ .failed _ (.plain hdomain hpeer hhost), rfl, rfl, rfl⟩
      · next data input hread =>
        obtain rfl := Option.some.inj hstep
        have hbytes : c.input.bytes = data ++ input.source.bytes := bytes_of_readExact hread
        refine Follows.of_same (c := c)
          (follows_handshakeRead (hexposed.keep rfl rfl rfl rfl) fun block hblock => ?_) rfl rfl rfl
        cases hblock
        refine ⟨congrArg (· + 1) (length_of_readExact hread), ?_⟩
        dsimp only
        rw [hverdict]
        have hsplit := hsent
        rw [hbytes, ← List.cons_append] at hsplit
        exact .plain hheader hsplit
  · cases hstep

private theorem Flows.cast (h : Flows P mac secret epoch cfg c verdict stage)
    (hverdict : c.verdict = verdict)
    (hstage : c.stage = stage) : Flows P mac secret epoch cfg c c.verdict c.stage :=
  hverdict.symm ▸ hstage.symm ▸ h

variable {c' : FrontConn}

/-- A ServerHello goes over to what is written. -/
theorem Greets.move {record left left' : Bytes} {time : Nat}
    (h : Greets mac secret epoch cfg c record time left) (hsent : c'.sent = c.sent)
    (hinput : c'.input = c.input) (hhost : c'.toHost = c.toHost)
    (hpeer : c'.toPeer ++ left' = c.toPeer ++ left) :
    Greets mac secret epoch cfg c' record time left' where
  isHello := h.isHello
  host := hhost.trans h.host
  sent := by rw [hsent, hinput]; exact h.sent
  peer := by rw [hpeer]; exact h.peer

/-- What is read is left to write, and goes over to what is written. -/
theorem Passes.move {record up down up' down' : Bytes} (h : Passes cfg c record up down)
    (hsent : c'.sent = c.sent) (hhostSent : c'.hostSent = c.hostSent)
    (hup : c'.toHost ++ (up' ++ c'.input.bytes) = c.toHost ++ (up ++ c.input.bytes))
    (hdown : c'.toPeer ++ (down' ++ c'.host.bytes) = c.toPeer ++ (down ++ c.host.bytes)) :
    Passes cfg c' record up' down' where
  isHello := h.isHello
  sent := by rw [hsent, hup]; exact h.sent
  record := by rw [hup]; exact h.record
  host := by rw [hdown, hhostSent]; exact h.host

/-- Part of what is left is written. -/
theorem written (done left rest : Bytes) (n : Nat) :
    done ++ left.take n ++ (left.drop n ++ rest) = done ++ (left ++ rest) := by
  rw [List.append_assoc, ← List.append_assoc (left.take n), List.take_append_drop]

private theorem written_all {left : Bytes} {n : Nat} (h : left.drop n = []) :
    left.take n = left := by
  rw [← List.append_nil (left.take n), ← h, List.take_append_drop]

/-- What a write leaves of it is known. -/
theorem follows_writeConn {n : Nat} {r : FrontResult}
    (h : Flows P mac secret epoch cfg c c.verdict c.stage)
    (hstep : writeConn now c shared n = some r) : Follows P mac secret epoch cfg c r.2 := by
  unfold writeConn at hstep
  generalize hverdict : c.verdict = verdict at h
  cases hstage : c.stage <;> rw [hstage] at h <;>
    simp only [hstage, Option.ite_none_right_eq_some, Option.some.injEq, reduceCtorEq] at hstep
  case greeting left expiry =>
    obtain ⟨-, rfl⟩ := hstep
    cases h with
    | greeting _ h =>
      refine ⟨?_, rfl, rfl, rfl⟩
      by_cases hdone : left.drop n = []
      · refine .cast (.tlsHandshake expiry (h.move rfl rfl rfl ?_)) hverdict (if_pos hdone)
        dsimp only [FrontConn.emit]
        rw [written_all hdone, List.append_nil]
        rfl
      · refine .cast (.greeting expiry (h.move rfl rfl rfl ?_)) hverdict (if_neg hdone)
        exact (List.append_assoc ..).trans (congrArg (c.toPeer ++ ·) (List.take_append_drop n left))
  case maskHello left expiry =>
    obtain ⟨-, rfl⟩ := hstep
    cases h with
    | maskHello _ _ h =>
      refine ⟨?_, rfl, rfl, rfl⟩
      by_cases hdone : left.drop n = []
      · refine .cast (.masking (h.move rfl rfl ?_ rfl)) hverdict (if_pos hdone)
        have hup := written c.toHost left c.input.bytes n
        rw [hdone] at hup
        exact hup
      · exact .cast (.maskHello _ expiry (h.move rfl rfl (written ..) rfl)) hverdict (if_neg hdone)
  case redirecting left expiry =>
    obtain ⟨-, rfl⟩ := hstep
    cases h with
    | redirecting _ hdomain hpeer hhost =>
      have hwritten :
          c.toPeer ++ left.take n ++ left.drop n = redirectResponse cfg.fakeTlsDomain := by
        rw [List.append_assoc, List.take_append_drop, hpeer]
      refine ⟨?_, rfl, rfl, rfl⟩
      by_cases hdone : left.drop n = []
      · refine .cast (.closed (.redirected hdomain ?_ hhost)) hverdict (if_pos hdone)
        exact hwritten ▸ List.prefix_append ..
      · exact .cast (.redirecting expiry hdomain hwritten hhost) hverdict (if_neg hdone)

/-- What a read of one direction leaves of it is known. -/
theorem follows_copyReadConn {up : Bool} {r : FrontResult}
    (h : Flows P mac secret epoch cfg c c.verdict c.stage)
    (hstep : copyReadConn cfg now c shared up = some r) : Follows P mac secret epoch cfg c r.2 := by
  have hexposed := h.exposed
  unfold copyReadConn at hstep
  generalize hverdict : c.verdict = verdict at h hexposed
  split at hstep
  · next copies hstage =>
    rw [hstage] at h
    split at hstep
    · cases hstep
    · next hside =>
      obtain rfl := Option.some.inj hstep
      cases h with
      | masking h =>
        cases up with
        | true =>
          rw [show copies.up = .reading from hside] at h
          refine ⟨?_, rfl, rfl, rfl⟩
          by_cases hdone : (c.input.read cfg.bufferSize.toNat).1 = []
          · exact .cast (.closed (hexposed.keep rfl rfl rfl rfl)) hverdict (if_pos hdone)
          · refine .cast (.masking (h.move rfl rfl ?_ ?_)) hverdict (if_neg hdone)
            · exact congrArg (c.toHost ++ ·) (c.input.read_append _)
            · rfl
        | false =>
          rw [show copies.down = .reading from hside] at h
          refine ⟨?_, rfl, rfl, rfl⟩
          by_cases hdone : (c.host.read cfg.bufferSize.toNat).1 = []
          · exact .cast (.closed (hexposed.keep rfl rfl rfl rfl)) hverdict (if_pos hdone)
          · refine .cast (.masking (h.move rfl rfl ?_ ?_)) hverdict (if_neg hdone)
            · rfl
            · exact congrArg (c.toPeer ++ ·) (c.host.read_append _)
  · cases hstep

/-- Nothing is left where a direction goes back to reading. -/
theorem left_copyWrote (left : Bytes) (n expiry : Nat) :
    (if left.drop n = [] then CopyStage.reading else .writing (left.drop n) expiry).left =
      left.drop n := by
  split
  · next hdone => exact hdone.symm
  · rfl

/-- What a write of one direction leaves of it is known. -/
theorem follows_copyWroteConn {up : Bool} {n : Nat} {r : FrontResult}
    (h : Flows P mac secret epoch cfg c c.verdict c.stage)
    (hstep : copyWroteConn c shared up n = some r) : Follows P mac secret epoch cfg c r.2 := by
  unfold copyWroteConn at hstep
  generalize hverdict : c.verdict = verdict at h
  split at hstep
  · next copies hstage =>
    rw [hstage] at h
    split at hstep
    · cases hstep
    · next left expiry hside =>
      obtain ⟨-, rfl⟩ := (Option.ite_none_right_eq_some.mp hstep).imp_right Option.some.inj
      cases h with
      | masking h =>
        cases up with
        | true =>
          rw [show copies.up = .writing left expiry from hside] at h
          refine ⟨.cast (.masking (h.move rfl rfl ?_ ?_)) hverdict rfl, rfl, rfl, rfl⟩
          · dsimp only [Masking.put]
            rw [if_pos rfl, left_copyWrote]
            exact written c.toHost left c.input.bytes n
          · rfl
        | false =>
          rw [show copies.down = .writing left expiry from hside] at h
          refine ⟨.cast (.masking (h.move rfl rfl ?_ ?_)) hverdict rfl, rfl, rfl, rfl⟩
          · rfl
          · dsimp only [Masking.put]
            rw [if_neg Bool.false_ne_true, left_copyWrote]
            exact written c.toPeer left c.host.bytes n
  · cases hstep

/-- What a timer leaves of it is known. -/
theorem follows_wakeConn {r : FrontResult} (h : Flows P mac secret epoch cfg c c.verdict c.stage)
    (hstep : wakeConn cfg now c shared = some r) : Follows P mac secret epoch cfg c r.2 := by
  unfold wakeConn at hstep
  split at hstep
  · next copies hstage =>
    split at hstep
    · cases hstep
    · split at hstep
      · obtain rfl := Option.some.inj hstep
        exact follows_end h (.inr (.inl ⟨_, rfl⟩))
      · obtain rfl := Option.some.inj hstep
        generalize hverdict : c.verdict = verdict at h
        rw [hstage] at h
        cases h with
        | masking h =>
          exact ⟨.masking (h.move rfl rfl rfl rfl), rfl, rfl, rfl⟩
  · cases hstep

/-- Whatever a connection is told. -/
theorem follows_stepConn {answer : FrontAnswer} {r : FrontResult}
    (h : Flows P mac secret epoch cfg c c.verdict c.stage)
    (hstep : stepConn P mac secret epoch cfg now c shared answer = some r) :
    Follows P mac secret epoch cfg c r.2 := by
  cases answer with
  | opened key payload =>
    obtain ⟨expiry, hstage, rfl⟩ := stepConn_opened hstep
    exact follows_openConn h hstage key payload
  | wrote n => exact follows_writeConn h hstep
  | handshake grants => exact follows_handshakeConn h hstep
  | connected =>
    obtain ⟨hello, expiry, hstage, rfl⟩ := stepConn_connected hstep
    generalize hverdict : c.verdict = verdict at h
    rw [hstage] at h
    cases h with
    | maskConnect _ _ h => exact ⟨.maskHello hello _ (h.move rfl rfl rfl rfl), rfl, rfl, rfl⟩
  | copyRead up => exact follows_copyReadConn h hstep
  | copyWrote up n => exact follows_copyWroteConn h hstep
  | woke => exact follows_wakeConn h hstep
  | expired =>
    obtain ⟨-, hstep⟩ := Option.ite_none_right_eq_some.mp hstep
    exact Option.some.inj hstep ▸ follows_end h (.inr (.inl ⟨_, rfl⟩))
  | fails e =>
    obtain ⟨-, hstep⟩ := Option.ite_none_left_eq_some.mp hstep
    exact Option.some.inj hstep ▸ follows_end h (.inr (.inl ⟨_, rfl⟩))
  | dropped =>
    obtain ⟨-, hstep⟩ := Option.ite_none_left_eq_some.mp hstep
    exact Option.some.inj hstep ▸ follows_end h (.inr (.inr rfl))

end TgWsProxy
