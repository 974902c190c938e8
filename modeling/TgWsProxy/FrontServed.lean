import TgWsProxy.FrontSafety

/-!
# A client that is served

The ServerHello of a ClientHello that authenticates is one that its peer accepts, and a client that
has the secret comes as far as `connect`.
-/

namespace TgWsProxy

open TgWsProxy.Core
open TgWsProxy.AsyncRead

variable {cfg : Config} {P : Primitives} {mac : Mac} {secret : Block 16} {epoch : Nat}
  {c : FrontConn} {now : Nat} {shared : FrontShared} {s : Front}

/-! ## The ServerHello -/

/-- What stands before the random of a ServerHello. -/
def serverHelloHead : Bytes := [0x16, 3, 3, 0, 0x7a, 2, 0, 0, 0x76, 3, 3]

/-- Its cipher suite, and the extension of its key up to the key. -/
def serverHelloSuite : Bytes := [0x13, 1, 0, 0, 0x2e, 0, 0x33, 0, 0x24, 0, 0x1d, 0, 0x20]

/-- The message behind the random. -/
def serverHelloTail (client : ClientHello) (key : Block 32) : Bytes :=
  [32] ++ (client.sessionId ++ (serverHelloSuite ++ (key.val ++ [0, 0x2b, 0, 2, 3, 4])))

private theorem length_serverHelloTail {client : ClientHello} (h : client.sessionId.length = 32)
    (key : Block 32) : (serverHelloTail client key).length = 84 := by
  simp [serverHelloTail, serverHelloSuite, h, key.property]

/-- The records behind that message. -/
def serverHelloRest (payload : Bytes) : Bytes := ccsFrame ++ tlsRecord payload

private theorem blankServerHello_eq (client : ClientHello) (key : Block 32) (payload : Bytes) :
    blankServerHello client key payload = serverHelloHead ++
      (List.replicate 32 0 ++ (serverHelloTail client key ++ serverHelloRest payload)) := by
  simp only [blankServerHello, serverHelloTail, serverHelloRest, tlsRecord, List.append_assoc]
  rfl

/-- A ServerHello by its parts: the head, the MAC as its random, and what is fixed behind it. -/
theorem buildServerHello_eq (client : ClientHello) (key : Block 32) (payload : Bytes) :
    buildServerHello mac secret client key payload = serverHelloHead ++
      ((mac secret.val (client.clientRandom ++ blankServerHello client key payload)).val ++
        (serverHelloTail client key ++ serverHelloRest payload)) := by
  rw [buildServerHello]
  generalize (mac secret.val (client.clientRandom ++ blankServerHello client key payload)).val =
    random
  rw [blankServerHello_eq, List.append_assoc]
  rfl

/-- A piece between two others. -/
theorem slice_between (front piece rest : Bytes) {i j : Nat} (hi : front.length = i)
    (hj : front.length + piece.length = j) : slice (front ++ (piece ++ rest)) i j = piece := by
  subst hi hj
  rw [slice, Nat.add_sub_cancel_left, List.drop_left, List.take_left]

private theorem length_sessionId {data : Bytes} {now : Nat} {client : ClientHello}
    (h : authenticate mac data secret now = .ok client) : client.sessionId.length = 32 := by
  unfold authenticate at h
  split at h
  · cases h
  · split at h
    · cases h
    · split at h
      · cases h
      · cases h
        dsimp only
        split
        · next hlong =>
          rw [slice, List.length_take, List.length_drop]
          omega
        · exact List.length_replicate

/-- A ServerHello that a peer with the secret accepts: a handshake record that one message fills,
then one ChangeCipherSpec and one application record, which read as the payload. Its random is the
MAC that the peer computes of the rest, and it has the session of the ClientHello and the key. -/
structure IsServerHello (mac : Mac) (secret : Block 16) (client : ClientHello) (key : Block 32)
    (payload response : Bytes) : Prop where
  layout : ∃ message, response = [0x16, 3, 3] ++ toBe 2 (message.length + 4) ++
    (2 :: toBe 3 message.length ++ message) ++ (ccsFrame ++ tlsRecord payload)
  records : Records (ccsFrame ++ tlsRecord payload) payload (.ok ())
  random : slice response 11 43 = (mac secret.val (client.clientRandom ++
    (response.take 11 ++ List.replicate 32 0 ++ response.drop 43))).val
  session : slice response 44 76 = client.sessionId
  key : slice response 89 121 = key.val

/-- The answer to a ClientHello that is authentic. -/
theorem serverHelloVerified {data : Bytes} {now : Nat} {client : ClientHello}
    (h : authenticate mac data secret now = .ok client) (key : Block 32) {payload : Bytes}
    (hpayload : payload.length ≤ tlsAppDataMax) :
    IsServerHello mac secret client key payload
      (buildServerHello mac secret client key payload) := by
  have hsession := length_sessionId h
  have hkey := key.property
  have hblank := blankServerHello_eq client key payload
  rw [buildServerHello_eq]
  generalize hdigest : mac secret.val (client.clientRandom ++ blankServerHello client key payload) =
    digest
  have hrandom := digest.property
  constructor
  case layout =>
    have hlength : ([3, 3] ++ (digest.val ++ serverHelloTail client key)).length = 118 := by
      rw [List.length_append, List.length_append, hrandom, length_serverHelloTail hsession]
      rfl
    refine ⟨[3, 3] ++ (digest.val ++ serverHelloTail client key), ?_⟩
    rw [hlength]
    simp only [List.append_assoc, List.cons_append, List.nil_append]
    rfl
  case records =>
    have hrecords := records_encode (List.forall_mem_singleton.mpr hpayload)
    rw [encodeRecords, List.map_singleton, List.flatten_singleton, List.flatten_singleton]
      at hrecords
    exact .changeCipherSpec hrecords
  case random =>
    have hdrop : (serverHelloHead ++ (digest.val ++
        (serverHelloTail client key ++ serverHelloRest payload))).drop 43 =
          serverHelloTail client key ++ serverHelloRest payload := by
      rw [← List.append_assoc]
      exact List.drop_left' (by rw [List.length_append, hrandom]; rfl)
    rw [slice_between _ _ _ (show serverHelloHead.length = 11 from rfl) (by rw [hrandom]; rfl),
      hdrop, List.append_assoc]
    exact congrArg Subtype.val (hdigest.symm.trans (hblank ▸ rfl))
  case session =>
    have hlayout : serverHelloHead ++ (digest.val ++ (serverHelloTail client key ++
        serverHelloRest payload)) = (serverHelloHead ++ (digest.val ++ [32])) ++
          (client.sessionId ++ (serverHelloSuite ++ (key.val ++ ([0, 0x2b, 0, 2, 3, 4] ++
            serverHelloRest payload)))) := by
      simp only [serverHelloTail, List.append_assoc]
    rw [hlayout]
    exact slice_between _ _ _ (by simp [serverHelloHead, hrandom])
      (by simp [serverHelloHead, hrandom, hsession])
  case key =>
    have hlayout : serverHelloHead ++ (digest.val ++ (serverHelloTail client key ++
        serverHelloRest payload)) = (serverHelloHead ++ (digest.val ++ ([32] ++ (client.sessionId ++
          serverHelloSuite)))) ++
            (key.val ++ ([0, 0x2b, 0, 2, 3, 4] ++ serverHelloRest payload)) := by
      simp only [serverHelloTail, List.append_assoc]
    rw [hlayout]
    exact slice_between _ _ _ (by simp [serverHelloHead, serverHelloSuite, hrandom, hsession])
      (by simp [serverHelloHead, serverHelloSuite, hrandom, hsession, hkey])

/-- The answer to a ClientHello of the all-zero MAC. -/
theorem serverHelloVerified_zero :
    IsServerHello zeroMac ⟨List.replicate 16 1, rfl⟩
      ⟨helloRandom (zeroHello 0), List.replicate 32 0⟩ ⟨List.replicate 32 9, rfl⟩ [1, 2]
      (buildServerHello zeroMac ⟨List.replicate 16 1, rfl⟩
        ⟨helloRandom (zeroHello 0), List.replicate 32 0⟩ ⟨List.replicate 32 9, rfl⟩ [1, 2]) := by
  have hauth : authenticate zeroMac (zeroHello 0) ⟨List.replicate 16 1, rfl⟩ 5 =
      .ok ⟨helloRandom (zeroHello 0), List.replicate 32 0⟩ := by decide
  exact serverHelloVerified hauth _ (by decide)

/-! ## A client that has the secret -/

private theorem firstByte_of_announced {input : Stream} {header rest : Bytes} {b : UInt8}
    (hheader : Announced cfg header) (h : bytes input = header ++ b :: rest) :
    ∃ input', ProxyHeader.firstByte cfg.proxyProtocol input = .ok (b, input') ∧
      bytes input' = rest := by
  unfold ProxyHeader.firstByte
  cases hproxy : cfg.proxyProtocol with
  | false =>
    rw [hheader.isNone hproxy] at h
    obtain ⟨input', hread, hrest, -⟩ := readU8_of_cons h
    exact ⟨input', hread, hrest⟩
  | true =>
    obtain ⟨hok, hbytes⟩ := ProxyHeader.consumeProxy_eq_ok.mpr ⟨header, hheader.isHeader hproxy, h⟩
    obtain ⟨input', hread, hrest, -⟩ := readU8_of_cons hbytes
    refine ⟨input', ?_, hrest⟩
    rw [if_pos rfl]
    generalize ProxyHeader.consumeProxy input = out at hok hread
    obtain ⟨result, reader⟩ := out
    obtain rfl : result = .ok () := hok
    exact hread

/-- A record with its length in its header is read whole. -/
theorem opening_of_record {input : Stream} {header record wire : Bytes}
    (hheader : Announced cfg header) (hrecord : IsHelloRecord cfg record)
    (hlength : ofBe (slice record 3 5) + 5 = record.length)
    (h : bytes input = header ++ (record ++ wire)) :
    ∃ input', opening cfg input = .ok ((0x16, some record), input') ∧ bytes input' = wire := by
  have hlong := hrecord.long
  have hshort := hrecord.short
  -- the record in its parts
  obtain ⟨front, body, hparts, hfront⟩ : ∃ front body : Bytes, record = 0x16 :: (front ++ body) ∧
      front.length = 4 := by
    obtain ⟨tail, rfl⟩ := List.head?_eq_some_iff.mp hrecord.first
    rw [List.length_cons] at hlong
    exact ⟨tail.take 4, tail.drop 4, by rw [List.take_append_drop],
      List.length_take_of_le (by omega)⟩
  have hannounced : ofBe (slice front 2 4) = body.length := by
    have hslice : slice record 3 5 = slice front 2 4 := by
      rw [hparts]
      simp only [slice, List.drop_succ_cons]
      rw [List.drop_append_of_le_length (by omega), List.take_append_of_le_length (by simp; omega)]
    rw [hslice, hparts, List.length_cons, List.length_append, hfront] at hlength
    omega
  have hbytes : bytes input = header ++ 0x16 :: (front ++ (body ++ wire)) := by
    rw [h, hparts]
    simp
  obtain ⟨input₁, hfirst, hrest₁⟩ := firstByte_of_announced hheader hbytes
  obtain ⟨input₂, hread₂, hrest₂, -⟩ := readExact_of_append hrest₁
  obtain ⟨input₃, hread₃, hrest₃, -⟩ := readExact_of_append hrest₂
  refine ⟨input₃, ?_, hrest₃⟩
  rw [hfront] at hread₂
  rw [hparts, List.length_cons, List.length_append, hfront] at hlong hshort
  have hbounds : ¬(body.length < 38 ∨ 16384 < body.length) := by omega
  unfold opening
  rw [hfirst]
  simp only [Except.bind, bind, hrecord.domain, ne_eq, not_false_eq_true, and_self, if_true, hread₂,
    hannounced, hbounds, if_false, hread₃]
  rw [hparts]
  rfl

/-- A record that verifies is answered. -/
theorem openConn_hello {b : UInt8} {record : Bytes} {input : Stream} {hello : ClientHello}
    (hopen : opening cfg ⟨c.input, none⟩ = .ok ((b, some record), input))
    (hverify : (verifyAndCache mac secret shared.cache now (wallSeconds epoch now) record).1 =
      .ok hello) (key : Block 32) (payload : Bytes) :
    ∃ r, openConn mac secret epoch cfg now c shared key payload = r ∧ r.2.toPeer = c.toPeer ∧
      r.2.input = input.source ∧ r.2.stage =
        .greeting (buildServerHello mac secret hello key payload) (now + seconds 10) := by
  generalize hout : verifyAndCache mac secret shared.cache now (wallSeconds epoch now) record = out
    at hverify
  obtain ⟨result, cache⟩ := out
  obtain rfl : result = .ok hello := hverify
  refine ⟨_, rfl, ?_⟩
  simp only [openConn, hopen, hout, and_self]

/-- The greeting in one write. -/
theorem writeConn_greeting {left : Bytes} {expiry : Nat} (hstage : c.stage = .greeting left expiry)
    (hleft : left ≠ []) : ∃ r, writeConn now c shared left.length = some r ∧
      r.2.toPeer = c.toPeer ++ left ∧ r.2.input = c.input ∧ r.2.stage = .tlsHandshake expiry := by
  have hpos := List.length_pos_iff.mpr hleft
  simp [writeConn, hstage, hpos, FrontConn.emit]

/-- A handshake under the secret is read through its records. -/
theorem handshakeConn_tls {expiry : Nat} (hstage : c.stage = .tlsHandshake expiry)
    {block : Block 64} {data : Bytes} {ending : Except IoError Unit} {parsed : ClientHandshake}
    (hwire : Records c.input.bytes (block.val ++ data) ending)
    (hparsed : parseClientHandshake P block secret = .ok parsed) {dc : Int} {media test : Bool}
    (hdc : normalizeDc parsed.dcIndex.toInt cfg.forceTestDc = .ok (dc, media, test))
    (grants : List (Option Nat)) :
    ∃ r, handshakeConn P secret cfg c shared grants = some r ∧ r.2.toPeer = c.toPeer ∧
      r.2.stage = .connecting parsed dc media test := by
  have hfills := handshake_fills hwire grants
  obtain ⟨stream, hread, -⟩ := hfills.full (by rw [List.length_append, block.property]; omega)
  rw [List.take_append_of_le_length (Nat.le_of_eq block.property.symm),
    List.take_of_length_le (Nat.le_of_eq block.property)] at hread
  have hstep : handshakeConn P secret cfg c shared grants = some (handshakeRead P secret cfg
      { c with input := { c.input with bytes := stream.inner.incoming } } shared
        (.ok block.val)) := by
    unfold handshakeConn
    rw [hstage]
    exact congrArg (Option.map _) hread
  refine ⟨_, hstep, ?_⟩
  rw [handshakeRead, dif_pos block.property]
  simp only [serveHandshake, Subtype.coe_eta, hparsed, hdc, and_self]

private theorem run_conn {i : Nat} {answer : FrontAnswer} {answers : List FrontAction}
    {c : FrontConn}
    {r : FrontResult} (hc : s.conns[i]? = some c)
    (hstep : stepConn P mac secret epoch s.config s.clock c s.shared answer = some r) :
    (frontSystem P mac secret epoch).run s (.conn i answer :: answers) =
      (frontSystem P mac secret epoch).run
        { s with shared := r.1, conns := s.conns.set i r.2 } answers ∧
      (s.conns.set i r.2)[i]? = some r.2 := by
  refine ⟨?_, List.getElem?_set_self (List.getElem?_eq_some_iff.mp hc).1⟩
  have hfront : Front.step P mac secret epoch s (.conn i answer) =
      some { s with shared := r.1, conns := s.conns.set i r.2 } := by
    rw [Front.step, hc, Option.bind_some, hstep]
    rfl
  rw [System.run_cons]
  exact congrArg (·.bind fun t => (frontSystem P mac secret epoch).run t answers) hfront

/-- A client that has the secret, and whose ClientHello is fresh and new, gets its ServerHello, and
`connect` is called for its DC; however its handshake is split into records and arrives. -/
theorem clientServed {i : Nat} {c : FrontConn} {expiry : Nat} (hc : s.conns[i]? = some c)
    (hstage : c.stage = .opening expiry) {header record wire data : Bytes}
    {ending : Except IoError Unit} {hello : ClientHello} (hheader : Announced s.config header)
    (hrecord : IsHelloRecord s.config record)
    (hlength : ofBe (slice record 3 5) + 5 = record.length)
    (hverify : (verifyAndCache mac secret s.shared.cache s.clock (wallSeconds epoch s.clock)
      record).1 = .ok hello)
    {protocol : Protocol} {dcIndex : Int16} {fill : Block 64}
    (hwire : Records wire ((clientHandshake P secret protocol dcIndex fill).val ++ data) ending)
    (hinput : c.input.bytes = header ++ (record ++ wire)) {dc : Int} {media test : Bool}
    (hdc : normalizeDc dcIndex.toInt s.config.forceTestDc = .ok (dc, media, test)) (key : Block 32)
    (payload : Bytes) (grants : List (Option Nat)) :
    ∃ t c' parsed, (frontSystem P mac secret epoch).run s
        [.conn i (.opened key payload),
          .conn i (.wrote (buildServerHello mac secret hello key payload).length),
          .conn i (.handshake grants)] = some t ∧
      t.conns[i]? = some c' ∧
      c'.toPeer = c.toPeer ++ buildServerHello mac secret hello key payload ∧
      c'.stage = .connecting parsed dc media test ∧ parsed.protocol = protocol ∧
      parsed.dcIndex = dcIndex := by
  have hbytes : bytes (⟨c.input, none⟩ : Stream) = header ++ (record ++ wire) := hinput
  obtain ⟨input, hopen, hrest⟩ := opening_of_record hheader hrecord hlength hbytes
  obtain ⟨r₁, hopened, hpeer₁, hinput₁, hstage₁⟩ := openConn_hello hopen hverify key payload
  have hfirst : stepConn P mac secret epoch s.config s.clock c s.shared (.opened key payload) =
      some r₁ := by
    rw [stepConn, hstage, ← hopened]
  obtain ⟨hrun₁, hc₁⟩ := run_conn hc hfirst
  let s₁ : Front := { s with shared := r₁.1, conns := s.conns.set i r₁.2 }
  obtain ⟨r₂, hsecond, hpeer₂, hinput₂, hstage₂⟩ : ∃ r,
      stepConn P mac secret epoch s₁.config s₁.clock r₁.2 s₁.shared
        (.wrote (buildServerHello mac secret hello key payload).length) = some r ∧
      r.2.toPeer = r₁.2.toPeer ++ buildServerHello mac secret hello key payload ∧
      r.2.input = r₁.2.input ∧ r.2.stage = .tlsHandshake (s.clock + seconds 10) :=
    writeConn_greeting hstage₁ (List.cons_ne_nil _ _)
  obtain ⟨hrun₂, hc₂⟩ := run_conn hc₁ hsecond
  let s₂ : Front := { s with shared := r₂.1, conns := s₁.conns.set i r₂.2 }
  have hwire₂ : Records r₂.2.input.bytes
      ((clientHandshake P secret protocol dcIndex fill).val ++ data) ending := by
    rw [hinput₂, hinput₁, show input.source.bytes = wire from hrest]
    exact hwire
  obtain ⟨r₃, hthird, hpeer₃, hstage₃⟩ : ∃ r,
      stepConn P mac secret epoch s₂.config s₂.clock r₂.2 s₂.shared (.handshake grants) = some r ∧
      r.2.toPeer = r₂.2.toPeer ∧ r.2.stage = .connecting _ dc media test :=
    handshakeConn_tls hstage₂ hwire₂ (parse_clientHandshake P secret protocol dcIndex fill) hdc
      grants
  obtain ⟨hrun₃, hc₃⟩ := run_conn hc₂ hthird
  refine ⟨{ s with shared := r₃.1, conns := s₂.conns.set i r₃.2 }, r₃.2, _, ?_, hc₃, ?_, hstage₃,
    rfl, rfl⟩
  · rw [hrun₁, hrun₂, hrun₃, System.run_nil]
  · rw [hpeer₃, hpeer₂, hpeer₁]

/-- The handshake of a media client of DC 2. -/
def mediaHandshake : Block 64 :=
  clientHandshake repeatingKey ⟨List.replicate 16 1, rfl⟩ .paddedIntermediate (-2)
    ⟨List.replicate 64 3, rfl⟩

/-- A PROXY header. -/
def mediaHeader : Bytes :=
  encodeUtf8 (ProxyHeader.hostsText "4000") ++ ProxyHeader.crlf

/-- A proxy behind another one that has accepted its connection. -/
def mediaFront : Front where
  config := { posingConfig with proxyProtocol := true }
  conns := [.accepted 0
    ⟨mediaHeader ++ (zeroHello 0 ++ 0x17 :: 3 :: 3 :: 0 :: 64 :: (mediaHandshake.val ++ [])), []⟩
    ⟨[], []⟩]

/-- The handshake is in one record, and arrives in two reads. -/
theorem clientServed_media :
    ∃ t c parsed, (frontSystem repeatingKey zeroMac ⟨List.replicate 16 1, rfl⟩ 0).run mediaFront
        [.conn 0 (.opened ⟨List.replicate 32 9, rfl⟩ [1, 2]), .conn 0 (.wrote 140),
          .conn 0 (.handshake [some 7, none])] = some t ∧
      t.conns[0]? = some c ∧ c.toPeer.length = 140 ∧
      c.stage = .connecting parsed 2 true false ∧ parsed.dcIndex = (-2 : Int16) := by
  have hheader : Announced mediaFront.config mediaHeader := by
    refine ⟨fun _ => ProxyHeader.isHeader_hosts (.inl ?_) (by decide) (by decide), fun h => ?_⟩
    · exact ⟨by decide, List.all_iff_forall_prop.mp (by decide), by decide⟩
    · cases h
  have hrecord : IsHelloRecord mediaFront.config (zeroHello 0) :=
    ⟨by decide, rfl, by decide, by decide⟩
  have hlength : ofBe (slice (zeroHello 0) 3 5) + 5 = (zeroHello 0).length := by decide
  have hverify : (verifyAndCache zeroMac ⟨List.replicate 16 1, rfl⟩ mediaFront.shared.cache
      mediaFront.clock (wallSeconds 0 mediaFront.clock) (zeroHello 0)).1 =
        .ok ⟨helloRandom (zeroHello 0), List.replicate 32 0⟩ := by decide
  have hwire : Records (0x17 :: 3 :: 3 :: 0 :: 64 :: (mediaHandshake.val ++ []))
      (mediaHandshake.val ++ []) (.ok ()) :=
    .application mediaHandshake.property (by rw [mediaHandshake.property]; decide) .ended
  have hdc : normalizeDc (-2 : Int16).toInt mediaFront.config.forceTestDc = .ok (2, true, false) :=
    rfl
  obtain ⟨t, c, parsed, hrun, hc, hpeer, hstage, -, hindex⟩ :=
    clientServed (s := mediaFront) (i := 0) rfl rfl hheader hrecord hlength hverify hwire rfl hdc
      ⟨List.replicate 32 9, rfl⟩ [1, 2] [some 7, none]
  exact ⟨t, c, parsed, hrun, hc, by rw [hpeer]; rfl, hstage, hindex⟩

end TgWsProxy
