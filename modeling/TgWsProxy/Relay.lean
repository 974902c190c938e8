import TgWsProxy.Crypto
import TgWsProxy.WebSocket

/-!
# The relay loops

`copy_crypto`, the raw branch of `upload_ws` and `download_ws` of `proxy.rs`: each
read is decrypted under one stream, encrypted under another and passed on. The
loops are given as the data they pass on, in order; an error, a timeout or the end
of the other half cuts such a list after any number of pieces.
-/

namespace TgWsProxy

open TgWsProxy.Core

variable (P : Primitives)

/-- Transform a buffer in place: off one stream, onto the other. -/
def recrypt (decrypt encrypt : AesCtr) (data : Bytes) : Bytes × AesCtr × AesCtr :=
  let (data, decrypt) := decrypt.applyKeystream P data
  let (data, encrypt) := encrypt.applyKeystream P data
  (data, decrypt, encrypt)

/-- Read until the end of the stream and pass every read on, recrypted. -/
def relayReads (bufferSize : Nat) (reader : Source) (decrypt encrypt : AesCtr) : List Bytes :=
  if _h : (reader.read bufferSize).1 = [] then []
  else
    let (data, decrypt, encrypt) := recrypt P decrypt encrypt (reader.read bufferSize).1
    data :: relayReads bufferSize (reader.read bufferSize).2 decrypt encrypt
termination_by reader.bytes.length
decreasing_by exact reader.length_read_bytes_lt bufferSize _h

/-- `copy_crypto`: what it writes to the other socket. -/
def copyCrypto (bufferSize : Nat) (reader : Source) (decrypt encrypt : AesCtr) : List Bytes :=
  relayReads P bufferSize reader decrypt encrypt

/-- `upload_ws` with `packetized = false`: the data of its calls of `binary`. -/
def uploadWsRaw (bufferSize : Nat) (reader : Source) (decrypt encrypt : AesCtr) : List Bytes :=
  relayReads P bufferSize reader decrypt encrypt

/-- `download_ws`: what it writes to the client. -/
def downloadWs (bufferSize : Nat) (reader : WsReader) (decrypt encrypt : AesCtr) : List Bytes :=
  match _h : (reader.chunk bufferSize).result with
  | .error _ => []
  | .ok [] => []
  | .ok (b :: bs) =>
    let (data, decrypt, encrypt) := recrypt P decrypt encrypt (b :: bs)
    data :: downloadWs bufferSize (reader.chunk bufferSize).reader decrypt encrypt
termination_by reader.wire.bytes.length
decreasing_by exact reader.chunk_shortens bufferSize _h (by simp)

variable {P}

/-- `recrypt` is a pass of each cipher, and both advance. -/
theorem recrypt_eq (decrypt encrypt : AesCtr) (data : Bytes) :
    recrypt P decrypt encrypt data = (encrypt.output P (decrypt.output P data),
      decrypt.advance data.length, encrypt.advance data.length) := by
  simp [recrypt, AesCtr.output, AesCtr.advance, AesCtr.applyKeystream]

/-- The loop passes on the whole stream, recrypted, however the reads were cut. -/
theorem flatten_relayReads {bufferSize : Nat} (hb : 0 < bufferSize) (reader : Source)
    (decrypt encrypt : AesCtr) :
    (relayReads P bufferSize reader decrypt encrypt).flatten =
      encrypt.output P (decrypt.output P reader.bytes) := by
  fun_induction relayReads P bufferSize reader decrypt encrypt with
  | case1 reader decrypt encrypt h =>
    rw [Source.read_eq_nil_iff _ hb] at h
    rw [h]
    rfl
  | case2 reader decrypt encrypt h data decrypt' encrypt' heq ih =>
    rw [recrypt_eq, Prod.mk.injEq, Prod.mk.injEq] at heq
    obtain ⟨rfl, rfl, rfl⟩ := heq
    rw [List.flatten_cons, ih, ← reader.read_append bufferSize, AesCtr.output_append,
      AesCtr.output_append, AesCtr.length_output]

/-- Every piece is the size of a read. -/
theorem length_of_mem_relayReads {bufferSize : Nat} {reader : Source} {decrypt encrypt : AesCtr}
    {data : Bytes} (h : data ∈ relayReads P bufferSize reader decrypt encrypt) :
    data.length ≤ bufferSize := by
  fun_induction relayReads P bufferSize reader decrypt encrypt with
  | case1 => simp at h
  | case2 reader decrypt encrypt hne data' decrypt' encrypt' heq ih =>
    rcases List.mem_cons.mp h with rfl | h
    · rw [recrypt_eq, Prod.mk.injEq] at heq
      rw [← heq.1, AesCtr.length_output, AesCtr.length_output]
      exact reader.length_read_le bufferSize
    · exact ih h

/-- A served stream is passed on as the recrypted message data. -/
theorem flatten_downloadWs {bufferSize : Nat} (hb : 0 < bufferSize) {reader : WsReader}
    {body : Bytes} {frames : List ServerFrame} {tail : Bytes}
    (h : Serving reader body frames tail) (decrypt encrypt : AesCtr) :
    (downloadWs P bufferSize reader decrypt encrypt).flatten =
      encrypt.output P (decrypt.output P (body ++ framesData frames)) := by
  fun_induction downloadWs P bufferSize reader decrypt encrypt generalizing body frames with
  | case1 reader decrypt encrypt e he =>
    rcases h.chunk hb with ⟨_, _, _, hres, _⟩ | ⟨hnil, _⟩
    · rw [he] at hres
      cases hres
    · rw [hnil]
      rfl
  | case2 reader decrypt encrypt he =>
    rcases h.chunk hb with ⟨data, _, _, hres, hne, _⟩ | ⟨hnil, _⟩
    · rw [he] at hres
      exact absurd (Except.ok.inj hres).symm hne
    · rw [hnil]
      rfl
  | case3 reader decrypt encrypt b bs he data decrypt' encrypt' heq ih =>
    rcases h.chunk hb with ⟨data', body', frames', hres, _, hserving, happ⟩ | ⟨_, hnil⟩
    · rw [he] at hres
      obtain rfl := Except.ok.inj hres
      rw [recrypt_eq, Prod.mk.injEq, Prod.mk.injEq] at heq
      obtain ⟨rfl, rfl, rfl⟩ := heq
      rw [List.flatten_cons, ih hserving, ← happ, decrypt.output_append (b :: bs),
        encrypt.output_append, AesCtr.length_output]
    · exact absurd (hnil _ he) (by simp)

/-! ## What the two peers recover -/

variable (P) in
/-- What Telegram decrypts behind the relay handshake. -/
def telegramPlain (relay received : Bytes) : Bytes :=
  ((telegramReceive relay).output P received).drop 64

/-- The pieces recover to the plaintext, and to a prefix of it wherever they are cut. -/
def Delivers (recover : Bytes → Bytes) (pieces : List Bytes) (plain : Bytes) : Prop :=
  recover pieces.flatten = plain ∧
    ∀ n, recover (pieces.take n).flatten = plain.take (pieces.take n).flatten.length

/-- Pieces that join to a plaintext under one stream deliver it to a reader of that stream. -/
theorem delivers_of_flatten {recover : Bytes → Bytes} {pieces : List Bytes} {plain : Bytes}
    {c : AesCtr} (hrecover : ∀ received, recover received = c.output P received)
    (hpieces : pieces.flatten = c.output P plain) : Delivers recover pieces plain := by
  refine ⟨by rw [hrecover, hpieces, AesCtr.output_output], fun n => ?_⟩
  have hcut : (pieces.take n).flatten = pieces.flatten.take (pieces.take n).flatten.length := by
    conv_rhs => rw [← List.take_append_drop n pieces, List.flatten_append]
    rw [List.take_append_drop, List.take_left' rfl]
  conv_lhs => rw [hcut, hpieces]
  rw [hrecover, AesCtr.take_output, AesCtr.output_output]

/-- Behind a 64-byte handshake Telegram's stream continues at position 64. -/
theorem telegramPlain_append {relay : Bytes} (hr : relay.length = 64) (received : Bytes) :
    telegramPlain P relay (relay ++ received) =
      ((telegramReceive relay).advance 64).output P received := by
  rw [telegramPlain, AesCtr.output_append, hr, List.drop_left' (by rw [AesCtr.length_output, hr])]

/-- The context of a connection holds the four streams of its peers. -/
theorem buildContext_eq (secret : Block 16) (handshake : Block 64) (dcIndex : Int16)
    (protocol : Protocol) (relay : Bytes) :
    buildContext P ⟨dcIndex, protocol, slice handshake.val 8 56⟩ secret relay =
      ⟨(clientSend P secret handshake.val).advance 64, clientReceive P secret handshake.val,
        (telegramReceive relay).advance 64, telegramSend relay⟩ := by
  simp only [buildContext, take_prekeyIv, drop_prekeyIv]
  rfl

/-- Reads of the sender's stream are passed on under the receiver's. -/
theorem relayReads_delivers {bufferSize : Nat} (hb : 0 < bufferSize) {recover : Bytes → Bytes}
    {receiver : AesCtr} (hrecover : ∀ received, recover received = receiver.output P received)
    (sender : AesCtr) (plain : Bytes) (grants : List Nat) :
    Delivers recover
      (relayReads P bufferSize ⟨sender.output P plain, grants⟩ sender receiver) plain := by
  refine delivers_of_flatten hrecover ?_
  rw [flatten_relayReads hb, AesCtr.output_output]

/-- The binary frames of a writer's calls. -/
def binaries (calls : List WriterCall) : List Bytes :=
  calls.filterMap fun
    | .binary data _ => some data
    | .control .. => none

/-- The data of the binary frames is that of the binary calls. -/
theorem binaryData_frames {calls : List WriterCall} (hc : ∀ c ∈ calls, c.Allowed) :
    binaryData (calls.map WriterCall.frame) = (binaries calls).flatten := by
  induction calls with
  | nil => rfl
  | cons c calls ih =>
    have hrest := ih fun c h => hc c (List.mem_cons_of_mem _ h)
    cases c with
    | binary data key =>
      simpa [binaryData, binaries, WriterCall.frame] using hrest
    | control opcode data key =>
      have hcontrol : opcode ≠ 2 := by
        rcases (hc _ (List.mem_cons_self ..)).1 with rfl | rfl <;> decide
      simpa [binaryData, binaries, WriterCall.frame, hcontrol] using hrest

/-- The binary frames reach the server whole and in order, between control frames. -/
theorem telegramFrames_binaries {calls : List WriterCall}
    (hbinary : ∀ data ∈ binaries calls, data.length ≤ maxMessage)
    (hcontrol : ∀ opcode data key, WriterCall.control opcode data key ∈ calls →
      ∃ reader room, (opcode, data) ∈ (WsReader.chunk reader room).controls) :
    ∃ w frames, calls.foldlM WsWriter.call {} = .ok w ∧ telegramFrames w.wire = .ok frames ∧
      binaryData frames = (binaries calls).flatten := by
  have hallowed : ∀ c ∈ calls, c.Allowed := by
    intro c hc
    cases c with
    | binary data key =>
      exact hbinary data (List.mem_filterMap.mpr ⟨_, hc, rfl⟩)
    | control opcode data key =>
      obtain ⟨reader, room, h⟩ := hcontrol opcode data key hc
      exact reader.chunk_controls room h key
  obtain ⟨w, hw, _, hwire⟩ := WsWriter.calls_allowed hallowed (w := {}) rfl
  have hwire : w.wire = calls.flatMap WriterCall.bytes := hwire
  exact ⟨w, calls.map WriterCall.frame, hw, hwire ▸ telegramFrames_calls hallowed,
    binaryData_frames hallowed⟩

variable (P) in
/-- Both routes carry both directions unchanged between a client and Telegram. -/
structure Transparent (bufferSize : Nat) (secret : Block 16) (handshake relay : Bytes)
    (context : CryptoContext) : Prop where
  /-- `copy_crypto` from client to Telegram, behind the relay handshake. -/
  tcpUpload : ∀ plain grants,
    Delivers (fun received => telegramPlain P relay (relay ++ received))
      (copyCrypto P bufferSize
        ⟨((clientSend P secret handshake).advance 64).output P plain, grants⟩
        context.clientDecrypt context.upstreamEncrypt) plain
  /-- `copy_crypto` from Telegram to client. -/
  tcpDownload : ∀ plain grants,
    Delivers ((clientReceive P secret handshake).output P)
      (copyCrypto P bufferSize ⟨(telegramSend relay).output P plain, grants⟩
        context.upstreamDecrypt context.clientEncrypt) plain
  /-- `upload_ws`, in binary frames between any control frames the reader asks for. -/
  wsUpload : ∀ plain grants pieces, pieces <+: uploadWsRaw P bufferSize
      ⟨((clientSend P secret handshake).advance 64).output P plain, grants⟩
      context.clientDecrypt context.upstreamEncrypt →
    ∀ calls : List WriterCall, binaries calls = relay :: pieces →
      (∀ opcode data key, WriterCall.control opcode data key ∈ calls →
        ∃ reader room, (opcode, data) ∈ (WsReader.chunk reader room).controls) →
      ∃ w frames, calls.foldlM WsWriter.call {} = .ok w ∧ telegramFrames w.wire = .ok frames ∧
        telegramPlain P relay (binaryData frames) = plain.take pieces.flatten.length
  /-- The upload's pieces together carry everything. -/
  wsUploadAll : ∀ plain grants, (uploadWsRaw P bufferSize
      ⟨((clientSend P secret handshake).advance 64).output P plain, grants⟩
      context.clientDecrypt context.upstreamEncrypt).flatten.length = plain.length
  /-- `download_ws`, from any framing of Telegram's messages. -/
  wsDownload : ∀ plain frames tail grants,
    framesData frames = (telegramSend relay).output P plain → FramesFit false 0 frames →
    Closing tail →
      Delivers ((clientReceive P secret handshake).output P)
        (downloadWs P bufferSize { wire := ⟨encodeFrames false frames ++ tail, grants⟩ }
          context.upstreamDecrypt context.clientEncrypt) plain

/-- A context built from two handshakes relays transparently. -/
theorem buildContext_transparent {bufferSize : Nat}
    (hbuffer : 4096 ≤ bufferSize ∧ bufferSize ≤ 262144) (secret : Block 16)
    (handshake : Block 64) (dcIndex : Int16) (protocol : Protocol) {relay : Bytes}
    (hr : relay.length = 64) :
    Transparent P bufferSize secret handshake.val relay
      (buildContext P ⟨dcIndex, protocol, slice handshake.val 8 56⟩ secret relay) := by
  have hb : 0 < bufferSize := by omega
  rw [buildContext_eq]
  have hup (plain : Bytes) (grants : List Nat) := relayReads_delivers hb
    (telegramPlain_append (P := P) hr) ((clientSend P secret handshake.val).advance 64)
    plain grants
  constructor
  case tcpUpload => exact hup
  case tcpDownload => exact fun plain grants => relayReads_delivers hb (fun _ => rfl) _ plain grants
  case wsUpload =>
    intro plain grants pieces hpieces calls hcalls hcontrol
    rw [List.prefix_iff_eq_take] at hpieces
    generalize pieces.length = n at hpieces
    subst hpieces
    have hbinary : ∀ data ∈ binaries calls, data.length ≤ maxMessage := by
      intro data hdata
      rcases List.mem_cons.mp (hcalls ▸ hdata) with rfl | hdata
      · rw [hr]
        decide
      · have hle := length_of_mem_relayReads (List.mem_of_mem_take hdata)
        exact Nat.le_trans hle (Nat.le_trans hbuffer.2 (by decide))
    obtain ⟨w, frames, hw, hframes, hdata⟩ := telegramFrames_binaries hbinary hcontrol
    refine ⟨w, frames, hw, hframes, ?_⟩
    rw [hdata, hcalls, List.flatten_cons]
    exact (hup plain grants).2 n
  case wsUploadAll =>
    intro plain grants
    rw [uploadWsRaw, flatten_relayReads hb]
    simp only [AesCtr.length_output]
  case wsDownload =>
    intro plain frames tail grants hdata hfit hclosing
    refine delivers_of_flatten (fun _ => rfl) ?_
    have hserving : Serving { wire := ⟨encodeFrames false frames ++ tail, grants⟩ } [] frames
        tail := ⟨rfl, rfl, hfit, hclosing⟩
    rw [flatten_downloadWs hb hserving, List.nil_append, hdata, AesCtr.output_output]

variable (P) in
/-- Both handshakes are read as they were meant, and every byte behind them is relayed. -/
theorem relay_transparent (secret : Block 16) (protocol : Protocol) (dcIndex relayDc : Int16)
    (fill : Block 64) {draws : List (Block 64)} {relay : Bytes}
    (hrelay : generateRelayHandshake P protocol relayDc draws = some relay) {bufferSize : Nat}
    (hbuffer : 4096 ≤ bufferSize ∧ bufferSize ≤ 262144) :
    ∃ client,
      parseClientHandshake P (clientHandshake P secret protocol dcIndex fill) secret =
        .ok client ∧
      client.protocol = protocol ∧ client.dcIndex = dcIndex ∧
      relay.length = 64 ∧ reserved relay = false ∧
      slice ((telegramReceive relay).output P relay) 56 60 = protocol.tag ∧
      fromLeBytes (slice ((telegramReceive relay).output P relay) 60 62) = relayDc ∧
      Transparent P bufferSize secret (clientHandshake P secret protocol dcIndex fill).val relay
        (buildContext P client secret relay) := by
  obtain ⟨draw, _, hdraw, rfl⟩ := generateRelayHandshake_eq P hrelay
  have hstream : telegramReceive (sealTail P (cipher (slice draw.val 8 40)
      (slice draw.val 40 56)) draw.val protocol relayDc) =
      cipher (slice draw.val 8 40) (slice draw.val 40 56) := by
    rw [telegramReceive, slice_sealTail _ _ _ _ (by decide), slice_sealTail _ _ _ _ (by decide)]
  refine ⟨_, parse_clientHandshake P secret protocol dcIndex fill, rfl, rfl, length_sealTail ..,
    ?_, ?_, ?_, buildContext_transparent hbuffer secret _ dcIndex protocol (length_sealTail ..)⟩
  · rw [← hdraw]
    exact reserved_congr (take_sealTail _ draw protocol relayDc (by decide))
  · rw [hstream]
    exact tag_open_sealTail _ draw protocol relayDc rfl
  · rw [hstream, AesCtr.output, dc_open_sealTail _ draw protocol relayDc rfl,
      fromLeBytes_toLeBytes]

/-- A media connection to DC 2 whose first relay draw is refused. -/
theorem relay_transparent_media :
    ∃ client, parseClientHandshake repeatingKey (clientHandshake repeatingKey
        ⟨List.replicate 16 7, rfl⟩ .paddedIntermediate (-2) ⟨List.replicate 64 3, rfl⟩)
        ⟨List.replicate 16 7, rfl⟩ = .ok client ∧ client.dcIndex = -2 ∧
      Transparent repeatingKey 16384 ⟨List.replicate 16 7, rfl⟩
        (clientHandshake repeatingKey ⟨List.replicate 16 7, rfl⟩ .paddedIntermediate (-2)
          ⟨List.replicate 64 3, rfl⟩).val
        (List.replicate 56 1 ++ [0xdc, 0xdc, 0xdc, 0xdc, 0xff, 0xfe, 0, 0])
        (buildContext repeatingKey client ⟨List.replicate 16 7, rfl⟩
          (List.replicate 56 1 ++ [0xdc, 0xdc, 0xdc, 0xdc, 0xff, 0xfe, 0, 0])) := by
  have hrelay : generateRelayHandshake repeatingKey .paddedIntermediate (-2)
      [⟨List.replicate 64 0xef, rfl⟩, ⟨List.replicate 64 1, rfl⟩] =
        some (List.replicate 56 1 ++ [0xdc, 0xdc, 0xdc, 0xdc, 0xff, 0xfe, 0, 0]) := by
    decide
  obtain ⟨client, hparse, _, hdc, _, _, _, _, htransparent⟩ :=
    relay_transparent repeatingKey ⟨List.replicate 16 7, rfl⟩ .paddedIntermediate (-2) (-2)
      ⟨List.replicate 64 3, rfl⟩ hrelay ⟨show 4096 ≤ 16384 by decide, by decide⟩
  exact ⟨client, hparse, hdc, htransparent⟩

end TgWsProxy
