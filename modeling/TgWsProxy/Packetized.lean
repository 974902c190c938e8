import TgWsProxy.Framing
import TgWsProxy.Relay

/-!
# Packetized upload

The packetized branch of `upload_ws`: a transport header is read and decrypted,
a binary frame of the whole packet's length is opened on the shared writer, and
the body is streamed into it. The writer is locked for one packet at a time, so
the replies of the download half land between the frames.
-/

namespace TgWsProxy

open TgWsProxy.Core

/-- A control frame that the download half sends in answer to one it has read. -/
structure Reply where
  opcode : UInt8
  data : Bytes
  key : Block 4
  legal : (WriterCall.control opcode data key).Allowed

/-- The reply as a call on the writer. -/
def Reply.call (reply : Reply) : WriterCall := .control reply.opcode reply.data reply.key

/-- What the upload meets when it locks the writer: the replies sent since it last
held it, and the random mask of its next frame. -/
structure Turn where
  replies : List Reply
  key : Block 4

/-- The writer as it is once locked. A refused reply has left it as it was. -/
def WsWriter.locked (w : WsWriter) (turn : Turn) : WsWriter :=
  turn.replies.foldl (fun w reply => (w.call reply.call).toOption.getD w) w

/-- The state of the upload half: its client, its two streams and the shared writer. -/
structure UploadHalf where
  reader : Source
  decrypt : AesCtr
  encrypt : AesCtr
  writer : WsWriter

variable (P : Primitives)

/-- Read and decrypt a transport header; nothing at the end of the stream. -/
def readHeader (protocol : Protocol) (reader : Source) (decrypt : AesCtr) :
    Except IoError (Option (Bytes × Source × AesCtr)) :=
  let (first, reader) := reader.read 1
  if first = [] then .ok none
  else
    let (first, decrypt) := decrypt.applyKeystream P first
    let headerLen := headerLen (first.headD 0) protocol
    if headerLen > 1 then do
      let (rest, reader) ← reader.readExact (headerLen - 1)
      let (rest, decrypt) := decrypt.applyKeystream P rest
      .ok (some (first ++ rest, reader, decrypt))
    else .ok (some (first, reader, decrypt))

/-- Stream the `remaining` bytes of a packet's body into the open frame. -/
def uploadBody (bufferSize remaining : Nat) (s : UploadHalf) :
    Except IoError Unit × UploadHalf :=
  if remaining = 0 then (.ok (), s)
  else if _h : (s.reader.read (min remaining bufferSize)).1 = [] then
    (.error ⟨.unexpectedEof, "unexpected end of file"⟩, s)
  else
    let (sent, decrypt, encrypt) :=
      recrypt P s.decrypt s.encrypt (s.reader.read (min remaining bufferSize)).1
    match s.writer.payload sent with
    | .error e =>
      (.error e, ⟨(s.reader.read (min remaining bufferSize)).2, decrypt, encrypt, s.writer⟩)
    | .ok writer =>
      uploadBody bufferSize (remaining - (s.reader.read (min remaining bufferSize)).1.length)
        ⟨(s.reader.read (min remaining bufferSize)).2, decrypt, encrypt, writer⟩
termination_by remaining
decreasing_by
  have hpos := List.length_pos_iff.mpr _h
  omega

/-- One turn of the loop: `false` when the client has closed between packets. -/
def uploadPacket (bufferSize : Nat) (protocol : Protocol) (turn : Turn) (s : UploadHalf) :
    Except IoError Bool × UploadHalf :=
  match readHeader P protocol s.reader s.decrypt with
  | .error e => (.error e, s)
  | .ok none => (.ok false, s)
  | .ok (some (header, reader, decrypt)) =>
    let s := { s with reader, decrypt }
    match packetLength header protocol with
    | .error e => (.error e, s)
    | .ok none => (.error (invalid "incomplete MTProto header"), s)
    | .ok (some (_, remaining)) =>
      let writer := s.writer.locked turn
      match writer.beginBinary (header.length + remaining) turn.key with
      | .error e => (.error e, { s with writer })
      | .ok writer =>
        let (sent, encrypt) := s.encrypt.applyKeystream P header
        match writer.payload sent with
        | .error e => (.error e, { s with writer, encrypt })
        | .ok writer =>
          match uploadBody P bufferSize remaining { s with writer, encrypt } with
          | (.error e, s) => (.error e, s)
          | (.ok (), s) => (.ok true, s)

/-- A header that is read leaves a shorter stream. -/
theorem readHeader_shortens {protocol : Protocol} {reader rest : Source}
    {decrypt decrypt' : AesCtr} {header : Bytes}
    (h : readHeader P protocol reader decrypt = .ok (some (header, rest, decrypt'))) :
    rest.bytes.length < reader.bytes.length := by
  unfold readHeader at h
  have hlt := reader.length_read_bytes_lt 1
  generalize reader.read 1 = read at *
  dsimp only at h
  split at h
  · cases h
  · next hne =>
    split at h
    · obtain ⟨⟨more, reader'⟩, hexact, h⟩ := bind_eq_ok.mp h
      cases h
      have happ := congrArg List.length (Source.readExact_append _ hexact).2.1
      rw [List.length_append] at happ
      have hread := hlt hne
      dsimp only
      omega
    · cases h
      exact hlt hne

/-- The body loop never gives bytes back. -/
theorem uploadBody_shortens (bufferSize remaining : Nat) (s : UploadHalf) :
    (uploadBody P bufferSize remaining s).2.reader.bytes.length ≤ s.reader.bytes.length := by
  fun_induction uploadBody P bufferSize remaining s with
  | case1 | case2 => exact Nat.le_refl _
  | case3 remaining s _ hne =>
    exact Nat.le_of_lt (s.reader.length_read_bytes_lt _ hne)
  | case4 remaining s _ hne sent decrypt encrypt _ writer _ ih =>
    exact Nat.le_trans ih (Nat.le_of_lt (s.reader.length_read_bytes_lt _ hne))

/-- A turn that forwards a packet leaves a shorter stream. -/
theorem uploadPacket_shortens {bufferSize : Nat} {protocol : Protocol} {turn : Turn}
    {s s' : UploadHalf} (h : uploadPacket P bufferSize protocol turn s = (.ok true, s')) :
    s'.reader.bytes.length < s.reader.bytes.length := by
  unfold uploadPacket at h
  split at h
  · cases h
  · cases h
  · next hheader =>
    have hlt := readHeader_shortens P hheader
    dsimp only at h
    split at h
    · cases h
    · cases h
    · split at h
      · cases h
      · split at h
        · cases h
        · next header reader decrypt _ _ remaining _ _ writer _ _ writer' _ =>
          have hle := uploadBody_shortens P bufferSize remaining
            { s with
              reader
              decrypt
              writer := writer'
              encrypt := (s.encrypt.applyKeystream P header).2 }
          split at h
          · cases h
          · next hbody =>
            cases h
            rw [hbody] at hle
            exact Nat.lt_of_le_of_lt hle hlt

/-- `upload_ws` with `packetized = true`: how it ends, and the state it leaves. The
upload holds the writer for the turns in order. -/
def uploadWsPacketized (bufferSize : Nat) (protocol : Protocol) (turns : Nat → Turn)
    (s : UploadHalf) : Except IoError Unit × UploadHalf :=
  match _h : uploadPacket P bufferSize protocol (turns 0) s with
  | (.error e, s) => (.error e, s)
  | (.ok false, s) => (.ok (), s)
  | (.ok true, s) => uploadWsPacketized bufferSize protocol (fun n => turns (n + 1)) s
termination_by s.reader.bytes.length
decreasing_by exact uploadPacket_shortens P _h

variable {P}

/-! ## One packet -/

/-- A read into a buffer of one byte takes one byte. -/
theorem Source.read_one (b : UInt8) (rest : Bytes) (grants : List Nat) :
    read ⟨b :: rest, grants⟩ 1 = ([b], ⟨rest, grants.tail⟩) := by
  have hg : granted ⟨b :: rest, grants⟩ 1 = 1 := by
    simp only [granted]
    omega
  simp [read, hg]

/-- A whole header at the front of the stream is read as it is. -/
theorem readHeader_output {protocol : Protocol} {header : Bytes} (hne : header ≠ [])
    (hlen : headerLen (header.headD 0) protocol = header.length) (rest : Bytes)
    (grants : List Nat) (decrypt : AesCtr) :
    ∃ grants', readHeader P protocol ⟨decrypt.output P (header ++ rest), grants⟩ decrypt =
      .ok (some (header, ⟨(decrypt.advance header.length).output P rest, grants'⟩,
        decrypt.advance header.length)) := by
  obtain ⟨first, more, rfl⟩ := List.exists_cons_of_ne_nil hne
  obtain ⟨x, hx⟩ : ∃ x, decrypt.output P [first] = [x] :=
    List.length_eq_one_iff.mp (AesCtr.length_output ..)
  have hopen : decrypt.output P [x] = [first] := by
    rw [← hx, AesCtr.output_output]
  have hstream : decrypt.output P (first :: more ++ rest) =
      x :: (decrypt.advance 1).output P (more ++ rest) := by
    have happ := decrypt.output_append (P := P) [first] (more ++ rest)
    rwa [hx] at happ
  rw [hstream]
  simp only [readHeader, Source.read_one, AesCtr.applyKeystream_eq, hopen]
  rw [List.headD_cons] at hlen ⊢
  by_cases h1 : headerLen first protocol > 1
  · have hexact := Source.readExact_of_append ((decrypt.advance 1).output P more)
      ((decrypt.advance (more.length + 1)).output P rest) grants.tail
    have hmore : headerLen first protocol - 1 = ((decrypt.advance 1).output P more).length := by
      rw [AesCtr.length_output, hlen]
      rfl
    rw [AesCtr.output_append, AesCtr.advance_advance, Nat.add_comm 1, if_neg (by simp), if_pos h1,
      hmore, hexact]
    refine ⟨grants.tail, ?_⟩
    simp [bind, Except.bind, Nat.add_comm 1]
  · have hnil : more = [] := by
      rw [hlen, List.length_cons] at h1
      exact List.length_eq_zero_iff.mp (by omega)
    subst hnil
    exact ⟨grants.tail, by simp [h1]⟩

/-- A read within a stretch of an encrypted stream takes a front of it. -/
theorem Source.read_output (c : AesCtr) {body : Bytes} (rest : Bytes) (grants : List Nat)
    {room : Nat} (hroom : 0 < room) (hle : room ≤ body.length) :
    ∃ front back, body = front ++ back ∧ 0 < front.length ∧
      read ⟨c.output P (body ++ rest), grants⟩ room =
        (c.output P front,
          ⟨(c.advance front.length).output P (back ++ rest), grants.tail⟩) := by
  obtain ⟨k, hk, hkroom, hread⟩ := read_eq_take ⟨c.output P (body ++ rest), grants⟩ hroom
  have hlen : (body.take k).length = k := List.length_take_of_le (by omega)
  have hcut : c.output P (body ++ rest) = c.output P (body.take k) ++
      (c.advance k).output P (body.drop k ++ rest) := by
    conv_lhs => rw [← List.take_append_drop k body, List.append_assoc, AesCtr.output_append, hlen]
  refine ⟨body.take k, body.drop k, (List.take_append_drop k body).symm, by omega, ?_⟩
  rw [hread, hcut, List.take_left' (by rw [AesCtr.length_output, hlen]),
    List.drop_left' (by rw [AesCtr.length_output, hlen]), hlen]

/-- The body is streamed into the open frame under both streams. -/
theorem uploadBody_output {bufferSize remaining : Nat} (hb : 0 < bufferSize) {body : Bytes}
    (rest : Bytes) {grants : List Nat} (s : UploadHalf) (hbody : remaining = body.length)
    (hreader : s.reader = ⟨s.decrypt.output P (body ++ rest), grants⟩)
    (hw : s.writer.remaining = remaining) :
    ∃ grants' w', uploadBody P bufferSize remaining s =
      (.ok (), ⟨⟨(s.decrypt.advance remaining).output P rest, grants'⟩,
        s.decrypt.advance remaining, s.encrypt.advance remaining, w'⟩) ∧
      w'.remaining = 0 ∧
      w'.wire = s.writer.wire ++ Core.mask (maskStream s.writer.mask.val) s.writer.offset
        (s.encrypt.output P body) := by
  fun_induction uploadBody P bufferSize remaining s generalizing body grants with
  | case1 s =>
    obtain rfl := List.length_eq_zero_iff.mp hbody.symm
    refine ⟨grants, s.writer, ?_, hw, ?_⟩
    · obtain ⟨reader, decrypt, encrypt, writer⟩ := s
      dsimp only at hreader ⊢
      subst hreader
      rfl
    · simp [AesCtr.output, AesCtr.applyKeystream]
  | case2 remaining s hr hnil =>
    rw [Source.read_eq_nil_iff _ (by omega), hreader] at hnil
    have hempty := congrArg List.length hnil
    simp only [AesCtr.length_output, List.length_append, List.length_nil] at hempty
    omega
  | case3 remaining s hr hne sent decrypt encrypt hrecrypt e herror =>
    obtain ⟨front, back, rfl, hpos, hread⟩ := Source.read_output (P := P) s.decrypt rest grants
      (show 0 < min remaining bufferSize by omega) (show _ ≤ body.length by omega)
    rw [← hreader] at hread
    rw [hread, recrypt_eq, Prod.mk.injEq] at hrecrypt
    rw [List.length_append] at hbody
    have hfits : ¬sent.length > s.writer.remaining := by
      rw [← hrecrypt.1]
      simp only [AesCtr.length_output]
      omega
    simp [WsWriter.payload, hfits] at herror
  | case4 remaining s hr hne sent decrypt encrypt hrecrypt writer hwriter ih =>
    obtain ⟨front, back, rfl, hpos, hread⟩ := Source.read_output (P := P) s.decrypt rest grants
      (show 0 < min remaining bufferSize by omega) (show _ ≤ body.length by omega)
    rw [← hreader] at hread
    simp only [hread] at hrecrypt ih ⊢
    rw [recrypt_eq, AesCtr.output_output, AesCtr.length_output, Prod.mk.injEq,
      Prod.mk.injEq] at hrecrypt
    obtain ⟨rfl, rfl, rfl⟩ := hrecrypt
    rw [List.length_append] at hbody
    obtain rfl : writer = ⟨s.writer.wire ++ Core.mask (maskStream s.writer.mask.val)
        s.writer.offset (s.encrypt.output P front), s.writer.remaining - front.length,
        s.writer.mask, s.writer.offset + front.length⟩ := by
      have hfits : ¬front.length > s.writer.remaining := by omega
      simpa [WsWriter.payload, hfits] using hwriter.symm
    have hback : remaining - (s.decrypt.output P front).length = back.length := by
      rw [AesCtr.length_output]
      omega
    obtain ⟨grants', w', hrun, hidle, hwire⟩ := ih hback rfl (by simp [hw])
    refine ⟨grants', w', ?_, hidle, ?_⟩
    · have hsum : front.length + (remaining - front.length) = remaining := by omega
      rw [hrun]
      simp only [AesCtr.length_output, AesCtr.advance_advance, hsum]
    · rw [hwire]
      simp only [AesCtr.length_output, AesCtr.output_append, mask_append, List.append_assoc]

/-- Between frames, the replies that came before the lock are whole frames. -/
theorem WsWriter.locked_idle {w : WsWriter} (hw : w.remaining = 0) (turn : Turn) :
    (w.locked turn).remaining = 0 ∧
      (w.locked turn).wire = w.wire ++ turn.replies.flatMap fun reply => reply.call.bytes := by
  unfold locked
  generalize turn.replies = replies
  induction replies generalizing w with
  | nil => exact ⟨hw, by simp⟩
  | cons reply replies ih =>
    obtain ⟨w', hcall, hidle, hwire⟩ := call_allowed hw reply.legal
    have hcall : w.call reply.call = .ok w' := hcall
    obtain ⟨hrest, hbytes⟩ := ih hidle
    have hstep : ((w.call reply.call).toOption.getD w) = w' := by
      rw [hcall]
      rfl
    rw [List.foldl_cons, hstep]
    refine ⟨hrest, ?_⟩
    rw [hbytes, hwire, List.flatMap_cons, List.append_assoc]
    rfl

/-- Header and payload of any accepted packet fit into one frame. -/
theorem Packet.length_bytes_le {protocol : Protocol} (packet : Packet protocol) :
    packet.bytes.length ≤ maxMessage := by
  have hheader := packet.length_header_le
  have hpayload := packet.length_payload_le
  rw [packet.length_bytes]
  simp only [maxMessage, maxPacketPayload] at *
  omega

/-- Opening a packet's frame between two frames is never refused. -/
theorem WsWriter.beginBinary_packet {w : WsWriter} (hw : w.remaining = 0) {protocol : Protocol}
    (packet : Packet protocol) (key : Block 4) :
    w.beginBinary packet.bytes.length key =
      .ok ⟨w.wire ++ header 2 packet.bytes.length key, packet.bytes.length, key, 0⟩ := by
  have hfits : ¬packet.bytes.length > maxMessage := Nat.not_lt.mpr packet.length_bytes_le
  simp [beginBinary, begin, hw, hfits]

/-- A turn at the front of a packet sends its frame behind the replies and moves both
streams past it. -/
theorem uploadPacket_output {bufferSize : Nat} (hb : 0 < bufferSize) {protocol : Protocol}
    (packet : Packet protocol) (rest : Bytes) (grants : List Nat) (turn : Turn)
    (decrypt encrypt : AesCtr) {w : WsWriter} (hw : w.remaining = 0) :
    ∃ grants' w', uploadPacket P bufferSize protocol turn
        ⟨⟨decrypt.output P (packet.bytes ++ rest), grants⟩, decrypt, encrypt, w⟩ =
      (.ok true, ⟨⟨(decrypt.advance packet.bytes.length).output P rest, grants'⟩,
        decrypt.advance packet.bytes.length, encrypt.advance packet.bytes.length, w'⟩) ∧
      w'.remaining = 0 ∧
      w'.wire = w.wire ++ ((turn.replies.flatMap fun reply => reply.call.bytes) ++
        (WriterCall.binary (encrypt.output P packet.bytes) turn.key).bytes) := by
  obtain ⟨hidle, hlocked⟩ := WsWriter.locked_idle hw turn
  obtain ⟨grants₁, hheader⟩ := readHeader_output (P := P) packet.header_ne_nil
    packet.headerLen_eq (packet.payload ++ rest) grants decrypt
  have hbegin := WsWriter.beginBinary_packet hidle packet turn.key
  rw [packet.length_bytes] at hbegin
  -- the frame is open and holds the header; the body follows under the same mask
  obtain ⟨w₁, hpayload, hwire, hremaining, hmask, hoffset⟩ :
      ∃ w₁, WsWriter.payload ⟨(w.locked turn).wire ++ WsWriter.header 2
          (packet.header.length + packet.payload.length) turn.key,
          packet.header.length + packet.payload.length, turn.key, 0⟩
          (encrypt.output P packet.header) = .ok w₁ ∧
        w₁.wire = (w.locked turn).wire ++ WsWriter.header 2
          (packet.header.length + packet.payload.length) turn.key ++
            Core.mask (maskStream turn.key.val) 0 (encrypt.output P packet.header) ∧
        w₁.remaining = packet.payload.length ∧ w₁.mask = turn.key ∧
        w₁.offset = packet.header.length := by
    have hfits : ¬packet.header.length > packet.header.length + packet.payload.length := by omega
    simp [WsWriter.payload, hfits]
  obtain ⟨grants₂, w₂, hbody, hdone, hsent⟩ := uploadBody_output (P := P) hb rest
    ⟨⟨(decrypt.advance packet.header.length).output P (packet.payload ++ rest), grants₁⟩,
      decrypt.advance packet.header.length, encrypt.advance packet.header.length, w₁⟩
    rfl rfl hremaining
  rw [Packet.bytes, List.append_assoc, uploadPacket, hheader]
  simp only [packet.announced, hbegin, AesCtr.applyKeystream_eq, hpayload, hbody]
  refine ⟨grants₂, w₂, ?_, hdone, ?_⟩
  · simp only [AesCtr.advance_advance, List.length_append]
  · rw [hsent]
    simp only [hwire, hmask, hoffset, hlocked, WriterCall.bytes, AesCtr.length_output,
      List.length_append, AesCtr.output_append, mask_append, List.append_assoc, Nat.zero_add]

/-! ## The whole upload -/

/-- The calls that send one binary frame in each turn, behind the turn's replies. -/
def turnCalls : (Nat → Turn) → List Bytes → List WriterCall
  | _, [] => []
  | turns, data :: rest =>
    (turns 0).replies.map Reply.call ++
      .binary data (turns 0).key :: turnCalls (fun n => turns (n + 1)) rest

/-- Replies carry no binary data. -/
theorem binaries_replies (replies : List Reply) : binaries (replies.map Reply.call) = [] := by
  simp [binaries, Reply.call]

private theorem binaries_turnCalls (turns : Nat → Turn) (payloads : List Bytes) :
    binaries (turnCalls turns payloads) = payloads := by
  induction payloads generalizing turns with
  | nil => rfl
  | cons data rest ih =>
    have happ (xs ys : List WriterCall) : binaries (xs ++ ys) = binaries xs ++ binaries ys :=
      List.filterMap_append
    have hcons (calls : List WriterCall) :
        binaries (.binary data (turns 0).key :: calls) = data :: binaries calls := rfl
    rw [turnCalls, happ, binaries_replies, hcons, ih, List.nil_append]

/-- Calls in turns are allowed when the payloads fit. -/
theorem turnCalls_allowed {turns : Nat → Turn} {payloads : List Bytes}
    (h : ∀ data ∈ payloads, data.length ≤ maxMessage) :
    ∀ c ∈ turnCalls turns payloads, c.Allowed := by
  induction payloads generalizing turns with
  | nil => simp [turnCalls]
  | cons data rest ih =>
    intro c hc
    rcases List.mem_append.mp hc with hc | hc
    · obtain ⟨reply, _, rfl⟩ := List.mem_map.mp hc
      exact reply.legal
    · rcases List.mem_cons.mp hc with rfl | hc
      · exact h data (List.mem_cons_self ..)
      · exact ih (fun data hd => h data (List.mem_cons_of_mem _ hd)) c hc

/-- The binary frames of allowed calls are those of the binary calls. -/
theorem filter_frames {calls : List WriterCall} (hc : ∀ c ∈ calls, c.Allowed) :
    (calls.map WriterCall.frame).filter (·.1 = 2) = (binaries calls).map ((2, ·)) := by
  induction calls with
  | nil => rfl
  | cons c calls ih =>
    have hrest := ih fun c h => hc c (List.mem_cons_of_mem _ h)
    cases c with
    | binary data key => simpa [binaries, WriterCall.frame] using hrest
    | control opcode data key =>
      have hcontrol : opcode ≠ 2 := by
        rcases (hc _ (List.mem_cons_self ..)).1 with rfl | rfl <;> decide
      simpa [binaries, WriterCall.frame, hcontrol] using hrest

/-- One turn of the upload loop. -/
theorem uploadWsPacketized_step (bufferSize : Nat) (protocol : Protocol) (turns : Nat → Turn)
    (s : UploadHalf) : uploadWsPacketized P bufferSize protocol turns s =
      match uploadPacket P bufferSize protocol (turns 0) s with
      | (.error e, s) => (.error e, s)
      | (.ok false, s) => (.ok (), s)
      | (.ok true, s) => uploadWsPacketized P bufferSize protocol (fun n => turns (n + 1)) s := by
  rw [uploadWsPacketized]
  split <;> next hs => rw [hs]

/-- After any packets the upload stands where a fresh one would, behind their frames. -/
theorem uploadWsPacketized_packets {bufferSize : Nat} (hb : 0 < bufferSize)
    {protocol : Protocol} (packets : List (Packet protocol)) (tail : Bytes) (grants : List Nat)
    (turns : Nat → Turn) (decrypt encrypt : AesCtr) {w : WsWriter} (hw : w.remaining = 0) :
    ∃ grants' turns' decrypt' encrypt' w', uploadWsPacketized P bufferSize protocol turns
        ⟨⟨decrypt.output P (packets.flatMap Packet.bytes ++ tail), grants⟩, decrypt, encrypt, w⟩ =
      uploadWsPacketized P bufferSize protocol turns'
        ⟨⟨decrypt'.output P tail, grants'⟩, decrypt', encrypt', w'⟩ ∧
      w'.remaining = 0 ∧
      w'.wire = w.wire ++
        (turnCalls turns (encrypt.outputs P (packets.map Packet.bytes))).flatMap
          WriterCall.bytes := by
  induction packets generalizing grants turns decrypt encrypt w with
  | nil =>
    exact ⟨grants, turns, decrypt, encrypt, w, rfl, hw,
      by simp [AesCtr.outputs, maskPieces, turnCalls]⟩
  | cons packet packets ih =>
    obtain ⟨grants₁, w₁, hstep, hidle, hwire⟩ := uploadPacket_output (P := P) hb packet
      (packets.flatMap Packet.bytes ++ tail) grants (turns 0) decrypt encrypt hw
    obtain ⟨grants', turns', decrypt', encrypt', w', hrun, hdone, hsent⟩ := ih grants₁
      (fun n => turns (n + 1)) (decrypt.advance packet.bytes.length)
      (encrypt.advance packet.bytes.length) hidle
    refine ⟨grants', turns', decrypt', encrypt', w', ?_, hdone, ?_⟩
    · rw [← hrun, List.flatMap_cons, List.append_assoc, uploadWsPacketized_step, hstep]
    · rw [hsent, hwire]
      simp [turnCalls, List.flatMap_append, List.flatMap_map, List.append_assoc]

/-- How an upload ends behind its last good packet: in order when the client closes
there, and with the refusal of a malformed header. -/
inductive UploadEnd (protocol : Protocol) : Bytes → Except IoError Unit → Prop
  | closed : UploadEnd protocol [] (.ok ())
  | malformed {tail : Bytes} {e : IoError} (h : packetLength tail protocol = .error e) :
    UploadEnd protocol tail (.error e)

/-- At its end the upload stops without another byte. -/
theorem uploadWsPacketized_end {protocol : Protocol} {tail : Bytes}
    {result : Except IoError Unit} (h : UploadEnd protocol tail result) (bufferSize : Nat)
    (grants : List Nat) (turns : Nat → Turn) (decrypt encrypt : AesCtr) (w : WsWriter) :
    ∃ s, uploadWsPacketized P bufferSize protocol turns
      ⟨⟨decrypt.output P tail, grants⟩, decrypt, encrypt, w⟩ = (result, s) ∧ s.writer = w := by
  rw [uploadWsPacketized_step]
  cases h with
  | closed =>
    have hnil : readHeader P protocol ⟨decrypt.output P [], grants⟩ decrypt = .ok none := by
      have hread : (Source.read ⟨decrypt.output P [], grants⟩ 1).1 = [] := by
        rw [Source.read_eq_nil_iff _ Nat.one_pos]
        rfl
      simp [readHeader, hread]
    rw [uploadPacket, hnil]
    exact ⟨_, rfl, rfl⟩
  | malformed he =>
    obtain ⟨hne, hlen⟩ := headerLen_le_of_packetLength
      (show packetLength tail protocol ≠ .ok none by simp [he])
    obtain ⟨header, rest, rfl, hheader⟩ : ∃ header rest, tail = header ++ rest ∧
        header.length = headerLen (tail.headD 0) protocol :=
      ⟨_, _, (List.take_append_drop _ _).symm, List.length_take_of_le hlen⟩
    have hsome : header ≠ [] := by
      intro hnil
      have hpos := headerLen_pos ((header ++ rest).headD 0) protocol
      rw [← hheader, hnil] at hpos
      exact Nat.lt_irrefl 0 hpos
    obtain ⟨first, more, rfl⟩ := List.exists_cons_of_ne_nil hsome
    obtain ⟨grants', hread⟩ := readHeader_output (P := P) (List.cons_ne_nil first more)
      hheader.symm rest grants decrypt
    rw [packetLength_append (List.cons_ne_nil first more) (Nat.le_of_eq hheader.symm)] at he
    rw [uploadPacket, hread]
    simp only [he]
    exact ⟨_, rfl, rfl⟩

/-- What a packetized upload leaves on the shared writer when its client sends these
packets: a frame for each packet, and what the raw upload would send in its frames. -/
structure PacketFrames (P : Primitives) {protocol : Protocol} (packets : List (Packet protocol))
    (turns : Nat → Turn) (decrypt encrypt : AesCtr) (before after : WsWriter) : Prop where
  /-- No packet is refused by a writer between frames. -/
  fits : ∀ packet ∈ packets, ∀ w key, w.remaining = 0 →
    ∃ w', WsWriter.beginBinary w packet.bytes.length key = .ok w'
  /-- The writer stands between frames. -/
  idle : after.remaining = 0
  /-- What has been sent is, in order, one frame for each packet behind the replies of its
  turn, and nothing more. -/
  frames : ∃ sent, after.wire = before.wire ++ sent ∧ telegramFrames sent =
    .ok ((turnCalls turns (encrypt.outputs P (packets.map Packet.bytes))).map WriterCall.frame)
  /-- The binary frames among them hold the packets, one each. -/
  binary : ((turnCalls turns (encrypt.outputs P (packets.map Packet.bytes))).map
    WriterCall.frame).filter (·.1 = 2) =
      (encrypt.outputs P (packets.map Packet.bytes)).map ((2, ·))
  /-- The raw upload sends the same bytes, in frames of its own. -/
  raw : ∀ bufferSize grants, 0 < bufferSize →
    (encrypt.outputs P (packets.map Packet.bytes)).flatten = (uploadWsRaw P bufferSize
      ⟨decrypt.output P (packets.flatMap Packet.bytes), grants⟩ decrypt encrypt).flatten

variable (P) in
/-- A packetized upload forwards each packet as one frame and stops behind the last. -/
theorem uploadWs_keeps_boundaries {protocol : Protocol} (packets : List (Packet protocol))
    {tail : Bytes} {result : Except IoError Unit} (htail : UploadEnd protocol tail result)
    {bufferSize : Nat} (hb : 0 < bufferSize) (grants : List Nat) (turns : Nat → Turn)
    (decrypt encrypt : AesCtr) {w : WsWriter} (hw : w.remaining = 0) :
    ∃ s, uploadWsPacketized P bufferSize protocol turns
        ⟨⟨decrypt.output P (packets.flatMap Packet.bytes ++ tail), grants⟩, decrypt, encrypt, w⟩ =
          (result, s) ∧
      PacketFrames P packets turns decrypt encrypt w s.writer := by
  obtain ⟨grants', turns', decrypt', encrypt', w', hrun, hidle, hwire⟩ :=
    uploadWsPacketized_packets hb packets tail grants turns decrypt encrypt hw
  obtain ⟨s, hend, rfl⟩ := uploadWsPacketized_end htail bufferSize grants' turns' decrypt'
    encrypt' w'
  have hallowed : ∀ c ∈ turnCalls turns (encrypt.outputs P (packets.map Packet.bytes)),
      c.Allowed := by
    apply turnCalls_allowed
    intro data hdata
    obtain ⟨piece, hpiece, hlen⟩ := length_of_mem_maskPieces _ _ hdata
    obtain ⟨packet, _, rfl⟩ := List.mem_map.mp hpiece
    rw [hlen]
    exact packet.length_bytes_le
  refine ⟨s, hrun.trans hend, ?_⟩
  constructor
  case fits =>
    intro packet _ w key hw
    exact ⟨_, WsWriter.beginBinary_packet hw packet key⟩
  case idle => exact hidle
  case frames => exact ⟨_, hwire, telegramFrames_calls hallowed⟩
  case binary => rw [filter_frames hallowed, binaries_turnCalls]
  case raw =>
    intro size grants hsize
    rw [uploadWsRaw, flatten_relayReads hsize, AesCtr.output_output, AesCtr.flatten_outputs]
    rfl

/-- A quick-ack packet and a padded one, with a pong between them, before a header of
length zero. -/
theorem uploadWs_keeps_boundaries_refused :
    ∃ s, uploadWsPacketized repeatingKey 3 .paddedIntermediate
        (fun n => if n = 1 then
            ⟨[⟨10, [33], ⟨[1, 2, 3, 4], rfl⟩, .inr rfl, by decide⟩], ⟨[5, 6, 7, 8], rfl⟩⟩
          else ⟨[], ⟨[9, 9, 9, 9], rfl⟩⟩)
        ⟨⟨AesCtr.output repeatingKey (cipher [1, 2, 3] []) ([5, 0, 0, 0x80, 1, 2, 3, 4, 5] ++
            [2, 0, 0, 0, 8, 8] ++ [0, 0, 0, 0x80, 7]), [1, 2, 1, 7]⟩,
          cipher [1, 2, 3] [], cipher [4, 5] [], {}⟩ =
        (.error (invalid "invalid MTProto packet length"), s) ∧ s.writer.remaining = 0 := by
  obtain ⟨s, hrun, hframes⟩ := uploadWs_keeps_boundaries repeatingKey
    [⟨[5, 0, 0, 0x80], [1, 2, 3, 4, 5], rfl⟩, ⟨[2, 0, 0, 0], [8, 8], rfl⟩]
    (show UploadEnd .paddedIntermediate [0, 0, 0, 0x80, 7]
      (.error (invalid "invalid MTProto packet length")) from .malformed rfl)
    (show 0 < 3 by decide) [1, 2, 1, 7]
    (fun n => if n = 1 then
        ⟨[⟨10, [33], ⟨[1, 2, 3, 4], rfl⟩, .inr rfl, by decide⟩], ⟨[5, 6, 7, 8], rfl⟩⟩
      else ⟨[], ⟨[9, 9, 9, 9], rfl⟩⟩)
    (cipher [1, 2, 3] []) (cipher [4, 5] []) (w := {}) rfl
  exact ⟨s, hrun, hframes.idle⟩

end TgWsProxy
