import TgWsProxy.Framing
import TgWsProxy.H2.Budget

/-!
# Native packet framing

`write_encrypted_reply`, `strip_padded_body` and `read_packet` of `cf_h2.rs`: the
framing between a native client and the H2 bridge. Random bytes, the sizes of
short writes and the outcome of a reservation are inputs.
-/

namespace TgWsProxy.H2

open TgWsProxy.Core

/-- The most padding behind a plaintext packet. -/
def maxPlainPadding : Nat := 256

/-- The most padding behind an encrypted packet. -/
def maxEncryptedPadding : Nat := 15

/-! ## Writing -/

/-- The bytes written so far and how many each successive `write` will take. -/
structure Sink where
  bytes : Bytes
  grants : List Nat

/-- One `write`: a full one when no size is granted. -/
def Sink.write (w : Sink) (data : Bytes) : Nat × Sink :=
  let written := min data.length (w.grants.headD data.length)
  (written, ⟨w.bytes ++ data.take written, w.grants.tail⟩)

/-- `write_all_active`. -/
def Sink.writeAllActive (w : Sink) (buffer : Bytes) : Except IoError Unit × Sink :=
  if buffer = [] then (.ok (), w)
  else if _h : (w.write buffer).1 = 0 then
    (.error ⟨.writeZero, "native MTProto write made no progress"⟩, (w.write buffer).2)
  else (w.write buffer).2.writeAllActive (buffer.drop (w.write buffer).1)
termination_by buffer.length
decreasing_by
  simp only [Sink.write, List.length_drop] at _h ⊢
  omega

/-- `[u8]::chunks`. -/
def chunks (size : Nat) (hsize : 0 < size) (data : Bytes) : List Bytes :=
  if _h : data = [] then [] else data.take size :: chunks size hsize (data.drop size)
termination_by data.length
decreasing_by
  have hpos := List.length_pos_iff.mpr _h
  rw [List.length_drop]
  omega

variable (P : Primitives)

/-- Encrypt and write one piece after the other. -/
def writePieces (w : Sink) (encrypt : AesCtr) : List Bytes → Except IoError Unit × Sink × AesCtr
  | [] => (.ok (), w, encrypt)
  | piece :: rest =>
    let (data, encrypt) := encrypt.applyKeystream P piece
    match w.writeAllActive data with
    | (.error e, w) => (.error e, w, encrypt)
    | (.ok (), w) => writePieces w encrypt rest

/-- The length prefix of a reply and the length of its padding. -/
def replyPrefix (bodyLength : Nat) (protocol : Protocol) (random : UInt8) :
    Except IoError (Bytes × Nat) :=
  match protocol with
  | .abridged =>
    let words := bodyLength / 4
    if words < 0x7f then .ok ([UInt8.ofNat words], 0)
    else if words ≤ 0xffffff then .ok (0x7f :: (toLe 4 words).take 3, 0)
    else .error (invalid "abridged MTProto response is too large")
  | .intermediate => .ok (toLe 4 bodyLength, 0)
  | .paddedIntermediate =>
    let paddingLength := (random &&& 0x0f).toNat
    .ok (toLe 4 (bodyLength + paddingLength), paddingLength)

/-- A reply to be written: its body in parts and the random bytes drawn for it. -/
structure NativeReply where
  parts : List Bytes
  random : UInt8
  padding : Block 15

/-- The body of a reply. -/
def NativeReply.body (reply : NativeReply) : Bytes := reply.parts.flatten

/-- `write_encrypted_reply`, called with the length of the whole body. -/
def writeEncryptedReply (w : Sink) (encrypt : AesCtr) (reply : NativeReply) (protocol : Protocol)
    (bufferSize : Nat) : Except IoError Unit × Sink × AesCtr :=
  let bodyLength := reply.body.length
  if _h : bodyLength = 0 ∨ bodyLength > maxPacket ∨ bodyLength % 4 ≠ 0 then
    (.error (invalid "invalid HTTP MTProto response length"), w, encrypt)
  else
    match replyPrefix bodyLength protocol reply.random with
    | .error e => (.error e, w, encrypt)
    | .ok (pre, paddingLength) =>
      let chunkSize := min (max bufferSize 1) bodyLength
      -- prefix, chunks and padding go the same way: encrypted in place, then written
      writePieces P w encrypt
        (pre :: reply.parts.flatMap (chunks chunkSize (by omega)) ++
          if paddingLength > 0 then [reply.padding.val.take paddingLength] else [])

/-- The pieces that `write_encrypted_reply` encrypts and writes. -/
def NativeReply.pieces (reply : NativeReply) (protocol : Protocol) (bufferSize : Nat) :
    Except IoError (List Bytes) :=
  let bodyLength := reply.body.length
  if _h : bodyLength = 0 ∨ bodyLength > maxPacket ∨ bodyLength % 4 ≠ 0 then
    .error (invalid "invalid HTTP MTProto response length")
  else
    match replyPrefix bodyLength protocol reply.random with
    | .error e => .error e
    | .ok (pre, paddingLength) =>
      let chunkSize := min (max bufferSize 1) bodyLength
      .ok (pre :: reply.parts.flatMap (chunks chunkSize (by omega)) ++
        if paddingLength > 0 then [reply.padding.val.take paddingLength] else [])

/-- The replies of a `download`, one after the other. -/
def writeReplies (protocol : Protocol) (bufferSize : Nat) (w : Sink) (encrypt : AesCtr) :
    List NativeReply → Except IoError Unit × Sink × AesCtr
  | [] => (.ok (), w, encrypt)
  | reply :: rest =>
    match writeEncryptedReply P w encrypt reply protocol bufferSize with
    | (.error e, w, encrypt) => (.error e, w, encrypt)
    | (.ok (), w, encrypt) => writeReplies protocol bufferSize w encrypt rest

/-! ## Reading -/

/-- Take the padding off a packet. The padding of an encrypted packet is what exceeds whole
blocks; a plaintext packet says its own length. `usize` is taken at 64 bits. -/
def stripPaddedBody (body : Bytes) : Except IoError Bytes :=
  if body.length < 24 then .error (invalid "padded MTProto packet is too short")
  else
    let plain := body.take 8 = List.replicate 8 0
    if plain ∧ body.length < 20 then .error (invalid "plaintext MTProto packet is too short")
    else
      -- a sum of 20 and a `u32` that leaves a `usize` of 32 bits is refused with another text
      let packetLength := if plain then 20 + ofLe (slice body 16 20)
        else 24 + ((body.length - 24) / 16) * 16
      let maxPadding := if plain then maxPlainPadding else maxEncryptedPadding
      if packetLength < 24 ∨ packetLength > body.length ∨
          body.length - packetLength > maxPadding then
        .error (invalid "invalid padded MTProto packet")
      else .ok (body.take packetLength)

/-- `read_exact_active`. -/
def readExactActive (reader : Source) (room : Nat) : Except IoError (Bytes × Source) :=
  if room = 0 then .ok ([], reader)
  else if _h : (reader.read room).1 = [] then
    .error ⟨.unexpectedEof, "native MTProto packet ended early"⟩
  else do
    let (rest, s) ← readExactActive (reader.read room).2 (room - (reader.read room).1.length)
    .ok ((reader.read room).1 ++ rest, s)
termination_by room
decreasing_by
  have hpos := List.length_pos_iff.mpr _h
  omega

/-- Read and decrypt a native packet header. -/
def readNativeHeader (protocol : Protocol) (reader : Source) (decrypt : AesCtr) :
    Except IoError (Bytes × Source × AesCtr) := do
  let (first, reader) ← readExactActive reader 1
  let (first, decrypt) := decrypt.applyKeystream P first
  let headerLength := headerLen (first.headD 0) protocol
  if headerLength > 1 then do
    let (rest, reader) ← readExactActive reader (headerLength - 1)
    let (rest, decrypt) := decrypt.applyKeystream P rest
    .ok (first ++ rest, reader, decrypt)
  else .ok (first, reader, decrypt)

variable {κ : Type}

/-- The padding step of `read_packet`: only one framing has padding. -/
def unpad (protocol : Protocol) (payload : Bytes) : Except IoError Bytes :=
  if protocol = .paddedIntermediate then stripPaddedBody payload else .ok payload

/-- `read_packet`: one request body and the capacity reserved for it. -/
def readPacket (reserve : Nat → Except IoError κ) (protocol : Protocol) (reader : Source)
    (decrypt : AesCtr) : Except IoError ((Bytes × κ) × Source × AesCtr) := do
  let (header, reader, decrypt) ← readNativeHeader P protocol reader decrypt
  let announced ← packetLength header protocol
  match announced with
  | none => .error ⟨.unexpectedEof, "partial MTProto header"⟩
  | some (_, length) =>
    let maximum := if protocol = .paddedIntermediate then maxPaddedPacket else maxPacket
    if length < 24 ∨ length > maximum then
      .error (invalid "native MTProto packet length outside H2 bound")
    else do
      let capacity ← reserve length
      let (body, reader) ← readExactActive reader length
      let (body, decrypt) := decrypt.applyKeystream P body
      let body ← unpad protocol body
      if body.length > maxPacket ∨ body.length % 4 ≠ 0 then
        .error (invalid "invalid MTProto H2 request body")
      else .ok ((body, capacity), reader, decrypt)

/-- The bodies of `n` successive calls of `read_packet`. -/
def readPackets (reserve : Nat → Except IoError κ) (protocol : Protocol) :
    Nat → Source → AesCtr → Except IoError (List Bytes × Source × AesCtr)
  | 0, reader, decrypt => .ok ([], reader, decrypt)
  | n + 1, reader, decrypt => do
    let ((body, _), reader, decrypt) ← readPacket P reserve protocol reader decrypt
    let (bodies, reader, decrypt) ← readPackets reserve protocol n reader decrypt
    .ok (body :: bodies, reader, decrypt)

variable {P}

/-! ## What is written -/

/-- Chunks join to the whole. -/
theorem flatten_chunks (size : Nat) (hsize : 0 < size) (data : Bytes) :
    (chunks size hsize data).flatten = data := by
  fun_induction chunks size hsize data with
  | case1 => rfl
  | case2 data hne ih => rw [List.flatten_cons, ih, List.take_append_drop]

/-- Writes that always make progress write everything, however short they are. -/
theorem Sink.writeAllActive_ok {w : Sink} (hw : ∀ n ∈ w.grants, 0 < n) (buffer : Bytes) :
    ∃ grants, (∀ n ∈ grants, 0 < n) ∧
      w.writeAllActive buffer = (.ok (), ⟨w.bytes ++ buffer, grants⟩) := by
  fun_induction Sink.writeAllActive w buffer with
  | case1 w => exact ⟨w.grants, hw, by simp⟩
  | case2 w buffer hne hzero =>
    have hpos := List.length_pos_iff.mpr hne
    simp only [Sink.write] at hzero
    cases hgrants : w.grants with
    | nil =>
      rw [hgrants, List.headD_nil] at hzero
      omega
    | cons n grants =>
      have hn := hw n (by simp [hgrants])
      rw [hgrants, List.headD_cons] at hzero
      omega
  | case3 w buffer hne hprogress ih =>
    obtain ⟨grants, hgrants, hrun⟩ := ih fun n hn => hw n (List.mem_of_mem_tail hn)
    refine ⟨grants, hgrants, ?_⟩
    rw [hrun]
    simp [Sink.write]

/-- Pieces are written as the encryption of the whole. -/
theorem writePieces_ok {w : Sink} (hw : ∀ n ∈ w.grants, 0 < n) (encrypt : AesCtr)
    (pieces : List Bytes) :
    ∃ grants, (∀ n ∈ grants, 0 < n) ∧ writePieces P w encrypt pieces =
      (.ok (), ⟨w.bytes ++ encrypt.output P pieces.flatten, grants⟩,
        encrypt.advance pieces.flatten.length) := by
  induction pieces generalizing w encrypt with
  | nil =>
    refine ⟨w.grants, hw, ?_⟩
    simp [writePieces, AesCtr.output, AesCtr.applyKeystream, AesCtr.advance]
  | cons piece rest ih =>
    obtain ⟨grants₁, hgrants₁, hpiece⟩ := w.writeAllActive_ok hw (encrypt.output P piece)
    obtain ⟨grants, hgrants, hrest⟩ := ih (w := ⟨w.bytes ++ encrypt.output P piece, grants₁⟩)
      hgrants₁ (encrypt.advance piece.length)
    refine ⟨grants, hgrants, ?_⟩
    simp only [writePieces, AesCtr.applyKeystream_eq, hpiece, hrest, List.flatten_cons,
      AesCtr.output_append, List.append_assoc, AesCtr.advance_advance, List.length_append]

/-- How much padding a reply gets. -/
def NativeReply.paddingLength (protocol : Protocol) (reply : NativeReply) : Nat :=
  if protocol = .paddedIntermediate then (reply.random &&& 0x0f).toNat else 0

/-- The body of a reply with its padding. -/
def NativeReply.padded (protocol : Protocol) (reply : NativeReply) : Bytes :=
  reply.body ++ reply.padding.val.take (reply.paddingLength protocol)

/-- A body that may be framed. -/
structure NativeReply.Fits (reply : NativeReply) : Prop where
  nonempty : reply.body ≠ []
  words : reply.body.length % 4 = 0
  bounded : reply.body.length ≤ maxPacket

private theorem random_bits : ∀ v : BitVec 8, v &&& 0x0f#8 ≤ 15#8 := by
  decide

namespace NativeReply

variable {reply : NativeReply} {protocol : Protocol}

private theorem paddingLength_le (protocol : Protocol) (reply : NativeReply) :
    reply.paddingLength protocol ≤ 15 := by
  unfold paddingLength
  split
  · exact UInt8.le_iff_toNat_le.mp (random_bits reply.random.toBitVec)
  · exact Nat.zero_le _

private theorem length_padded (protocol : Protocol) (reply : NativeReply) :
    (reply.padded protocol).length = reply.body.length + reply.paddingLength protocol := by
  have hle := reply.paddingLength_le protocol
  simp [padded, reply.padding.property, Nat.min_eq_left hle]

/-- The prefix of a reply is a header that announces body and padding. -/
theorem Fits.replyPrefix (h : reply.Fits) (protocol : Protocol) :
    ∃ pre, H2.replyPrefix reply.body.length protocol reply.random =
        .ok (pre, reply.paddingLength protocol) ∧
      packetLength pre protocol =
        .ok (some (pre.length, reply.body.length + reply.paddingLength protocol)) := by
  have hpos := List.length_pos_iff.mpr h.nonempty
  have hpad := reply.paddingLength_le protocol
  have hbound : reply.body.length ≤ 4194304 := h.bounded
  have hwords : reply.body.length / 4 * 4 = reply.body.length :=
    Nat.div_mul_cancel (Nat.dvd_of_mod_eq_zero h.words)
  have hmax : maxPacketPayload = 16777216 := rfl
  cases protocol with
  | abridged =>
    have hnone : reply.paddingLength .abridged = 0 := rfl
    rw [hnone, Nat.add_zero]
    by_cases hshort : reply.body.length / 4 < 0x7f
    · refine ⟨_, by rw [H2.replyPrefix, if_pos hshort], ?_⟩
      rw [packetLength_words (by omega) hshort, hwords]
      rfl
    · have hfits : reply.body.length / 4 ≤ 0xffffff := by omega
      have htake : (toLe 4 (reply.body.length / 4)).take 3 = toLe 3 (reply.body.length / 4) := by
        simp [toLe]
      refine ⟨_, by rw [H2.replyPrefix, if_neg hshort, if_pos hfits], ?_⟩
      rw [htake, packetLength_words_extended (by omega) (by omega), hwords]
      simp
  | intermediate =>
    refine ⟨_, rfl, ?_⟩
    rw [length_toLe]
    exact packetLength_toLe (by decide) (by omega) (by omega)
  | paddedIntermediate =>
    have hdrawn : reply.paddingLength .paddedIntermediate = (reply.random &&& 0x0f).toNat := rfl
    refine ⟨_, rfl, ?_⟩
    rw [length_toLe]
    exact packetLength_toLe (by decide) (by omega) (by omega)

/-- The pieces of a reply that fits join to one packet of its padded body. -/
theorem Fits.pieces (h : reply.Fits) (protocol : Protocol) (bufferSize : Nat) :
    ∃ (packet : Packet protocol) (pieces : List Bytes), packet.payload = reply.padded protocol ∧
      reply.pieces protocol bufferSize = .ok pieces ∧ pieces.flatten = packet.bytes := by
  obtain ⟨pre, hpre, hlength⟩ := h.replyPrefix protocol
  have hok : ¬(reply.body.length = 0 ∨ reply.body.length > maxPacket ∨
      reply.body.length % 4 ≠ 0) := by
    have hpos := List.length_pos_iff.mpr h.nonempty
    have hbound := h.bounded
    have hwords := h.words
    omega
  have hpieces (chunkSize : Nat) (hsize : 0 < chunkSize) :
      (pre :: reply.parts.flatMap (chunks chunkSize hsize) ++
        if reply.paddingLength protocol > 0 then
          [reply.padding.val.take (reply.paddingLength protocol)] else []).flatten =
        pre ++ reply.padded protocol := by
    have hparts : (reply.parts.flatMap (chunks chunkSize hsize)).flatten = reply.body := by
      rw [NativeReply.body, List.flatMap_def, List.flatten_flatten, List.map_map]
      congr 1
      exact List.map_id'' (fun part => flatten_chunks chunkSize hsize part) _
    have hpadding : (if reply.paddingLength protocol > 0 then
        [reply.padding.val.take (reply.paddingLength protocol)] else []).flatten =
          reply.padding.val.take (reply.paddingLength protocol) := by
      split
      · simp
      · next hzero => simp [Nat.eq_zero_of_not_pos hzero]
    rw [List.flatten_append, List.flatten_cons, hparts, hpadding, List.append_assoc, padded]
  have hsize : 0 < min (max bufferSize 1) reply.body.length := by omega
  refine ⟨⟨pre, reply.padded protocol, by rw [hlength, length_padded]⟩, _, rfl, ?_,
    hpieces _ hsize⟩
  rw [NativeReply.pieces, dif_neg hok, hpre]

/-- `write_encrypted_reply` writes the pieces. -/
theorem writeEncryptedReply_eq (w : Sink) (encrypt : AesCtr) (protocol : Protocol)
    (bufferSize : Nat) {pieces : List Bytes} (h : reply.pieces protocol bufferSize = .ok pieces) :
    writeEncryptedReply P w encrypt reply protocol bufferSize = writePieces P w encrypt pieces := by
  rw [NativeReply.pieces] at h
  rw [writeEncryptedReply]
  split at h
  · cases h
  · next hok =>
    rw [dif_neg hok]
    split at h
    · cases h
    · dsimp only at h ⊢
      rw [Except.ok.inj h]

/-- A reply that fits is written as one packet of its padded body, encrypted. -/
theorem Fits.write (h : reply.Fits) (protocol : Protocol) (bufferSize : Nat) {w : Sink}
    (hw : ∀ n ∈ w.grants, 0 < n) (encrypt : AesCtr) :
    ∃ (packet : Packet protocol) (grants : List Nat), packet.payload = reply.padded protocol ∧
      (∀ n ∈ grants, 0 < n) ∧ writeEncryptedReply P w encrypt reply protocol bufferSize =
        (.ok (), ⟨w.bytes ++ encrypt.output P packet.bytes, grants⟩,
          encrypt.advance packet.bytes.length) := by
  obtain ⟨packet, pieces, hpayload, hpieces, hbytes⟩ := h.pieces protocol bufferSize
  obtain ⟨grants, hgrants, hrun⟩ := writePieces_ok (P := P) hw encrypt pieces
  refine ⟨packet, grants, hpayload, hgrants, ?_⟩
  rw [writeEncryptedReply_eq w encrypt protocol bufferSize hpieces, hrun, hbytes]

end NativeReply

/-- A sequence of replies is written as a sequence of packets, encrypted. -/
theorem writeReplies_ok (protocol : Protocol) (bufferSize : Nat) {replies : List NativeReply}
    (h : ∀ reply ∈ replies, reply.Fits) {w : Sink} (hw : ∀ n ∈ w.grants, 0 < n)
    (encrypt : AesCtr) :
    ∃ (packets : List (Packet protocol)) (grants : List Nat),
      packets.map Packet.payload = replies.map (·.padded protocol) ∧
      writeReplies P protocol bufferSize w encrypt replies =
        (.ok (), ⟨w.bytes ++ encrypt.output P (packets.flatMap Packet.bytes), grants⟩,
          encrypt.advance (packets.flatMap Packet.bytes).length) := by
  induction replies generalizing w encrypt with
  | nil =>
    refine ⟨[], w.grants, rfl, ?_⟩
    simp [writeReplies, AesCtr.output, AesCtr.applyKeystream, AesCtr.advance]
  | cons reply replies ih =>
    obtain ⟨packet, grants₁, hpacket, hgrants₁, hwrite⟩ :=
      (h reply (List.mem_cons_self ..)).write (P := P) protocol bufferSize hw encrypt
    obtain ⟨packets, grants, hpackets, hrest⟩ :=
      ih (fun reply hr => h reply (List.mem_cons_of_mem _ hr))
        (w := ⟨w.bytes ++ encrypt.output P packet.bytes, grants₁⟩) hgrants₁
        (encrypt.advance packet.bytes.length)
    refine ⟨packet :: packets, grants, by simp [hpacket, hpackets], ?_⟩
    simp only [writeReplies, hwrite, hrest, List.flatMap_cons, AesCtr.output_append,
      List.append_assoc, AesCtr.advance_advance, List.length_append]

/-! ## What is read -/

/-- Reads that make progress fill a buffer from the front of the stream. -/
theorem readExactActive_append (front rest : Bytes) (grants : List Nat) :
    ∃ grants', readExactActive ⟨front ++ rest, grants⟩ front.length =
      .ok (front, ⟨rest, grants'⟩) := by
  induction hn : front.length using Nat.strongRecOn generalizing front grants with
  | ind n ih =>
    subst hn
    rw [readExactActive]
    by_cases hnil : front = []
    · subst hnil
      exact ⟨grants, rfl⟩
    · have hpos := List.length_pos_iff.mpr hnil
      obtain ⟨part, back, hfront, hpart, hread⟩ := Source.read_front _ rest grants hpos
        (Nat.le_refl front.length)
      have hne : part ≠ [] := List.length_pos_iff.mp hpart
      have hlen := congrArg List.length hfront
      rw [List.length_append] at hlen
      obtain ⟨grants', hrest⟩ := ih back.length (by omega) back grants.tail rfl
      have hback : front.length - part.length = back.length := by omega
      refine ⟨grants', ?_⟩
      rw [if_neg (Nat.ne_of_gt hpos), dif_neg (by rwa [hread]), hread]
      simp only [hback, hrest, bind, Except.bind]
      rw [← hfront]

/-- A whole native header at the front of the stream is read as it is. -/
theorem readNativeHeader_output {protocol : Protocol} {header : Bytes} (hne : header ≠ [])
    (hlen : headerLen (header.headD 0) protocol = header.length) (rest : Bytes)
    (grants : List Nat) (decrypt : AesCtr) :
    ∃ grants', readNativeHeader P protocol ⟨decrypt.output P (header ++ rest), grants⟩ decrypt =
      .ok (header, ⟨(decrypt.advance header.length).output P rest, grants'⟩,
        decrypt.advance header.length) := by
  obtain ⟨first, more, rfl⟩ := List.exists_cons_of_ne_nil hne
  have hstream : decrypt.output P (first :: more ++ rest) = decrypt.output P [first] ++
      ((decrypt.advance 1).output P more ++
        (decrypt.advance (more.length + 1)).output P rest) := by
    have happ := decrypt.output_append (P := P) [first] (more ++ rest)
    have hmore := (decrypt.advance 1).output_append (P := P) more rest
    rw [AesCtr.advance_advance, Nat.add_comm 1] at hmore
    rwa [List.length_singleton, hmore] at happ
  obtain ⟨grants₁, hfirst⟩ := readExactActive_append (decrypt.output P [first])
    ((decrypt.advance 1).output P more ++ (decrypt.advance (more.length + 1)).output P rest) grants
  rw [AesCtr.length_output, List.length_singleton] at hfirst
  rw [hstream]
  rw [List.headD_cons, List.length_cons] at hlen
  by_cases h1 : headerLen first protocol > 1
  · obtain ⟨grants₂, hmore⟩ := readExactActive_append ((decrypt.advance 1).output P more)
      ((decrypt.advance (more.length + 1)).output P rest) grants₁
    rw [AesCtr.length_output] at hmore
    have hsize : headerLen first protocol - 1 = more.length := by omega
    refine ⟨grants₂, ?_⟩
    simp only [readNativeHeader, hfirst, bind, Except.bind, AesCtr.applyKeystream_eq,
      AesCtr.output_output, List.headD_cons, h1, if_true, hsize, hmore, AesCtr.length_output,
      List.length_singleton, AesCtr.advance_advance, Nat.add_comm 1]
    rfl
  · have hnil : more = [] := List.length_eq_zero_iff.mp (by omega)
    subst hnil
    refine ⟨grants₁, ?_⟩
    simp only [readNativeHeader, hfirst, bind, Except.bind, AesCtr.applyKeystream_eq,
      AesCtr.output_output, List.headD_cons, h1, if_false, AesCtr.length_output]
    rfl

variable {reserve : Nat → Except IoError κ}

/-- A packet within the bounds is read back as its payload without padding. -/
theorem readPacket_output {protocol : Protocol} (packet : Packet protocol)
    (hreserve : ∀ n, ∃ capacity, reserve n = .ok capacity)
    (hleast : 24 ≤ packet.payload.length)
    (hmost : packet.payload.length ≤
      (if protocol = .paddedIntermediate then maxPaddedPacket else maxPacket))
    {body : Bytes} (hbody : unpad protocol packet.payload = .ok body)
    (hfits : body.length ≤ maxPacket) (hwords : body.length % 4 = 0) (rest : Bytes)
    (grants : List Nat) (decrypt : AesCtr) :
    ∃ capacity grants', readPacket P reserve protocol
        ⟨decrypt.output P (packet.bytes ++ rest), grants⟩ decrypt =
      .ok ((body, capacity), ⟨(decrypt.advance packet.bytes.length).output P rest, grants'⟩,
        decrypt.advance packet.bytes.length) := by
  obtain ⟨grants₁, hheader⟩ := readNativeHeader_output (P := P) packet.header_ne_nil
    packet.headerLen_eq (packet.payload ++ rest) grants decrypt
  obtain ⟨capacity, hcapacity⟩ := hreserve packet.payload.length
  obtain ⟨grants₂, hpayload⟩ := readExactActive_append
    ((decrypt.advance packet.header.length).output P packet.payload)
    ((decrypt.advance (packet.header.length + packet.payload.length)).output P rest) grants₁
  rw [AesCtr.length_output] at hpayload
  have hstream : (decrypt.advance packet.header.length).output P (packet.payload ++ rest) =
      (decrypt.advance packet.header.length).output P packet.payload ++
        (decrypt.advance (packet.header.length + packet.payload.length)).output P rest := by
    rw [AesCtr.output_append, AesCtr.advance_advance]
  have hbounds : ¬(packet.payload.length < 24 ∨ packet.payload.length >
      (if protocol = .paddedIntermediate then maxPaddedPacket else maxPacket)) := by
    rw [not_or, Nat.not_lt, Nat.not_lt]
    exact ⟨hleast, hmost⟩
  have hdone : ¬(body.length > maxPacket ∨ body.length % 4 ≠ 0) := by omega
  refine ⟨capacity, grants₂, ?_⟩
  have hwire : packet.bytes ++ rest = packet.header ++ (packet.payload ++ rest) := by
    rw [Packet.bytes, List.append_assoc]
  rw [hwire, packet.length_bytes]
  simp only [readPacket, hheader, bind, Except.bind, packet.announced, hbounds, if_false,
    hcapacity, hstream, hpayload, AesCtr.applyKeystream_eq, AesCtr.output_output,
    AesCtr.length_output, hbody, hdone, AesCtr.advance_advance]

/-! ## Padding -/

/-- The shape of an MTProto packet: an encrypted one has whole blocks behind its 24-byte
head, and a plaintext one says its own length. -/
structure MtprotoShaped (body : Bytes) : Prop where
  least : 24 ≤ body.length
  shape : body.take 8 ≠ List.replicate 8 0 ∧ body.length % 16 = 8 ∨
    body.take 8 = List.replicate 8 0 ∧ ofLe (slice body 16 20) = body.length - 20

/-- The most padding that can be told from a packet of this shape. -/
def maxPadding (body : Bytes) : Nat :=
  if body.take 8 = List.replicate 8 0 then maxPlainPadding else maxEncryptedPadding

/-- Padding is taken off a shaped packet again. -/
theorem stripPaddedBody_append {body padding : Bytes} (h : MtprotoShaped body)
    (hpadding : padding.length ≤ maxPadding body) :
    stripPaddedBody (body ++ padding) = .ok body := by
  have hleast := h.least
  have hhead : (body ++ padding).take 8 = body.take 8 :=
    List.take_append_of_le_length (by omega)
  have hslice : slice (body ++ padding) 16 20 = slice body 16 20 := by
    simp only [slice, ← List.drop_take]
    rw [List.take_append_of_le_length (by omega)]
  have htake : (body ++ padding).take body.length = body := List.take_left' rfl
  rw [stripPaddedBody, if_neg (by rw [List.length_append]; omega)]
  simp only [hhead, hslice, List.length_append]
  rw [if_neg (by omega)]
  rcases h.shape with ⟨hkey, hblocks⟩ | ⟨hkey, hlength⟩
  · rw [maxPadding, if_neg hkey] at hpadding
    have hlen : 24 + (body.length + padding.length - 24) / 16 * 16 = body.length := by
      simp only [maxEncryptedPadding] at hpadding
      omega
    simp only [hkey, if_false, hlen]
    rw [if_neg (by omega), htake]
  · rw [maxPadding, if_pos hkey] at hpadding
    have hlen : 20 + ofLe (slice body 16 20) = body.length := by omega
    simp only [hkey, if_true, hlen]
    rw [if_neg (by omega), htake]

/-- A front of at least 24 bytes has the key and the length field of the whole. -/
theorem take_fields {padded : Bytes} {n : Nat} (hn : 24 ≤ n) (hle : n ≤ padded.length) :
    (padded.take n).take 8 = padded.take 8 ∧ slice (padded.take n) 16 20 = slice padded 16 20 ∧
      (padded.take n).length = n := by
  refine ⟨?_, ?_, List.length_take_of_le hle⟩
  · rw [List.take_take, Nat.min_eq_left (by omega)]
  · simp only [slice, ← List.drop_take, List.take_take, Nat.min_eq_left (show 16 + 4 ≤ n by omega)]

/-- What is left without padding is a shaped packet. -/
theorem stripPaddedBody_shaped {padded body : Bytes} (h : stripPaddedBody padded = .ok body) :
    MtprotoShaped body := by
  unfold stripPaddedBody at h
  split at h
  · cases h
  next hleast =>
  by_cases hkey : padded.take 8 = List.replicate 8 0
  · simp only [hkey, if_true] at h
    rw [if_neg (by omega)] at h
    split at h
    · cases h
    next hbounds =>
    rw [not_or, not_or, Nat.not_lt, Nat.not_lt, Nat.not_lt] at hbounds
    obtain ⟨htake, hslice, hlen⟩ := take_fields hbounds.1 hbounds.2.1
    obtain rfl := Except.ok.inj h
    refine ⟨by omega, .inr ⟨htake.trans hkey, ?_⟩⟩
    rw [hslice, hlen]
    omega
  · simp only [hkey, if_false] at h
    rw [if_neg (by omega)] at h
    split at h
    · cases h
    next hbounds =>
    rw [not_or, not_or, Nat.not_lt, Nat.not_lt, Nat.not_lt] at hbounds
    obtain ⟨htake, _, hlen⟩ := take_fields hbounds.1 hbounds.2.1
    obtain rfl := Except.ok.inj h
    refine ⟨by omega, .inl ⟨by rwa [htake], ?_⟩⟩
    rw [hlen]
    omega

/-- Nothing is taken off twice. -/
theorem stripPaddedBody_idempotent {padded body : Bytes} (h : stripPaddedBody padded = .ok body) :
    stripPaddedBody body = .ok body := by
  have hagain : stripPaddedBody (body ++ []) = .ok body :=
    stripPaddedBody_append (stripPaddedBody_shaped h) (Nat.zero_le _)
  rwa [List.append_nil] at hagain

/-! ## Round trip -/

/-- A reply that `read_packet` takes back: no shorter than an MTProto head, and shaped like a
packet where it has padding. -/
structure NativeReply.Readable (protocol : Protocol) (reply : NativeReply) : Prop where
  least : 24 ≤ reply.body.length
  shaped : protocol = .paddedIntermediate → MtprotoShaped reply.body

/-- The padding drawn for a reply comes off again. -/
theorem NativeReply.Readable.unpad_padded {protocol : Protocol} {reply : NativeReply}
    (h : reply.Readable protocol) : unpad protocol (reply.padded protocol) = .ok reply.body := by
  have hle := reply.paddingLength_le protocol
  unfold unpad
  split
  · next hp =>
    apply stripPaddedBody_append (h.shaped hp)
    rw [List.length_take_of_le (by rw [reply.padding.property]; exact hle), maxPadding]
    split
    · exact Nat.le_trans hle (by decide)
    · exact hle
  · next hp => simp [padded, paddingLength, hp]

/-- Packets of readable replies are read back as their bodies. -/
theorem readPackets_replies {protocol : Protocol} {reserve : Nat → Except IoError κ}
    (hreserve : ∀ n, ∃ capacity, reserve n = .ok capacity) {replies : List NativeReply}
    (hfits : ∀ reply ∈ replies, reply.Fits) (hread : ∀ reply ∈ replies, reply.Readable protocol)
    {packets : List (Packet protocol)}
    (hpackets : packets.map Packet.payload = replies.map (·.padded protocol)) (grants : List Nat)
    (decrypt : AesCtr) :
    ∃ grants', readPackets P reserve protocol replies.length
        ⟨decrypt.output P (packets.flatMap Packet.bytes), grants⟩ decrypt =
      .ok (replies.map NativeReply.body, ⟨[], grants'⟩,
        decrypt.advance (packets.flatMap Packet.bytes).length) := by
  induction replies generalizing packets grants decrypt with
  | nil =>
    obtain rfl := List.map_eq_nil_iff.mp hpackets
    exact ⟨grants, rfl⟩
  | cons reply replies ih =>
    obtain ⟨packet, packets, rfl, hpayload, hrest⟩ := List.map_eq_cons_iff.mp hpackets
    have hf := hfits reply (List.mem_cons_self ..)
    have hr := hread reply (List.mem_cons_self ..)
    have hlen := reply.length_padded protocol
    have hpad := reply.paddingLength_le protocol
    have hleast := hr.least
    have hbound := hf.bounded
    have hmost : packet.payload.length ≤
        (if protocol = .paddedIntermediate then maxPaddedPacket else maxPacket) := by
      rw [hpayload, hlen]
      split
      · exact Nat.add_le_add hbound (Nat.le_trans hpad (by decide))
      · next hp =>
        have hnone : reply.paddingLength protocol = 0 := if_neg hp
        omega
    obtain ⟨capacity, grants₁, hpacket⟩ := readPacket_output (P := P) packet hreserve
      (by rw [hpayload, hlen]; omega) hmost (by rw [hpayload]; exact hr.unpad_padded) hbound
      hf.words (packets.flatMap Packet.bytes) grants decrypt
    obtain ⟨grants₂, hnext⟩ := ih (fun reply h => hfits reply (List.mem_cons_of_mem _ h))
      (fun reply h => hread reply (List.mem_cons_of_mem _ h)) hrest grants₁
      (decrypt.advance packet.bytes.length)
    refine ⟨grants₂, ?_⟩
    simp only [List.length_cons, readPackets, List.flatMap_cons, hpacket, bind, Except.bind,
      hnext, List.map_cons, AesCtr.advance_advance, List.length_append]

/-- What the bytes written for some replies are to the other side, which holds the same
stream. -/
structure NativeRoundTrip (P : Primitives) (protocol : Protocol) (replies : List NativeReply)
    (stream : AesCtr) (sent : Bytes) : Prop where
  /-- Decrypted, they are cut by their headers alone into the bodies with their padding. -/
  delimited : splitPackets protocol sent.length (stream.output P sent) =
    .ok (replies.map (·.padded protocol))
  padding : ∀ reply ∈ replies, ∃ padding : Bytes,
    reply.padded protocol = reply.body ++ padding ∧ padding.length ≤ 15
  /-- `read_packet` returns the bodies when its reservations succeed. -/
  read : (∀ reply ∈ replies, reply.Readable protocol) →
    ∀ (κ : Type) (reserve : Nat → Except IoError κ), (∀ n, ∃ capacity, reserve n = .ok capacity) →
      ∀ grants, ∃ grants', readPackets P reserve protocol replies.length ⟨sent, grants⟩ stream =
        .ok (replies.map NativeReply.body, ⟨[], grants'⟩, stream.advance sent.length)
  /-- Padding is taken off once, and any that the shape of the packet can carry. -/
  idempotent : ∀ padded body : Bytes, stripPaddedBody padded = .ok body →
    stripPaddedBody body = .ok body
  inverts : ∀ body padding : Bytes, MtprotoShaped body → padding.length ≤ maxPadding body →
    stripPaddedBody (body ++ padding) = .ok body

variable (P) in
/-- Replies of any parts, written in any short writes, are written whole and read back. -/
theorem nativeRoundTrip (protocol : Protocol) (bufferSize : Nat) {replies : List NativeReply}
    (hfits : ∀ reply ∈ replies, reply.Fits) {w : Sink} (hw : ∀ n ∈ w.grants, 0 < n)
    (stream : AesCtr) :
    ∃ sent grants, writeReplies P protocol bufferSize w stream replies =
        (.ok (), ⟨w.bytes ++ sent, grants⟩, stream.advance sent.length) ∧
      NativeRoundTrip P protocol replies stream sent := by
  obtain ⟨packets, grants, hpackets, hwrite⟩ :=
    writeReplies_ok (P := P) protocol bufferSize hfits hw stream
  refine ⟨_, grants, by rw [hwrite, AesCtr.length_output], ?_⟩
  constructor
  case delimited =>
    rw [AesCtr.output_output, AesCtr.length_output, splitPackets_packets packets (Nat.le_refl _),
      hpackets]
  case padding =>
    intro reply _
    refine ⟨_, rfl, ?_⟩
    exact Nat.le_trans (List.length_take_le ..) (reply.paddingLength_le protocol)
  case read =>
    intro hread κ reserve hreserve grants
    rw [AesCtr.length_output]
    exact readPackets_replies hreserve hfits hread hpackets grants stream
  case idempotent => exact fun _ _ h => stripPaddedBody_idempotent h
  case inverts => exact fun _ _ h hpadding => stripPaddedBody_append h hpadding

/-- A transport error in two parts and a plaintext packet, written a few bytes at a time. -/
theorem nativeRoundTrip_padded :
    ∃ sent grants, writeReplies repeatingKey .paddedIntermediate 0 ⟨[], [1, 2]⟩
      (cipher [1, 2, 3] [])
        [⟨[[0x6c, 0xfe], [0xff, 0xff]], 3, ⟨List.replicate 15 9, rfl⟩⟩,
          ⟨[List.replicate 16 0, [4, 0, 0, 0], [5, 6, 7, 8]], 0xff, ⟨List.replicate 15 9, rfl⟩⟩] =
        (.ok (), ⟨sent, grants⟩, (cipher [1, 2, 3] []).advance sent.length) ∧
      splitPackets .paddedIntermediate sent.length
        ((cipher [1, 2, 3] []).output repeatingKey sent) =
        .ok [[0x6c, 0xfe, 0xff, 0xff, 9, 9, 9],
          List.replicate 16 0 ++ [4, 0, 0, 0] ++ [5, 6, 7, 8] ++ List.replicate 15 9] := by
  have hfits : ∀ reply ∈ ([⟨[[0x6c, 0xfe], [0xff, 0xff]], 3, ⟨List.replicate 15 9, rfl⟩⟩,
      ⟨[List.replicate 16 0, [4, 0, 0, 0], [5, 6, 7, 8]], 0xff, ⟨List.replicate 15 9, rfl⟩⟩] :
        List NativeReply), reply.Fits := by
    intro reply hreply
    simp only [List.mem_cons, List.not_mem_nil, or_false] at hreply
    rcases hreply with rfl | rfl
    · exact ⟨by decide, by decide, by decide⟩
    · exact ⟨by decide, by decide, by decide⟩
  obtain ⟨sent, grants, hwrite, htrip⟩ := nativeRoundTrip repeatingKey .paddedIntermediate 0
    hfits (w := ⟨[], [1, 2]⟩) (by decide) (cipher [1, 2, 3] [])
  exact ⟨sent, grants, hwrite, htrip.delimited⟩

end TgWsProxy.H2
