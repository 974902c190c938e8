import TgWsProxy.Core.LittleEndian
import TgWsProxy.Crypto

/-!
# Transport packet headers

`header_len` and `packet_length` of `framing.rs`. A `Packet` is a header that
announces exactly the payload behind it, so a plaintext stream that is a
concatenation of packets is a list of such values.
-/

namespace TgWsProxy

open TgWsProxy.Core

/-- Largest payload a transport header may announce. -/
def maxPacketPayload : Nat := 16 * 1024 * 1024

/-- How many bytes the header that begins with `first` has. -/
def headerLen (first : UInt8) (protocol : Protocol) : Nat :=
  if protocol = .abridged ∧ first &&& 0x7f ≠ 0x7f then 1 else 4

/-- The payload length in a whole header of `headerSize` bytes. -/
def headerPayload (header : Bytes) (headerSize : Nat) (protocol : Protocol) : Nat :=
  if protocol = .abridged then
    if headerSize = 1 then (header.headD 0 &&& 0x7f).toNat * 4 else ofLe (slice header 1 4) * 4
  -- the top bit asks for a quick acknowledgement and does not count
  else ofLe (slice header 0 4) &&& 0x7fffffff

/-- Header and payload length, or nothing for a partial header. -/
def packetLength (header : Bytes) (protocol : Protocol) :
    Except IoError (Option (Nat × Nat)) :=
  match header with
  | [] => .ok none
  | first :: _ =>
    let headerSize := headerLen first protocol
    if header.length < headerSize then .ok none
    else
      let payload := headerPayload header headerSize protocol
      if payload = 0 ∨ payload > maxPacketPayload then
        .error (invalid "invalid MTProto packet length")
      else .ok (some (headerSize, payload))

/-- No header is empty. -/
theorem headerLen_pos (first : UInt8) (protocol : Protocol) : 0 < headerLen first protocol := by
  unfold headerLen
  split <;> decide

private theorem headerLen_le (first : UInt8) (protocol : Protocol) :
    headerLen first protocol ≤ 4 := by
  unfold headerLen
  split <;> decide

/-- A header is one byte long in the abridged framing only, and else four. -/
theorem headerLen_cases (first : UInt8) (protocol : Protocol) :
    protocol = .abridged ∧ headerLen first protocol = 1 ∨ headerLen first protocol = 4 := by
  unfold headerLen
  split
  · next h => exact .inl ⟨h.1, rfl⟩
  · exact .inr rfl

/-- A verdict is reached over a whole header only. -/
theorem headerLen_le_of_packetLength {header : Bytes} {protocol : Protocol}
    (h : packetLength header protocol ≠ .ok none) :
    header ≠ [] ∧ headerLen (header.headD 0) protocol ≤ header.length := by
  cases header with
  | nil => exact absurd rfl h
  | cons first more =>
    refine ⟨by simp, ?_⟩
    by_contra hlt
    have hlt : (first :: more).length < headerLen first protocol := by
      simpa using hlt
    exact h (by simp only [packetLength, hlt, if_true])

/-- What a whole header says. -/
theorem packetLength_of_le {header : Bytes} {protocol : Protocol} (hne : header ≠ [])
    (h : headerLen (header.headD 0) protocol ≤ header.length) :
    packetLength header protocol =
      if headerPayload header (headerLen (header.headD 0) protocol) protocol = 0 ∨
          headerPayload header (headerLen (header.headD 0) protocol) protocol >
            maxPacketPayload then
        .error (invalid "invalid MTProto packet length")
      else .ok (some (headerLen (header.headD 0) protocol,
        headerPayload header (headerLen (header.headD 0) protocol) protocol)) := by
  obtain ⟨first, more, rfl⟩ := List.exists_cons_of_ne_nil hne
  rw [packetLength]
  exact if_neg (Nat.not_lt.mpr h)

/-- Bytes behind the header do not change its payload length. -/
theorem headerPayload_append {header : Bytes} {protocol : Protocol} (hne : header ≠ [])
    (h : headerLen (header.headD 0) protocol ≤ header.length) (rest : Bytes) :
    headerPayload (header ++ rest) (headerLen (header.headD 0) protocol) protocol =
      headerPayload header (headerLen (header.headD 0) protocol) protocol := by
  obtain ⟨first, more, rfl⟩ := List.exists_cons_of_ne_nil hne
  have hslice (i : Nat) (h4 : 4 ≤ (first :: more).length) :
      slice (first :: (more ++ rest)) i 4 = slice (first :: more) i 4 := by
    simp only [slice, ← List.drop_take]
    rw [← List.cons_append, List.take_append_of_le_length h4]
  rw [List.headD_cons] at h ⊢
  rcases headerLen_cases first protocol with ⟨rfl, h1⟩ | h4
  · simp only [headerPayload, List.headD_cons, List.cons_append, h1, if_true]
  · rw [h4] at h ⊢
    simp only [headerPayload, List.cons_append, List.headD_cons, hslice _ h]

/-- Bytes behind the header do not change what it says. -/
theorem packetLength_append {header : Bytes} {protocol : Protocol} (hne : header ≠ [])
    (h : headerLen (header.headD 0) protocol ≤ header.length) (rest : Bytes) :
    packetLength (header ++ rest) protocol = packetLength header protocol := by
  have hhead : (header ++ rest).headD 0 = header.headD 0 := by
    obtain ⟨first, more, rfl⟩ := List.exists_cons_of_ne_nil hne
    rfl
  have hlong : headerLen ((header ++ rest).headD 0) protocol ≤ (header ++ rest).length := by
    rw [hhead, List.length_append]
    omega
  rw [packetLength_of_le (by simp [hne]) hlong, packetLength_of_le hne h, hhead,
    headerPayload_append hne h]

/-- An accepted header has the length of its kind and announces a bounded payload. -/
theorem packetLength_eq_some {header : Bytes} {protocol : Protocol} {headerSize payload : Nat}
    (h : packetLength header protocol = .ok (some (headerSize, payload))) :
    headerSize = headerLen (header.headD 0) protocol ∧ 0 < payload ∧
      payload ≤ maxPacketPayload := by
  obtain ⟨hne, hlen⟩ := headerLen_le_of_packetLength
    (show packetLength header protocol ≠ .ok none by simp [h])
  rw [packetLength_of_le hne hlen] at h
  split at h
  · cases h
  · next hp =>
    cases h
    exact ⟨rfl, by omega, by omega⟩

/-! ## Headers that are written -/

/-- A four-byte length is the header of a packet of that length. -/
theorem packetLength_toLe {protocol : Protocol} (hp : protocol ≠ .abridged) {n : Nat}
    (hpos : 0 < n) (hn : n ≤ maxPacketPayload) :
    packetLength (toLe 4 n) protocol = .ok (some (4, n)) := by
  have hlen (first : UInt8) : headerLen first protocol = 4 := by
    simp [headerLen, hp]
  have hmax : maxPacketPayload = 16777216 := rfl
  have hslice : slice (toLe 4 n) 0 4 = toLe 4 n := by
    simp [slice, List.take_of_length_le]
  have hpayload : headerPayload (toLe 4 n) 4 protocol = n := by
    rw [headerPayload, if_neg hp, hslice, ofLe_toLe (by omega)]
    exact Nat.and_two_pow_sub_one_of_lt_two_pow (n := 31) (by omega)
  rw [packetLength_of_le (by simp [toLe]) (by simp [hlen]), hlen, hpayload, if_neg (by omega)]

private theorem short_words_bits : ∀ v : BitVec 8, v < 127#8 →
    v &&& 0x7f#8 = v ∧ v &&& 0x7f#8 ≠ 0x7f#8 := by
  decide

/-- A small number of words is the one-byte header of an abridged packet. -/
theorem packetLength_words {words : Nat} (hpos : 0 < words) (hw : words < 0x7f) :
    packetLength [UInt8.ofNat words] .abridged = .ok (some (1, words * 4)) := by
  have hnat : (UInt8.ofNat words).toNat = words := by
    rw [UInt8.toNat_ofNat']
    omega
  have hlt : UInt8.ofNat words < 127 := UInt8.lt_iff_toNat_lt.mpr (by rw [hnat]; exact hw)
  obtain ⟨hand, hne⟩ := short_words_bits (UInt8.ofNat words).toBitVec hlt
  have hand : UInt8.ofNat words &&& 0x7f = UInt8.ofNat words := UInt8.toBitVec_inj.mp hand
  have hne : UInt8.ofNat words &&& 0x7f ≠ 0x7f := fun h => hne (congrArg UInt8.toBitVec h)
  have hlen : headerLen (UInt8.ofNat words) .abridged = 1 := by
    simp only [headerLen, true_and, hne, ne_eq, not_false_eq_true, if_true]
  have hmax : maxPacketPayload = 16777216 := rfl
  have hpayload : headerPayload [UInt8.ofNat words] 1 .abridged = words * 4 := by
    simp only [headerPayload, if_true, List.headD_cons, hand, hnat]
  rw [packetLength_of_le (by simp) (by simp [hlen]), List.headD_cons, hlen, hpayload,
    if_neg (by omega)]

/-- Any number of words within the bound has a four-byte header. -/
theorem packetLength_words_extended {words : Nat} (hpos : 0 < words)
    (hw : words * 4 ≤ maxPacketPayload) :
    packetLength (0x7f :: toLe 3 words) .abridged = .ok (some (4, words * 4)) := by
  have hlen : headerLen 0x7f .abridged = 4 := by decide
  have hmax : maxPacketPayload = 16777216 := rfl
  have hslice : slice (0x7f :: toLe 3 words) 1 4 = toLe 3 words := by
    simp [slice, List.take_of_length_le]
  have hpayload : headerPayload (0x7f :: toLe 3 words) 4 .abridged = words * 4 := by
    rw [headerPayload, if_pos rfl, if_neg (by decide), hslice, ofLe_toLe (by omega)]
  rw [packetLength_of_le (by simp) (by simp [hlen]), List.headD_cons, hlen, hpayload,
    if_neg (by omega)]

/-! ## Packets -/

/-- A transport packet: a header that announces exactly the payload behind it. -/
structure Packet (protocol : Protocol) where
  header : Bytes
  payload : Bytes
  announced : packetLength header protocol = .ok (some (header.length, payload.length))

namespace Packet

variable {protocol : Protocol} (packet : Packet protocol)

/-- The packet on the wire. -/
def bytes : Bytes := packet.header ++ packet.payload

/-- A packet has a header. -/
theorem header_ne_nil : packet.header ≠ [] :=
  (headerLen_le_of_packetLength
    (show packetLength packet.header protocol ≠ .ok none by simp [packet.announced])).1

/-- The first byte of a header tells its length. -/
theorem headerLen_eq : headerLen (packet.header.headD 0) protocol = packet.header.length :=
  (packetLength_eq_some packet.announced).1.symm

/-- A packet is its header and its payload. -/
theorem length_bytes : packet.bytes.length = packet.header.length + packet.payload.length := by
  simp [bytes]

/-- A header has at most four bytes. -/
theorem length_header_le : packet.header.length ≤ 4 :=
  packet.headerLen_eq ▸ headerLen_le ..

/-- A payload keeps its limit. -/
theorem length_payload_le : packet.payload.length ≤ maxPacketPayload :=
  (packetLength_eq_some packet.announced).2.2

private theorem length_bytes_pos : 0 < packet.bytes.length := by
  rw [packet.length_bytes, ← packet.headerLen_eq]
  exact Nat.lt_of_lt_of_le (headerLen_pos ..) (Nat.le_add_right ..)

end Packet

/-- Cut a plaintext stream into payloads by its headers alone. No packet is empty, so `n`
bounds their number. -/
def splitPackets (protocol : Protocol) (n : Nat) (stream : Bytes) :
    Except IoError (List Bytes) :=
  if stream = [] then .ok []
  else
    match n with
    | 0 => .error (invalid "too many packets")
    | n + 1 => do
      let announced ← packetLength stream protocol
      match announced with
      | none => .error (invalid "incomplete header")
      | some (headerSize, payload) =>
        if stream.length < headerSize + payload then .error (invalid "incomplete packet")
        else do
          let rest ← splitPackets protocol n (stream.drop (headerSize + payload))
          .ok (slice stream headerSize (headerSize + payload) :: rest)

/-- A stream of packets is cut into just these packets. -/
theorem splitPackets_packets {protocol : Protocol} (packets : List (Packet protocol)) {n : Nat}
    (hn : (packets.flatMap Packet.bytes).length ≤ n) :
    splitPackets protocol n (packets.flatMap Packet.bytes) = .ok (packets.map Packet.payload) := by
  induction packets generalizing n with
  | nil => rw [splitPackets.eq_def]; rfl
  | cons packet packets ih =>
    have hpos := packet.length_bytes_pos
    rw [List.flatMap_cons] at hn ⊢
    generalize hrest : packets.flatMap Packet.bytes = rest at *
    have hlen := packet.length_bytes
    rw [List.length_append] at hn
    obtain ⟨n, rfl⟩ : ∃ m, n = m + 1 := ⟨n - 1, by omega⟩
    have hne : packet.bytes ++ rest ≠ [] := by
      have hbytes : packet.bytes ≠ [] := List.length_pos_iff.mp hpos
      simp [hbytes]
    have hlong : headerLen (packet.header.headD 0) protocol ≤ packet.header.length :=
      Nat.le_of_eq packet.headerLen_eq
    have hannounced : packetLength (packet.bytes ++ rest) protocol =
        .ok (some (packet.header.length, packet.payload.length)) := by
      rw [Packet.bytes, List.append_assoc, packetLength_append packet.header_ne_nil hlong,
        packet.announced]
    have hfits : ¬(packet.bytes ++ rest).length <
        packet.header.length + packet.payload.length := by
      rw [List.length_append]
      omega
    have hdrop : (packet.bytes ++ rest).drop (packet.header.length + packet.payload.length) =
        rest := List.drop_left' hlen
    have hslice : slice (packet.bytes ++ rest) packet.header.length
        (packet.header.length + packet.payload.length) = packet.payload := by
      rw [slice, Packet.bytes, List.append_assoc, List.drop_left' rfl, Nat.add_sub_cancel_left]
      exact List.take_left' rfl
    have hnext := ih (show rest.length ≤ n by omega)
    rw [splitPackets.eq_def, if_neg hne]
    simp only [hannounced, hfits, if_false, hdrop, hnext, hslice, bind, Except.bind,
      List.map_cons]

end TgWsProxy
