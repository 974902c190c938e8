import TgWsProxy.Core.Keystream
import TgWsProxy.Io

/-!
# Obfuscated transport keys

AES-256 in counter mode is a keystream fixed by key and initial counter and read
by position; SHA-256 is any function. Everything else follows `crypto.rs`: the
client handshake is parsed under a key bound to the secret, the relay handshake
is drawn until it is not reserved, and the four stream states of a connection
start where their handshakes left them.
-/

namespace TgWsProxy

open TgWsProxy.Core

/-- The two primitives: the counter-mode keystream of a key and an iv, and the hash. -/
structure Primitives where
  keystream : Bytes → Bytes → Nat → UInt8
  sha256 : Bytes → Bytes

/-- A toy instance of the primitives: the keystream repeats the key. -/
def repeatingKey : Primitives := ⟨fun key _ i => key.getD (i % 32) 0, fun b => b.take 32⟩

/-- The transport framings a client may ask for. -/
inductive Protocol
  | abridged
  | intermediate
  | paddedIntermediate
  deriving DecidableEq, Repr

/-- The four bytes that announce a framing. -/
def Protocol.tag : Protocol → Bytes
  | abridged => List.replicate 4 0xef
  | intermediate => List.replicate 4 0xee
  | paddedIntermediate => List.replicate 4 0xdd

/-- The match on the decrypted tag in `parse_client_handshake`. -/
def Protocol.ofTag (tag : Bytes) : Option Protocol :=
  if tag = [0xef, 0xef, 0xef, 0xef] then some abridged
  else if tag = [0xee, 0xee, 0xee, 0xee] then some intermediate
  else if tag = [0xdd, 0xdd, 0xdd, 0xdd] then some paddedIntermediate
  else none

@[simp] theorem Protocol.ofTag_tag (p : Protocol) : ofTag p.tag = some p := by
  cases p <;> decide

@[simp] theorem Protocol.length_tag (p : Protocol) : p.tag.length = 4 := by
  cases p <;> rfl

/-- `i16::to_le_bytes`. -/
def toLeBytes (x : Int16) : Bytes :=
  [UInt8.ofNat x.toUInt16.toNat, UInt8.ofNat (x.toUInt16.toNat / 256)]

/-- `i16::from_le_bytes`. -/
def fromLeBytes (b : Bytes) : Int16 :=
  (UInt16.ofNat ((b.getD 0 0).toNat + 256 * (b.getD 1 0).toNat)).toInt16

@[simp] theorem length_toLeBytes (x : Int16) : (toLeBytes x).length = 2 := rfl

@[simp] theorem fromLeBytes_toLeBytes (x : Int16) : fromLeBytes (toLeBytes x) = x := by
  have h := x.toUInt16.toNat_lt
  have hsum : (UInt8.ofNat x.toUInt16.toNat).toNat +
      256 * (UInt8.ofNat (x.toUInt16.toNat / 256)).toNat = x.toUInt16.toNat := by
    simp only [UInt8.toNat_ofNat']
    omega
  simp only [fromLeBytes, toLeBytes, List.getD_cons_zero, List.getD_cons_succ, hsum]
  simp

/-- A counter-mode stream state: key, iv and the position reached. -/
structure AesCtr where
  key : Bytes
  iv : Bytes
  pos : Nat := 0
  deriving DecidableEq, Repr

/-- A fresh stream, as `cipher` builds it. -/
def cipher (key iv : Bytes) : AesCtr := ⟨key, iv, 0⟩

variable (P : Primitives)

/-- `apply_keystream`: transform the data in place and move on by its length. -/
def AesCtr.applyKeystream (c : AesCtr) (data : Bytes) : Bytes × AesCtr :=
  (mask (P.keystream c.key c.iv) c.pos data, { c with pos := c.pos + data.length })

/-- The data of a stream state, without its advance. -/
def AesCtr.output (c : AesCtr) (data : Bytes) : Bytes := (c.applyKeystream P data).1

/-- The stream state after some bytes. -/
def AesCtr.advance (c : AesCtr) (n : Nat) : AesCtr := { c with pos := c.pos + n }

section Streams

variable {P}

/-- A call returns its output and a cipher that has advanced by as much. -/
theorem AesCtr.applyKeystream_eq (c : AesCtr) (data : Bytes) :
    c.applyKeystream P data = (c.output P data, c.advance data.length) := rfl

@[simp] theorem AesCtr.advance_advance (c : AesCtr) (m n : Nat) :
    (c.advance m).advance n = c.advance (m + n) := by
  simp [advance, Nat.add_assoc]

@[simp] theorem AesCtr.length_output (c : AesCtr) (data : Bytes) :
    (c.output P data).length = data.length := by
  simp [output, applyKeystream]

/-- Output in pieces is output of the whole. -/
theorem AesCtr.output_append (c : AesCtr) (xs ys : Bytes) :
    c.output P (xs ++ ys) = c.output P xs ++ (c.advance xs.length).output P ys :=
  mask_append ..

@[simp] theorem AesCtr.output_output (c : AesCtr) (data : Bytes) :
    c.output P (c.output P data) = data :=
  mask_mask ..

/-- The front of a stream's output is the output of the front. -/
theorem AesCtr.take_output (c : AesCtr) (n : Nat) (data : Bytes) :
    (c.output P data).take n = c.output P (data.take n) :=
  take_mask ..

variable (P) in
/-- Pieces of data under one stream that continues from each to the next. -/
def AesCtr.outputs (c : AesCtr) (pieces : List Bytes) : List Bytes :=
  maskPieces (P.keystream c.key c.iv) c.pos pieces

@[simp] theorem AesCtr.outputs_cons (c : AesCtr) (piece : Bytes) (rest : List Bytes) :
    c.outputs P (piece :: rest) = c.output P piece :: (c.advance piece.length).outputs P rest :=
  rfl

/-- The pieces join to the output of the whole. -/
theorem AesCtr.flatten_outputs (c : AesCtr) (pieces : List Bytes) :
    (c.outputs P pieces).flatten = c.output P pieces.flatten :=
  flatten_maskPieces ..

end Streams

/-- The handshake key: the hash of the prekey followed by the secret. -/
def secretKey (prekey : Bytes) (secret : Block 16) : Bytes := P.sha256 (prekey ++ secret.val)

/-- What the parsed client handshake keeps. -/
structure ClientHandshake where
  /-- Signed: negative for media, offset by 10000 for the test environment. -/
  dcIndex : Int16
  protocol : Protocol
  prekeyIv : Bytes

/-- Decrypt a client handshake under the secret and read its tag and DC index. -/
def parseClientHandshake (handshake : Block 64) (secret : Block 16) :
    Except IoError ClientHandshake :=
  let prekeyIv := slice handshake.val 8 56
  let key := secretKey P (prekeyIv.take 32) secret
  let plain := ((cipher key (prekeyIv.drop 32)).applyKeystream P handshake.val).1
  match Protocol.ofTag (slice plain 56 60) with
  | some protocol => .ok ⟨fromLeBytes (slice plain 60 62), protocol, prekeyIv⟩
  | none => .error ⟨.permissionDenied, "invalid MTProto secret or transport tag"⟩

/-- First bytes that a middlebox or the server could take for another protocol. -/
def reserved (handshake : Bytes) : Bool :=
  handshake.take 1 == [0xef] ||
  [ [0x48, 0x45, 0x41, 0x44],  -- HEAD
    [0x50, 0x4f, 0x53, 0x54],  -- POST
    [0x47, 0x45, 0x54, 0x20],  -- GET
    [0x4f, 0x50, 0x54, 0x49],  -- OPTI
    [0xee, 0xee, 0xee, 0xee],
    [0xdd, 0xdd, 0xdd, 0xdd],
    [0x16, 0x03, 0x01, 0x02] ].contains (handshake.take 4) ||
  slice handshake 4 8 == [0, 0, 0, 0]

/-- Overwrite tag and DC in a copy of the fill, encrypt the copy, and keep its last
eight bytes: the end of `generate_relay_handshake`, and what a client does as well. -/
def sealTail (c : AesCtr) (fill : Bytes) (protocol : Protocol) (dcIndex : Int16) : Bytes :=
  let plaintext := fill.take 56 ++ protocol.tag ++ toLeBytes dcIndex ++ fill.drop 62
  fill.take 56 ++ (c.applyKeystream P plaintext).1.drop 56

/-- Draw random fills until one is not reserved; `none` when the draws run out. -/
def generateRelayHandshake (protocol : Protocol) (dcIndex : Int16) :
    List (Block 64) → Option Bytes
  | [] => none
  | fill :: draws =>
    if reserved fill.val then generateRelayHandshake protocol dcIndex draws
    else some (sealTail P (cipher (slice fill.val 8 40) (slice fill.val 40 56))
      fill.val protocol dcIndex)

/-- The four stream states of one relayed connection. -/
structure CryptoContext where
  clientDecrypt : AesCtr
  clientEncrypt : AesCtr
  upstreamEncrypt : AesCtr
  upstreamDecrypt : AesCtr

/-- Derive the four streams and advance the two that begin with a handshake. -/
def buildContext (client : ClientHandshake) (secret : Block 16) (relayHandshake : Bytes) :
    CryptoContext :=
  let clientDecrypt := cipher (secretKey P (client.prekeyIv.take 32) secret)
    (client.prekeyIv.drop 32)
  let reversed := client.prekeyIv.reverse
  let clientEncrypt := cipher (secretKey P (reversed.take 32) secret) (reversed.drop 32)
  let clientDecrypt := (clientDecrypt.applyKeystream P (List.replicate 64 0)).2
  let upstreamEncrypt := cipher (slice relayHandshake 8 40) (slice relayHandshake 40 56)
  let reversed := (slice relayHandshake 8 56).reverse
  let upstreamDecrypt := cipher (reversed.take 32) (reversed.drop 32)
  let upstreamEncrypt := (upstreamEncrypt.applyKeystream P (List.replicate 64 0)).2
  ⟨clientDecrypt, clientEncrypt, upstreamEncrypt, upstreamDecrypt⟩

/-! ## What a sealed handshake opens to -/

section Sealed

variable {P} (c : AesCtr) (fill : Block 64) (protocol : Protocol) (dcIndex : Int16)

/-- Sealing leaves the bytes that fix key and iv alone. -/
theorem take_sealTail {n : Nat} (hn : n ≤ 56) :
    (sealTail P c fill.val protocol dcIndex).take n = fill.val.take n := by
  have hlen : (fill.val.take 56).length = 56 := by simp [fill.property]
  rw [sealTail, List.take_append_of_le_length (by omega), List.take_take, Nat.min_eq_left hn]

/-- A slice within the first 56 bytes is the fill's own. -/
theorem slice_sealTail {i j : Nat} (hj : j ≤ 56) :
    slice (sealTail P c fill.val protocol dcIndex) i j = slice fill.val i j := by
  rcases Nat.le_total i j with hij | hij
  · have hd := congrArg (List.drop i) (take_sealTail (P := P) c fill protocol dcIndex hj)
    simpa only [slice, List.drop_take] using hd
  · simp [slice, Nat.sub_eq_zero_of_le hij]

/-- A sealed handshake has 64 bytes. -/
theorem length_sealTail : (sealTail P c fill.val protocol dcIndex).length = 64 := by
  simp [sealTail, AesCtr.applyKeystream, fill.property]

/-- Decrypting a sealed handshake from position 0 shows tag, DC and the fill's last bytes. -/
theorem drop_open_sealTail (hc : c.pos = 0) :
    (c.applyKeystream P (sealTail P c fill.val protocol dcIndex)).1.drop 56 =
      protocol.tag ++ toLeBytes dcIndex ++ fill.val.drop 62 := by
  have hlen : (fill.val.take 56).length = 56 := by simp [fill.property]
  have hplain : (fill.val.take 56 ++ protocol.tag ++ toLeBytes dcIndex ++
      fill.val.drop 62).drop 56 = protocol.tag ++ toLeBytes dcIndex ++ fill.val.drop 62 := by
    simp only [List.append_assoc]
    exact List.drop_left' hlen
  simp only [AesCtr.applyKeystream, hc, sealTail, drop_mask, Nat.zero_add, hplain]
  rw [List.drop_left' hlen, mask_mask]

/-- The tag sits at 56..60 of the plaintext. -/
theorem tag_open_sealTail (hc : c.pos = 0) :
    slice (c.applyKeystream P (sealTail P c fill.val protocol dcIndex)).1 56 60 =
      protocol.tag := by
  rw [slice, drop_open_sealTail c fill protocol dcIndex hc, List.append_assoc]
  exact List.take_left' (by simp)

/-- The DC index sits at 60..62 of the plaintext. -/
theorem dc_open_sealTail (hc : c.pos = 0) :
    slice (c.applyKeystream P (sealTail P c fill.val protocol dcIndex)).1 60 62 =
      toLeBytes dcIndex := by
  have hd := congrArg (List.drop 4) (drop_open_sealTail (P := P) c fill protocol dcIndex hc)
  rw [List.drop_drop, List.append_assoc, List.drop_left' (by simp)] at hd
  rw [slice, hd]
  exact List.take_left' (by simp)

end Sealed

/-- Only the first eight bytes decide whether a handshake is reserved. -/
theorem reserved_congr {a b : Bytes} (h : a.take 8 = b.take 8) : reserved a = reserved b := by
  have h1 := congrArg (List.take 1) h
  have h4 := congrArg (List.take 4) h
  have hd := congrArg (List.drop 4) h
  simp only [List.take_take, List.drop_take] at h1 h4 hd
  have hs : slice a 4 8 = slice b 4 8 := hd
  have ht : a.take 4 = b.take 4 := h4
  have ho : a.take 1 = b.take 1 := h1
  simp only [reserved, ho, ht, hs]

/-- A generated relay handshake is the sealed form of one accepted draw. -/
theorem generateRelayHandshake_eq {protocol : Protocol} {dcIndex : Int16}
    {draws : List (Block 64)} {relay : Bytes}
    (h : generateRelayHandshake P protocol dcIndex draws = some relay) :
    ∃ fill ∈ draws, reserved fill.val = false ∧
      relay = sealTail P (cipher (slice fill.val 8 40) (slice fill.val 40 56))
        fill.val protocol dcIndex := by
  induction draws with
  | nil => simp [generateRelayHandshake] at h
  | cons fill draws ih =>
    simp only [generateRelayHandshake] at h
    split at h
    · obtain ⟨fill', hm, hr⟩ := ih h
      exact ⟨fill', List.mem_cons_of_mem _ hm, hr⟩
    · next hr => exact ⟨fill, List.mem_cons_self .., by simpa using hr, (Option.some.inj h).symm⟩

/-! ## The two peers

A client builds its handshake over 64 bytes of its own choosing; Telegram reads
the relay handshake. Each peer keeps one stream per direction, and the answering
direction uses the reversed key material.
-/

/-- The stream a client sends on: it starts at the first byte of its handshake. -/
def clientSend (secret : Block 16) (handshake : Bytes) : AesCtr :=
  cipher (secretKey P (slice handshake 8 40) secret) (slice handshake 40 56)

/-- The stream a client receives on, keyed by the reversed bytes 8..56. -/
def clientReceive (secret : Block 16) (handshake : Bytes) : AesCtr :=
  let reversed := (slice handshake 8 56).reverse
  cipher (secretKey P (reversed.take 32) secret) (reversed.drop 32)

/-- The handshake a client builds for a secret, a framing and a DC. -/
def clientHandshake (secret : Block 16) (protocol : Protocol) (dcIndex : Int16)
    (fill : Block 64) : Block 64 :=
  ⟨sealTail P (clientSend P secret fill.val) fill.val protocol dcIndex, length_sealTail ..⟩

/-- The stream Telegram receives on, read from the relay handshake itself. -/
def telegramReceive (relay : Bytes) : AesCtr := cipher (slice relay 8 40) (slice relay 40 56)

/-- The stream Telegram answers on. -/
def telegramSend (relay : Bytes) : AesCtr :=
  let reversed := (slice relay 8 56).reverse
  cipher (reversed.take 32) (reversed.drop 32)

/-- The first 32 bytes of the key material are the prekey. -/
theorem take_prekeyIv (h : Bytes) : (slice h 8 56).take 32 = slice h 8 40 := by
  simp only [slice, List.take_take]
  rfl

/-- Its last 16 bytes are the iv. -/
theorem drop_prekeyIv (h : Bytes) : (slice h 8 56).drop 32 = slice h 40 56 := by
  simp only [slice, List.drop_take, List.drop_drop]

/-- The stream a built handshake is read under is the one it was sealed with. -/
theorem clientSend_clientHandshake (secret : Block 16) (protocol : Protocol) (dcIndex : Int16)
    (fill : Block 64) :
    clientSend P secret (clientHandshake P secret protocol dcIndex fill).val =
      clientSend P secret fill.val := by
  simp only [clientSend, clientHandshake]
  rw [slice_sealTail _ _ _ _ (by decide), slice_sealTail _ _ _ _ (by decide)]

/-- Parsing a handshake built for the secret recovers framing and signed DC. -/
theorem parse_clientHandshake (secret : Block 16) (protocol : Protocol) (dcIndex : Int16)
    (fill : Block 64) :
    parseClientHandshake P (clientHandshake P secret protocol dcIndex fill) secret =
      .ok ⟨dcIndex, protocol, slice (clientHandshake P secret protocol dcIndex fill).val 8 56⟩ := by
  have hkey := clientSend_clientHandshake P secret protocol dcIndex fill
  simp only [clientSend] at hkey
  simp only [parseClientHandshake, take_prekeyIv, drop_prekeyIv, hkey]
  simp only [clientHandshake, clientSend]
  rw [tag_open_sealTail _ _ _ _ rfl, dc_open_sealTail _ _ _ _ rfl]
  simp

end TgWsProxy
