import TgWsProxy.Core.BigEndian
import TgWsProxy.Core.Keystream
import TgWsProxy.Io

/-!
# WebSocket frames

The incremental frame writer and the streaming reader of `websocket.rs`, over
underlying writes that succeed and reads of any size. A random mask is an input
of each frame. `ServerFrame` and `telegramFrames` are the peer's side: what a
server may send, and how a server reads masked frames under RFC 6455.
-/

namespace TgWsProxy

open TgWsProxy.Core

/-- Largest message the transport carries: a 16 MiB payload and its header. -/
def maxMessage : Nat := 16 * 1024 * 1024 + 4

/-- The xor stream of a four-byte frame mask. -/
def maskStream (key : Bytes) (i : Nat) : UInt8 := key.getD (i % 4) 0

/-- The length of a frame in its shortest form, beside the mask bit. -/
def lengthForm (maskBit : UInt8) (length : Nat) : Bytes :=
  if length < 126 then [maskBit ||| UInt8.ofNat length]
  else if length ≤ 65535 then (maskBit ||| 126) :: toBe 2 length
  else (maskBit ||| 127) :: toBe 8 length

/-! ## Writer -/

/-- The writer: the bytes already on the wire and the state of the frame being sent. -/
structure WsWriter where
  wire : Bytes := []
  remaining : Nat := 0
  mask : Block 4 := ⟨[0, 0, 0, 0], rfl⟩
  offset : Nat := 0

namespace WsWriter

/-- The header of a final, masked frame. -/
def header (opcode : UInt8) (length : Nat) (key : Block 4) : Bytes :=
  [0x80 ||| opcode] ++ lengthForm 0x80 length ++ key.val

/-- Start a frame of a given length under a fresh mask. -/
def begin (w : WsWriter) (opcode : UInt8) (length : Nat) (key : Block 4) :
    Except IoError WsWriter :=
  if w.remaining ≠ 0 ∨ length > maxMessage then
    .error (invalid "invalid outgoing frame length")
  else .ok ⟨w.wire ++ header opcode length key, length, key, 0⟩

/-- Start a binary frame. -/
def beginBinary (w : WsWriter) (length : Nat) (key : Block 4) : Except IoError WsWriter :=
  w.begin 2 length key

/-- Mask and send the next part of the frame's payload. -/
def payload (w : WsWriter) (data : Bytes) : Except IoError WsWriter :=
  if data.length > w.remaining then .error (invalid "outgoing frame overflow")
  else .ok { w with
    wire := w.wire ++ Core.mask (maskStream w.mask.val) w.offset data
    offset := w.offset + data.length
    remaining := w.remaining - data.length }

/-- A whole binary frame. -/
def binary (w : WsWriter) (data : Bytes) (key : Block 4) : Except IoError WsWriter := do
  let w ← w.beginBinary data.length key
  w.payload data

/-- A whole control frame. -/
def control (w : WsWriter) (opcode : UInt8) (data : Bytes) (key : Block 4) :
    Except IoError WsWriter :=
  if data.length > 125 then .error (invalid "oversized control frame")
  else do
    let w ← w.begin opcode data.length key
    w.payload data

end WsWriter

/-! ## Reader -/

/-- The reader: the stream under it and its position within frame and message. -/
structure WsReader where
  wire : Source
  remaining : Nat := 0
  fragmented : Bool := false
  messageLen : Nat := 0

/-- The first two bytes of a frame and the length they announce. -/
structure FrameHead where
  fin : Bool
  opcode : UInt8
  length : Nat

/-- An extended length of `width` bytes, refused below its least canonical value. -/
def readExtended (width least : Nat) (wire : Source) : Except IoError (Nat × Source) := do
  let (b, wire) ← wire.readUnsigned width
  if ofBe b < least then .error (invalid "noncanonical frame length") else .ok (ofBe b, wire)

/-- Resolve the seven-bit length, reading and checking the extended forms. -/
def readLength (short : UInt8) (wire : Source) : Except IoError (Nat × Source) :=
  if short = 126 then readExtended 2 126 wire
  else if short = 127 then readExtended 8 65536 wire
  else .ok (short.toNat, wire)

/-- The head of a server frame, up to the check of its length. -/
def readHead (wire : Source) : Except IoError (FrameHead × Source) := do
  let (a, wire) ← wire.readUnsigned 1
  let (b, wire) ← wire.readUnsigned 1
  let a := a.getD 0 0
  let b := b.getD 0 0
  if a &&& 0x70 ≠ 0 ∨ b &&& 128 ≠ 0 then
    .error (invalid "unsupported RSV or masked server frame")
  else do
    let (length, wire) ← readLength (b &&& 127) wire
    if length > maxMessage then .error (invalid "WebSocket frame exceeds limit")
    else .ok (⟨a &&& 128 ≠ 0, a &&& 15, length⟩, wire)

/-- Reading the extended length never lengthens the stream. -/
theorem readLength_length {short : UInt8} {wire : Source} {n : Nat} {rest : Source}
    (h : readLength short wire = .ok (n, rest)) : rest.bytes.length ≤ wire.bytes.length := by
  have hext {width least : Nat} (h : readExtended width least wire = .ok (n, rest)) :
      rest.bytes.length ≤ wire.bytes.length := by
    obtain ⟨⟨b, s⟩, hb, h⟩ := bind_eq_ok.mp h
    have hl := congrArg List.length
      (wire.readExact_append (Source.readUnsigned_eq_ok.mp hb)).2.1
    rw [List.length_append] at hl
    dsimp only at h
    split at h
    · cases h
    · cases h
      omega
  unfold readLength at h
  split at h
  · exact hext h
  · split at h
    · exact hext h
    · cases h
      exact Nat.le_refl _

/-- A head that is read leaves a shorter stream. -/
theorem readHead_length {wire : Source} {head : FrameHead} {rest : Source}
    (h : readHead wire = .ok (head, rest)) : rest.bytes.length < wire.bytes.length := by
  obtain ⟨⟨a, s₁⟩, ha, h⟩ := bind_eq_ok.mp h
  obtain ⟨⟨b, s₂⟩, hb, h⟩ := bind_eq_ok.mp h
  obtain ⟨hna, hla, _⟩ := wire.readExact_append (Source.readUnsigned_eq_ok.mp ha)
  obtain ⟨_, hlb, _⟩ := s₁.readExact_append (Source.readUnsigned_eq_ok.mp hb)
  have hla := congrArg List.length hla
  have hlb := congrArg List.length hlb
  rw [List.length_append] at hla hlb
  dsimp only at h
  split at h
  · cases h
  · obtain ⟨⟨n, s₃⟩, hn, h⟩ := bind_eq_ok.mp h
    have hln := readLength_length hn
    dsimp only at h
    split at h
    · cases h
    · cases h
      omega

/-- What one call of `chunk` comes to: its result, the reader after it, and the
control frames (opcode and payload) it asked the shared writer to send. -/
structure Chunk where
  result : Except IoError Bytes
  reader : WsReader
  controls : List (UInt8 × Bytes) := []

/-- Return the next bytes of message data, answering control frames on the way. An
empty result is a valid close frame. -/
def WsReader.chunk (r : WsReader) (room : Nat) : Chunk :=
  if room = 0 then ⟨.error (invalid "empty read buffer"), r, []⟩
  else if 0 < r.remaining then
    let (data, wire) := r.wire.read (min room r.remaining)
    if data = [] then ⟨.error ⟨.unexpectedEof, "unexpected end of file"⟩, r, []⟩
    else ⟨.ok data, { r with wire, remaining := r.remaining - data.length }, []⟩
  else
    match _hhead : readHead r.wire with
    | .error e => ⟨.error e, r, []⟩
    | .ok (head, wire) =>
      if head.opcode ≥ 8 then
        if ¬head.fin ∨ head.length > 125 ∨ head.opcode > 10 then
          ⟨.error (invalid "invalid WebSocket control frame"), r, []⟩
        else
          match _hcontrol : wire.readExact head.length with
          | .error e => ⟨.error e, r, []⟩
          | .ok (control, rest) =>
            if head.opcode = 8 then
              if head.length = 1 then
                ⟨.error (invalid "invalid WebSocket close payload"), r, []⟩
              else ⟨.ok [], { r with wire := rest }, [(8, control.take 2)]⟩
            else
              let next := WsReader.chunk { r with wire := rest } room
              if head.opcode = 9 then { next with controls := (10, control) :: next.controls }
              else next
      else if ¬(head.opcode = 0 ∧ r.fragmented ∨ head.opcode = 2 ∧ ¬r.fragmented) then
        ⟨.error (invalid "invalid WebSocket message opcode or continuation"), r, []⟩
      else
        -- both summands are at most `maxMessage`, so `checked_add` never overflows
        let messageLen := (if head.opcode = 2 then 0 else r.messageLen) + head.length
        if messageLen > maxMessage then
          ⟨.error (invalid "WebSocket message exceeds limit"), r, []⟩
        else WsReader.chunk ⟨wire, head.length, !head.fin, messageLen⟩ room
termination_by r.wire.bytes.length
decreasing_by
  · have hl := congrArg List.length (wire.readExact_append _hcontrol).2.1
    have hh := readHead_length _hhead
    rw [List.length_append] at hl
    omega
  · exact readHead_length _hhead

/-- A chunk that returns data leaves a shorter stream. -/
theorem WsReader.chunk_shortens (r : WsReader) (room : Nat) {data : Bytes}
    (h : (r.chunk room).result = .ok data) (hne : data ≠ []) :
    (r.chunk room).reader.wire.bytes.length < r.wire.bytes.length := by
  fun_induction WsReader.chunk r room with
  | case1 | case2 | case4 | case5 | case6 | case7 | case11 | case12 => cases h
  | case3 r _ _ data' wire hread hdata =>
    have hlt := r.wire.length_read_bytes_lt (min room r.remaining) (by rwa [hread])
    rwa [hread] at hlt
  | case8 => exact absurd (Except.ok.inj h).symm hne
  | case9 r _ _ head wire hhead _ _ control rest hcontrol _ next _ ih =>
    have hl := congrArg List.length (wire.readExact_append hcontrol).2.1
    rw [List.length_append] at hl
    have hh := readHead_length hhead
    exact Nat.lt_trans (ih h) (by dsimp only; omega)
  | case10 r _ _ head wire hhead _ _ control rest hcontrol _ next _ ih =>
    have hl := congrArg List.length (wire.readExact_append hcontrol).2.1
    rw [List.length_append] at hl
    have hh := readHead_length hhead
    exact Nat.lt_trans (ih h) (by dsimp only; omega)
  | case13 r _ _ head wire hhead _ _ messageLen _ ih =>
    exact Nat.lt_trans (ih h) (readHead_length hhead)

/-! ## The peer's side -/

/-- What a server may send between two close handshakes: a data frame of the
message in progress, which `fin` ends, or a control frame. -/
inductive ServerFrame
  | data (fin : Bool) (payload : Bytes)
  | ping (payload : Bytes)
  | pong (payload : Bytes)

/-- A server frame on the wire, from its first byte. -/
def serverFrame (first : UInt8) (payload : Bytes) : Bytes :=
  first :: lengthForm 0 payload.length ++ payload

/-- The frames on the wire; `fragmented` says that a message is unfinished. -/
def encodeFrames : Bool → List ServerFrame → Bytes
  | _, [] => []
  | fragmented, .data fin payload :: fs =>
    serverFrame ((if fin then 0x80 else 0) ||| (if fragmented then 0 else 2)) payload ++
      encodeFrames (!fin) fs
  | fragmented, .ping payload :: fs => serverFrame 0x89 payload ++ encodeFrames fragmented fs
  | fragmented, .pong payload :: fs => serverFrame 0x8a payload ++ encodeFrames fragmented fs

/-- The message bytes of a sequence of frames. -/
def framesData : List ServerFrame → Bytes
  | [] => []
  | .data _ payload :: fs => payload ++ framesData fs
  | .ping _ :: fs => framesData fs
  | .pong _ :: fs => framesData fs

/-- Messages stay within the limit and control frames within 125 bytes. -/
def FramesFit : Bool → Nat → List ServerFrame → Prop
  | _, _, [] => True
  | fragmented, messageLen, .data fin payload :: fs =>
    (if fragmented then messageLen else 0) + payload.length ≤ maxMessage ∧
      FramesFit (!fin) ((if fragmented then messageLen else 0) + payload.length) fs
  | fragmented, messageLen, .ping payload :: fs =>
    payload.length ≤ 125 ∧ FramesFit fragmented messageLen fs
  | fragmented, messageLen, .pong payload :: fs =>
    payload.length ≤ 125 ∧ FramesFit fragmented messageLen fs

/-- Read one masked frame: its opcode and its unmasked payload. -/
def readMaskedFrame (wire : Source) : Except IoError ((UInt8 × Bytes) × Source) := do
  let (a, wire) ← wire.readExact 1
  let (b, wire) ← wire.readExact 1
  let a := a.getD 0 0
  let b := b.getD 0 0
  if a &&& 0xf0 ≠ 0x80 ∨ b &&& 128 = 0 then .error (invalid "unmasked or fragmented frame")
  else do
    let (length, wire) ← readLength (b &&& 127) wire
    let (key, wire) ← wire.readExact 4
    let (data, wire) ← wire.readExact length
    .ok ((a &&& 15, Core.mask (maskStream key) 0 data), wire)

/-- Read frames up to the end of the stream, at most `n` of them. -/
def readMaskedFrames (n : Nat) (wire : Source) : Except IoError (List (UInt8 × Bytes)) :=
  if wire.bytes = [] then .ok []
  else
    match n with
    | 0 => .error (invalid "too many frames")
    | n + 1 => do
      let (frame, wire) ← readMaskedFrame wire
      let frames ← readMaskedFrames n wire
      .ok (frame :: frames)

/-- The frames a server finds on the wire. A frame is never empty, so the length of
the stream bounds their number. -/
def telegramFrames (wire : Bytes) : Except IoError (List (UInt8 × Bytes)) :=
  readMaskedFrames wire.length ⟨wire, []⟩

/-- The data of the binary frames, in order. -/
def binaryData (frames : List (UInt8 × Bytes)) : Bytes :=
  (frames.filter (·.1 = 2)).flatMap (·.2)

private theorem maskBit_bits : ∀ v : BitVec 8, v < 128#8 →
    (0x80#8 ||| v) &&& 127#8 = v ∧ (0x80#8 ||| v) &&& 128#8 = 128#8 ∧ v &&& 127#8 = v ∧
      v &&& 128#8 = 0#8 := by
  decide

/-- The mask bit and the seven length bits do not interfere. -/
theorem maskBit_or {bit x : UInt8} (hbit : bit = 0 ∨ bit = 0x80) (hx : x < 128) :
    (bit ||| x) &&& 127 = x ∧ (bit ||| x) &&& 128 = bit := by
  obtain ⟨h1, h2, h3, h4⟩ := maskBit_bits x.toBitVec hx
  rcases hbit with rfl | rfl
  · rw [UInt8.zero_or]
    exact ⟨UInt8.toBitVec_inj.mp h3, UInt8.toBitVec_inj.mp h4⟩
  · exact ⟨UInt8.toBitVec_inj.mp h1, UInt8.toBitVec_inj.mp h2⟩

private theorem readExtended_toBe {width least n : Nat} (hn : n < 256 ^ width) (hl : least ≤ n)
    (rest : Bytes) (grants : List Nat) :
    readExtended width least ⟨toBe width n ++ rest, grants⟩ = .ok (n, ⟨rest, grants⟩) := by
  have hread := Source.readUnsigned_eq_ok.mpr
    (Source.readExact_of_append (toBe width n) rest grants)
  rw [length_toBe] at hread
  simp [readExtended, hread, bind, Except.bind, ofBe_toBe hn, Nat.not_lt.mpr hl]

/-- The shortest length form is read back as the length it was written for. -/
theorem lengthForm_read {bit : UInt8} (hbit : bit = 0 ∨ bit = 0x80) {n : Nat}
    (hn : n ≤ maxMessage) :
    ∃ b ext, lengthForm bit n = b :: ext ∧ b &&& 128 = bit ∧
      ∀ rest grants, readLength (b &&& 127) ⟨ext ++ rest, grants⟩ = .ok (n, ⟨rest, grants⟩) := by
  unfold lengthForm
  split
  · next hshort =>
    have hx : (UInt8.ofNat n).toNat = n := by
      rw [UInt8.toNat_ofNat']
      omega
    have hlt : UInt8.ofNat n < 128 := UInt8.lt_iff_toNat_lt.mpr (by rw [hx]; simp; omega)
    obtain ⟨h127, h128⟩ := maskBit_or hbit hlt
    refine ⟨_, [], rfl, h128, fun rest grants => ?_⟩
    have h1 : UInt8.ofNat n ≠ 126 := fun h => by
      have := congrArg UInt8.toNat h
      rw [hx] at this
      simp at this
      omega
    have h2 : UInt8.ofNat n ≠ 127 := fun h => by
      have := congrArg UInt8.toNat h
      rw [hx] at this
      simp at this
      omega
    simp [h127, readLength, h1, h2, hx]
  · split
    · next hmid =>
      obtain ⟨h127, h128⟩ := maskBit_or hbit (x := 126) (by decide)
      refine ⟨_, _, rfl, h128, fun rest grants => ?_⟩
      rw [h127]
      exact readExtended_toBe (by omega) (by omega) rest grants
    · obtain ⟨h127, h128⟩ := maskBit_or hbit (x := 127) (by decide)
      refine ⟨_, _, rfl, h128, fun rest grants => ?_⟩
      rw [h127]
      exact readExtended_toBe (by simp only [maxMessage] at hn; omega) (by omega) rest grants

/-! ## Calls on the shared writer -/

/-- A call on the writer that sends a whole frame, under the mutex. -/
inductive WriterCall
  | binary (data : Bytes) (key : Block 4)
  | control (opcode : UInt8) (data : Bytes) (key : Block 4)

/-- The effect of a call. -/
def WsWriter.call (w : WsWriter) : WriterCall → Except IoError WsWriter
  | .binary data key => w.binary data key
  | .control opcode data key => w.control opcode data key

/-- The frame a call is meant to send. -/
def WriterCall.frame : WriterCall → UInt8 × Bytes
  | .binary data _ => (2, data)
  | .control opcode data _ => (opcode, data)

/-- The bytes of that frame. -/
def WriterCall.bytes : WriterCall → Bytes
  | .binary data key => WsWriter.header 2 data.length key ++ Core.mask (maskStream key.val) 0 data
  | .control opcode data key =>
    WsWriter.header opcode data.length key ++ Core.mask (maskStream key.val) 0 data

/-- Binary data within the message limit; pong and close within 125 bytes. -/
def WriterCall.Allowed : WriterCall → Prop
  | .binary data _ => data.length ≤ maxMessage
  | .control opcode data _ => (opcode = 8 ∨ opcode = 10) ∧ data.length ≤ 125

/-- Between frames, a frame within the limit is written whole. -/
theorem WsWriter.begin_payload {w : WsWriter} (hw : w.remaining = 0) (opcode : UInt8)
    {data : Bytes} (hd : data.length ≤ maxMessage) (key : Block 4) :
    ∃ w', (w.begin opcode data.length key >>= fun w => w.payload data) = .ok w' ∧
      w'.remaining = 0 ∧
      w'.wire = w.wire ++ (header opcode data.length key ++
        Core.mask (maskStream key.val) 0 data) := by
  refine ⟨⟨w.wire ++ (header opcode data.length key ++ Core.mask (maskStream key.val) 0 data),
    0, key, data.length⟩, ?_, rfl, rfl⟩
  simp [WsWriter.begin, WsWriter.payload, hw, Nat.not_lt.mpr hd, bind, Except.bind]

/-- An allowed call between frames succeeds and writes its frame. -/
theorem WsWriter.call_allowed {w : WsWriter} (hw : w.remaining = 0) {c : WriterCall}
    (hc : c.Allowed) :
    ∃ w', w.call c = .ok w' ∧ w'.remaining = 0 ∧ w'.wire = w.wire ++ c.bytes := by
  cases c with
  | binary data key => exact begin_payload hw 2 hc key
  | control opcode data key =>
    have hmax : data.length ≤ maxMessage := Nat.le_trans hc.2 (by decide)
    obtain ⟨w', h, hr⟩ := begin_payload hw opcode hmax key
    refine ⟨w', ?_, hr⟩
    simpa only [call, control, Nat.not_lt.mpr hc.2, if_false] using h

/-- Any sequence of allowed calls writes its frames one after the other. -/
theorem WsWriter.calls_allowed {calls : List WriterCall} (hc : ∀ c ∈ calls, c.Allowed)
    {w : WsWriter} (hw : w.remaining = 0) :
    ∃ w', calls.foldlM WsWriter.call w = .ok w' ∧ w'.remaining = 0 ∧
      w'.wire = w.wire ++ calls.flatMap WriterCall.bytes := by
  induction calls generalizing w with
  | nil => exact ⟨w, rfl, hw, by simp⟩
  | cons c calls ih =>
    obtain ⟨w₁, h₁, hr₁, hwire₁⟩ := call_allowed hw (hc c (List.mem_cons_self ..))
    obtain ⟨w₂, h₂, hr₂, hwire₂⟩ := ih (fun c h => hc c (List.mem_cons_of_mem _ h)) hr₁
    refine ⟨w₂, ?_, hr₂, ?_⟩
    · simpa only [List.foldlM_cons, h₁, bind, Except.bind] using h₂
    · rw [hwire₂, hwire₁, List.flatMap_cons, List.append_assoc]

private theorem opcode_bits : ∀ v : BitVec 8, v < 16#8 →
    (0x80#8 ||| v) &&& 0xf0#8 = 0x80#8 ∧ (0x80#8 ||| v) &&& 15#8 = v := by
  decide

/-- The final bit and the opcode do not interfere. -/
theorem opcode_masked {opcode : UInt8} (ho : opcode < 16) :
    (0x80 ||| opcode) &&& 0xf0 = 0x80 ∧ (0x80 ||| opcode) &&& 15 = opcode := by
  obtain ⟨hhigh, hlow⟩ := opcode_bits opcode.toBitVec ho
  exact ⟨UInt8.toBitVec_inj.mp hhigh, UInt8.toBitVec_inj.mp hlow⟩

/-- A server reads a frame the writer wrote, unmasked, and stops behind it. -/
theorem readMaskedFrame_header {opcode : UInt8} (ho : opcode < 16) {data : Bytes}
    (hd : data.length ≤ maxMessage) (key : Block 4) (rest : Bytes) (grants : List Nat) :
    readMaskedFrame ⟨WsWriter.header opcode data.length key ++
        Core.mask (maskStream key.val) 0 data ++ rest, grants⟩ =
      .ok ((opcode, data), ⟨rest, grants⟩) := by
  obtain ⟨b, ext, hform, hb, hlen⟩ := lengthForm_read (Or.inr rfl) hd
  obtain ⟨hhigh, hlow⟩ := opcode_masked ho
  have hshape : WsWriter.header opcode data.length key ++
      Core.mask (maskStream key.val) 0 data ++ rest =
      [0x80 ||| opcode] ++ ([b] ++ (ext ++ (key.val ++
        (Core.mask (maskStream key.val) 0 data ++ rest)))) := by
    simp [WsWriter.header, hform]
  have h1 (x : UInt8) (tail : Bytes) :
      Source.readExact ⟨[x] ++ tail, grants⟩ 1 = .ok ([x], ⟨tail, grants⟩) :=
    Source.readExact_of_append [x] tail grants
  have hkey (tail : Bytes) :
      Source.readExact ⟨key.val ++ tail, grants⟩ 4 = .ok (key.val, ⟨tail, grants⟩) := by
    have := Source.readExact_of_append key.val tail grants
    rwa [key.property] at this
  have hdata : Source.readExact ⟨Core.mask (maskStream key.val) 0 data ++ rest, grants⟩
      data.length = .ok (Core.mask (maskStream key.val) 0 data, ⟨rest, grants⟩) := by
    have := Source.readExact_of_append (Core.mask (maskStream key.val) 0 data) rest grants
    rwa [length_mask] at this
  rw [hshape]
  simp only [readMaskedFrame, h1, bind, Except.bind, List.getD_cons_zero, hhigh, hlow, hb,
    hlen, hkey, hdata, mask_mask]
  rfl

/-- What the calls wrote is read back as their frames, in order. -/
theorem telegramFrames_calls {calls : List WriterCall} (hc : ∀ c ∈ calls, c.Allowed) :
    telegramFrames (calls.flatMap WriterCall.bytes) = .ok (calls.map WriterCall.frame) := by
  have hread (c : WriterCall) (h : c.Allowed) (rest : Bytes) :
      c.bytes ≠ [] ∧ readMaskedFrame ⟨c.bytes ++ rest, []⟩ = .ok (c.frame, ⟨rest, []⟩) := by
    cases c with
    | binary data key =>
      exact ⟨by simp [WriterCall.bytes, WsWriter.header],
        readMaskedFrame_header (by decide) h key rest []⟩
    | control opcode data key =>
      refine ⟨by simp [WriterCall.bytes, WsWriter.header], ?_⟩
      exact readMaskedFrame_header (by rcases h.1 with rfl | rfl <;> decide)
        (Nat.le_trans h.2 (by decide)) key rest []
  have hn (n : Nat) (h : (calls.flatMap WriterCall.bytes).length ≤ n) :
      readMaskedFrames n ⟨calls.flatMap WriterCall.bytes, []⟩ =
        .ok (calls.map WriterCall.frame) := by
    induction calls generalizing n with
    | nil => rw [readMaskedFrames.eq_def]; rfl
    | cons c calls ih =>
      obtain ⟨hne, hr⟩ := hread c (hc c (List.mem_cons_self ..)) (calls.flatMap WriterCall.bytes)
      have hpos := List.length_pos_iff.mpr hne
      rw [List.flatMap_cons, List.length_append] at h
      obtain ⟨n, rfl⟩ : ∃ m, n = m + 1 := ⟨n - 1, by omega⟩
      have hrest := ih (fun c h => hc c (List.mem_cons_of_mem _ h)) n (by omega)
      rw [readMaskedFrames.eq_def, List.flatMap_cons, if_neg (by simp [hne])]
      simp only [hr, bind, Except.bind, hrest, List.map_cons]
  exact hn _ (Nat.le_refl _)

/-! ## Reading what a server sends -/

/-- A server head in its shortest form is read back, and what it announces is next. -/
theorem readHead_lengthForm (first opcode : UInt8) (fin : Bool) (hf : first &&& 0x70 = 0)
    (hfin : (first &&& 128 ≠ 0) = fin) (ho : first &&& 15 = opcode) {length : Nat}
    (hl : length ≤ maxMessage) (rest : Bytes) (grants : List Nat) :
    readHead ⟨first :: lengthForm 0 length ++ rest, grants⟩ =
      .ok (⟨fin, opcode, length⟩, ⟨rest, grants⟩) := by
  obtain ⟨b, ext, hform, hb, hlen⟩ := lengthForm_read (Or.inl rfl) hl
  have hshape : first :: lengthForm 0 length ++ rest = [first] ++ ([b] ++ (ext ++ rest)) := by
    simp [hform]
  have h1 (x : UInt8) (tail : Bytes) :
      Source.readUnsigned ⟨[x] ++ tail, grants⟩ 1 = .ok ([x], ⟨tail, grants⟩) :=
    Source.readUnsigned_eq_ok.mpr (Source.readExact_of_append [x] tail grants)
  rw [hshape]
  simp only [readHead, h1, bind, Except.bind, List.getD_cons_zero, hf, hb, hlen, hfin, ho,
    ne_eq, not_true_eq_false, or_self, if_false, Nat.not_lt.mpr hl, Bool.decide_eq_true]

/-- The head of a server frame is read back, and the payload is next. -/
theorem readHead_serverFrame (first opcode : UInt8) (fin : Bool) (hf : first &&& 0x70 = 0)
    (hfin : (first &&& 128 ≠ 0) = fin) (ho : first &&& 15 = opcode) {payload : Bytes}
    (hp : payload.length ≤ maxMessage) (rest : Bytes) (grants : List Nat) :
    readHead ⟨serverFrame first payload ++ rest, grants⟩ =
      .ok (⟨fin, opcode, payload.length⟩, ⟨payload ++ rest, grants⟩) := by
  rw [serverFrame, List.append_assoc]
  exact readHead_lengthForm first opcode fin hf hfin ho hp (payload ++ rest) grants

namespace WsReader

variable {r : WsReader} {room : Nat}

/-- Inside a frame, a chunk is one read of at most the rest of its payload. -/
theorem chunk_payload (hroom : 0 < room) (hr : 0 < r.remaining) (hne : r.wire.bytes ≠ []) :
    r.chunk room = ⟨.ok (r.wire.read (min room r.remaining)).1,
      { r with
        wire := (r.wire.read (min room r.remaining)).2
        remaining := r.remaining - (r.wire.read (min room r.remaining)).1.length }, []⟩ := by
  have hdata : (r.wire.read (min room r.remaining)).1 ≠ [] := by
    rwa [ne_eq, Source.read_eq_nil_iff _ (by omega)]
  rw [chunk, if_neg (by omega), if_pos hr]
  simp only [hdata, if_false]

/-- Between frames, a stream without a readable head ends the chunk with an error. -/
theorem chunk_error (hroom : 0 < room) (hr : r.remaining = 0) {e : IoError}
    (h : readHead r.wire = .error e) : (r.chunk room).result = .error e := by
  rw [chunk, if_neg (by omega), if_neg (by omega)]
  split
  · next e' he => rw [h] at he; cases he; rfl
  · next he => rw [h] at he; cases he

/-- Between frames, what a chunk does follows from the head it reads. -/
theorem chunk_head (hroom : 0 < room) (hr : r.remaining = 0) {head : FrameHead} {wire : Source}
    (h : readHead r.wire = .ok (head, wire)) : r.chunk room =
      if head.opcode ≥ 8 then
        if ¬head.fin ∨ head.length > 125 ∨ head.opcode > 10 then
          ⟨.error (invalid "invalid WebSocket control frame"), r, []⟩
        else
          match wire.readExact head.length with
          | .error e => ⟨.error e, r, []⟩
          | .ok (control, rest) =>
            if head.opcode = 8 then
              if head.length = 1 then
                ⟨.error (invalid "invalid WebSocket close payload"), r, []⟩
              else ⟨.ok [], { r with wire := rest }, [(8, control.take 2)]⟩
            else
              let next := WsReader.chunk { r with wire := rest } room
              if head.opcode = 9 then { next with controls := (10, control) :: next.controls }
              else next
      else if ¬(head.opcode = 0 ∧ r.fragmented ∨ head.opcode = 2 ∧ ¬r.fragmented) then
        ⟨.error (invalid "invalid WebSocket message opcode or continuation"), r, []⟩
      else
        let messageLen := (if head.opcode = 2 then 0 else r.messageLen) + head.length
        if messageLen > maxMessage then
          ⟨.error (invalid "WebSocket message exceeds limit"), r, []⟩
        else WsReader.chunk ⟨wire, head.length, !head.fin, messageLen⟩ room := by
  rw [chunk, if_neg (by omega), if_neg (by omega)]
  split
  · next he => rw [h] at he; cases he
  · next he =>
    rw [h] at he
    cases he
    split
    · split
      · rfl
      · split <;> next hx => simp only [hx]
    · rfl

/-- Between frames, a pong is passed over. -/
theorem chunk_pong (hroom : 0 < room) (hr : r.remaining = 0) {payload rest : Bytes}
    (hp : payload.length ≤ 125)
    (hw : r.wire = ⟨serverFrame 0x8a payload ++ rest, r.wire.grants⟩) :
    r.chunk room = chunk { r with wire := ⟨rest, r.wire.grants⟩ } room := by
  have hexact := Source.readExact_of_append payload rest r.wire.grants
  have hhead := readHead_serverFrame 0x8a 10 true (by decide) (by decide) (by decide)
    (Nat.le_trans hp (by decide)) rest r.wire.grants
  rw [← hw] at hhead
  rw [chunk_head hroom hr hhead]
  simp [hexact, Nat.not_lt.mpr hp]

/-- Between frames, a ping is answered and passed over. -/
theorem chunk_ping (hroom : 0 < room) (hr : r.remaining = 0) {payload rest : Bytes}
    (hp : payload.length ≤ 125)
    (hw : r.wire = ⟨serverFrame 0x89 payload ++ rest, r.wire.grants⟩) :
    r.chunk room = { chunk { r with wire := ⟨rest, r.wire.grants⟩ } room with
      controls := (10, payload) ::
        (chunk { r with wire := ⟨rest, r.wire.grants⟩ } room).controls } := by
  have hexact := Source.readExact_of_append payload rest r.wire.grants
  have hhead := readHead_serverFrame 0x89 9 true (by decide) (by decide) (by decide)
    (Nat.le_trans hp (by decide)) rest r.wire.grants
  rw [← hw] at hhead
  rw [chunk_head hroom hr hhead]
  simp [hexact, Nat.not_lt.mpr hp]

/-- Between frames, a close is answered with its status code and ends the data. -/
theorem chunk_close (hroom : 0 < room) (hr : r.remaining = 0) {payload rest : Bytes}
    (hp : payload.length ≤ 125) (hp1 : payload.length ≠ 1)
    (hw : r.wire = ⟨serverFrame 0x88 payload ++ rest, r.wire.grants⟩) :
    r.chunk room = ⟨.ok [], { r with wire := ⟨rest, r.wire.grants⟩ },
      [(8, payload.take 2)]⟩ := by
  have hexact := Source.readExact_of_append payload rest r.wire.grants
  have hhead := readHead_serverFrame 0x88 8 true (by decide) (by decide) (by decide)
    (Nat.le_trans hp (by decide)) rest r.wire.grants
  rw [← hw] at hhead
  rw [chunk_head hroom hr hhead]
  simp [hexact, Nat.not_lt.mpr hp, hp1]

/-- A ping or pong does not change what a chunk returns. -/
theorem chunk_passes (hroom : 0 < room) (hr : r.remaining = 0) {first : UInt8}
    (hfirst : first = 0x89 ∨ first = 0x8a) {payload rest : Bytes} (hp : payload.length ≤ 125)
    (hw : r.wire = ⟨serverFrame first payload ++ rest, r.wire.grants⟩) :
    (r.chunk room).result = (chunk { r with wire := ⟨rest, r.wire.grants⟩ } room).result ∧
      (r.chunk room).reader = (chunk { r with wire := ⟨rest, r.wire.grants⟩ } room).reader := by
  rcases hfirst with rfl | rfl
  · rw [chunk_ping hroom hr hp hw]
    exact ⟨rfl, rfl⟩
  · rw [chunk_pong hroom hr hp hw]
    exact ⟨rfl, rfl⟩

/-- Between frames, the head of a data frame opens a payload of its length. -/
theorem chunk_opens (hroom : 0 < room) (hr : r.remaining = 0) {fin : Bool} {length : Nat}
    {rest : Bytes} (hp : (if r.fragmented then r.messageLen else 0) + length ≤ maxMessage)
    (hw : r.wire = ⟨((if fin then 0x80 else 0) ||| (if r.fragmented then 0 else 2)) ::
      lengthForm 0 length ++ rest, r.wire.grants⟩) :
    r.chunk room = chunk ⟨⟨rest, r.wire.grants⟩, length, !fin,
      (if r.fragmented then r.messageLen else 0) + length⟩ room := by
  have hlen : length ≤ maxMessage := by omega
  have hhead := readHead_lengthForm
    ((if fin then 0x80 else 0) ||| (if r.fragmented then 0 else 2))
    (if r.fragmented then 0 else 2) fin
    (by cases fin <;> cases r.fragmented <;> decide)
    (by cases fin <;> cases r.fragmented <;> decide)
    (by cases fin <;> cases r.fragmented <;> decide) hlen rest r.wire.grants
  rw [← hw] at hhead
  rw [chunk_head hroom hr hhead]
  cases hfrag : r.fragmented <;> simp [hfrag] at hp ⊢ <;> simp [Nat.not_lt.mpr hp]

/-- Between frames, the head of a data frame opens its payload. -/
theorem chunk_data (hroom : 0 < room) (hr : r.remaining = 0) {fin : Bool} {payload rest : Bytes}
    (hp : (if r.fragmented then r.messageLen else 0) + payload.length ≤ maxMessage)
    (hw : r.wire = ⟨serverFrame ((if fin then 0x80 else 0) |||
      (if r.fragmented then 0 else 2)) payload ++ rest, r.wire.grants⟩) :
    r.chunk room = chunk ⟨⟨payload ++ rest, r.wire.grants⟩, payload.length, !fin,
      (if r.fragmented then r.messageLen else 0) + payload.length⟩ room := by
  rw [serverFrame, List.append_assoc] at hw
  exact chunk_opens hroom hr hp hw

/-- The control frames a chunk asks for are pongs and closes of a legal size. -/
theorem chunk_controls (r : WsReader) (room : Nat) {opcode : UInt8} {data : Bytes}
    (h : (opcode, data) ∈ (r.chunk room).controls) (key : Block 4) :
    (WriterCall.control opcode data key).Allowed := by
  fun_induction WsReader.chunk r room with
  | case1 | case2 | case3 | case4 | case5 | case6 | case7 | case11 | case12 => cases h
  | case8 r _ _ head wire _ _ hhead control rest hcontrol =>
    simp only [List.mem_singleton, Prod.mk.injEq] at h
    obtain ⟨rfl, rfl⟩ := h
    exact ⟨Or.inl rfl, by rw [List.length_take]; omega⟩
  | case9 r _ _ head wire _ _ hhead control rest hcontrol _ next _ ih =>
    rcases List.mem_cons.mp h with heq | h
    · obtain ⟨rfl, rfl⟩ := Prod.mk.inj heq
      refine ⟨Or.inr rfl, ?_⟩
      rw [(wire.readExact_append hcontrol).1]
      simp only [not_or, Nat.not_lt] at hhead
      exact hhead.2.1
    · exact ih h
  | case10 _ _ _ _ _ _ _ _ _ _ _ _ next _ ih => exact ih h
  | case13 _ _ _ _ _ _ _ _ messageLen _ ih => exact ih h

end WsReader

/-- How a served stream may end: at once, or with a close frame and anything behind it. -/
def Closing (tail : Bytes) : Prop :=
  tail = [] ∨ ∃ payload junk : Bytes, payload.length ≤ 125 ∧ payload.length ≠ 1 ∧
    tail = serverFrame 0x88 payload ++ junk

/-- The reader is inside a frame with `body` to come, then `frames`, then the end. -/
structure Serving (r : WsReader) (body : Bytes) (frames : List ServerFrame) (tail : Bytes) :
    Prop where
  /-- The unread stream is exactly this. -/
  wire : r.wire.bytes = body ++ (encodeFrames r.fragmented frames ++ tail)
  /-- The open frame has these bytes left. -/
  remaining : body.length = r.remaining
  /-- The frames to come respect the limits. -/
  fit : FramesFit r.fragmented r.messageLen frames
  /-- The stream ends as streams may. -/
  closing : Closing tail

/-- Inside a frame, a chunk returns a non-empty piece of its payload. -/
theorem Serving.chunk_inside {r : WsReader} {body : Bytes} {frames : List ServerFrame}
    {tail : Bytes} (h : Serving r body frames tail) (hb : body ≠ []) {room : Nat}
    (hroom : 0 < room) :
    ∃ data body', (r.chunk room).result = .ok data ∧ data ≠ [] ∧
      Serving (r.chunk room).reader body' frames tail ∧ data ++ body' = body := by
  have hrem : 0 < r.remaining := h.remaining ▸ List.length_pos_iff.mpr hb
  have hne : r.wire.bytes ≠ [] := by
    rw [h.wire]
    simp [hb]
  rw [WsReader.chunk_payload hroom hrem hne]
  have hle := r.wire.length_read_le (min room r.remaining)
  have happ := r.wire.read_append (min room r.remaining)
  have hdata : (r.wire.read (min room r.remaining)).1 ≠ [] := by
    rwa [ne_eq, Source.read_eq_nil_iff _ (by omega)]
  generalize r.wire.read (min room r.remaining) = read at *
  rw [h.wire] at happ
  -- the read stays within the open frame, so its data begins the body
  have hlen : read.1.length ≤ body.length := by
    rw [h.remaining]
    omega
  obtain ⟨body', hbody, hrest⟩ : ∃ body', body = read.1 ++ body' ∧
      read.2.bytes = body' ++ (encodeFrames r.fragmented frames ++ tail) := by
    rcases List.append_eq_append_iff.mp happ with ⟨c, hc, hr⟩ | ⟨c, hc, hr⟩
    · exact ⟨c, hc, hr⟩
    · have hcl := congrArg List.length hc
      rw [List.length_append] at hcl
      have hcn : c = [] := List.length_eq_zero_iff.mp (by omega)
      subst hcn
      exact ⟨[], by simpa using hc.symm, by simpa using hr.symm⟩
  refine ⟨read.1, body', rfl, hdata, ⟨hrest, ?_, h.fit, h.closing⟩, hbody.symm⟩
  have hbl := congrArg List.length hbody
  rw [List.length_append, h.remaining] at hbl
  show body'.length = r.remaining - read.1.length
  omega

/-- A chunk of a served stream returns the next data, until there is no more. -/
theorem Serving.chunk {r : WsReader} {body : Bytes} {frames : List ServerFrame} {tail : Bytes}
    (h : Serving r body frames tail) {room : Nat} (hroom : 0 < room) :
    (∃ data body' frames', (r.chunk room).result = .ok data ∧ data ≠ [] ∧
      Serving (r.chunk room).reader body' frames' tail ∧
      data ++ (body' ++ framesData frames') = body ++ framesData frames) ∨
    (body ++ framesData frames = [] ∧ ∀ data, (r.chunk room).result = .ok data → data = []) := by
  by_cases hb : body = []
  · subst hb
    induction frames generalizing r with
    | nil =>
      refine Or.inr ⟨rfl, fun data hdata => ?_⟩
      have hr : r.remaining = 0 := h.remaining.symm
      have hwire : r.wire.bytes = tail := h.wire
      rcases h.closing with rfl | ⟨payload, junk, hp, hp1, rfl⟩
      · have hsource : r.wire = ⟨[], r.wire.grants⟩ := by rw [← hwire]
        rw [WsReader.chunk_error hroom hr (e := endOfFile)
          (by rw [hsource]; rfl)] at hdata
        cases hdata
      · rw [WsReader.chunk_close hroom hr hp hp1 (by rw [← hwire])] at hdata
        cases hdata
        rfl
    | cons f fs ih =>
      have hr : r.remaining = 0 := h.remaining.symm
      have hwire : r.wire.bytes = encodeFrames r.fragmented (f :: fs) ++ tail := h.wire
      have hfit := h.fit
      have hpass (first : UInt8) (payload : Bytes) (hfirst : first = 0x89 ∨ first = 0x8a)
          (hp : payload.length ≤ 125) (hfit : FramesFit r.fragmented r.messageLen fs)
          (hw : r.wire.bytes = serverFrame first payload ++
            (encodeFrames r.fragmented fs ++ tail)) :
          (∃ data body' frames', (r.chunk room).result = .ok data ∧ data ≠ [] ∧
            Serving (r.chunk room).reader body' frames' tail ∧
            data ++ (body' ++ framesData frames') = framesData fs) ∨
          (framesData fs = [] ∧ ∀ data, (r.chunk room).result = .ok data → data = []) := by
        obtain ⟨hres, hrd⟩ := WsReader.chunk_passes hroom hr hfirst hp (by rw [← hw])
        rw [hres, hrd]
        exact ih (r := { r with wire := ⟨encodeFrames r.fragmented fs ++ tail, r.wire.grants⟩ })
          ⟨rfl, h.remaining, hfit, h.closing⟩
      cases f with
      | ping payload =>
        exact hpass 0x89 payload (Or.inl rfl) hfit.1 hfit.2
          (by simpa [encodeFrames, List.append_assoc] using hwire)
      | pong payload =>
        exact hpass 0x8a payload (Or.inr rfl) hfit.1 hfit.2
          (by simpa [encodeFrames, List.append_assoc] using hwire)
      | data fin payload =>
        have hw : r.wire.bytes = serverFrame ((if fin then 0x80 else 0) |||
            (if r.fragmented then 0 else 2)) payload ++ (encodeFrames (!fin) fs ++ tail) := by
          simpa [encodeFrames, List.append_assoc] using hwire
        rw [WsReader.chunk_data hroom hr hfit.1 (by rw [← hw])]
        have hnext : Serving ⟨⟨payload ++ (encodeFrames (!fin) fs ++ tail), r.wire.grants⟩,
            payload.length, !fin, (if r.fragmented then r.messageLen else 0) + payload.length⟩
            payload fs tail := ⟨rfl, rfl, hfit.2, h.closing⟩
        by_cases hp : payload = []
        · subst hp
          exact ih hnext
        · obtain ⟨data, body', hres, hne, hserving, happ⟩ := hnext.chunk_inside hp hroom
          refine Or.inl ⟨data, body', fs, hres, hne, hserving, ?_⟩
          rw [← List.append_assoc, happ]
          rfl
  · obtain ⟨data, body', hres, hne, hserving, happ⟩ := h.chunk_inside hb hroom
    exact Or.inl ⟨data, body', frames, hres, hne, hserving, by rw [← List.append_assoc, happ]⟩

end TgWsProxy
