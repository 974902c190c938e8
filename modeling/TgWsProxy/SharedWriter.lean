import TgWsProxy.Core.Transition
import TgWsProxy.WebSocket

/-!
# The shared frame writer

The upload and the download half share one `WsWriter` behind a mutex: the upload
sends binary frames, in parts or at once, and the download answers pings and
closes. `Sent` says what such calls mean, without a wire; the writer refines it
over every run in which only the holder of the mutex calls, refusals included.
-/

namespace TgWsProxy

open TgWsProxy.Core

/-- A call on the writer, with the random mask of the frame it may begin. -/
inductive SharedCall
  | beginBinary (length : Nat) (key : Block 4)
  | payload (data : Bytes)
  | binary (data : Bytes) (key : Block 4)
  | control (opcode : UInt8) (data : Bytes) (key : Block 4)

/-- The outcome of one check and write: a refusal leaves the writer as it was. -/
def WsWriter.settle (w : WsWriter) : Except IoError WsWriter → Except IoError Unit × WsWriter
  | .ok w' => (.ok (), w')
  | .error e => (.error e, w)

/-- The effect of a call on the writer, also of one that fails on the way. -/
def SharedCall.run (w : WsWriter) : SharedCall → Except IoError Unit × WsWriter
  | .beginBinary length key => w.settle (w.beginBinary length key)
  | .payload data => w.settle (w.payload data)
  | .binary data key =>
    match w.settle (w.beginBinary data.length key) with
    | (.ok (), w) => w.settle (w.payload data)
    | (.error e, w) => (.error e, w)
  | .control opcode data key =>
    if data.length > 125 then (.error (invalid "oversized control frame"), w)
    else
      match w.settle (w.begin opcode data.length key) with
      | (.ok (), w) => w.settle (w.payload data)
      | (.error e, w) => (.error e, w)

/-! ## What the calls mean -/

/-- The frames completed so far, and the announced length and the data of the binary
frame in progress. -/
structure Sent where
  frames : List (UInt8 × Bytes) := []
  inProgress : Option (Nat × Bytes) := none
  deriving DecidableEq

namespace Sent

/-- How many bytes the frame in progress still needs. -/
def left (s : Sent) : Nat :=
  match s.inProgress with
  | none => 0
  | some (length, data) => length - data.length

/-- A binary frame of a given length with its first data, complete or not. -/
def extend (s : Sent) (length : Nat) (data : Bytes) : Sent :=
  if data.length = length then ⟨s.frames ++ [(2, data)], none⟩
  else ⟨s.frames, some (length, data)⟩

/-- What an accepted call adds. -/
def add (s : Sent) : SharedCall → Sent
  | .beginBinary length _ => s.extend length []
  | .payload data =>
    match s.inProgress with
    | none => s
    | some (length, front) => s.extend length (front ++ data)
  | .binary data _ => ⟨s.frames ++ [(2, data)], none⟩
  | .control opcode data _ => ⟨s.frames ++ [(opcode, data)], none⟩

/-- Between frames, payload adds nothing. -/
theorem add_payloads_idle {s : Sent} (h : s.inProgress = none) (parts : List Bytes) :
    (parts.map SharedCall.payload).foldl add s = s := by
  induction parts with
  | nil => rfl
  | cons part parts ih =>
    have hstep : s.add (.payload part) = s := by
      simp only [add, h]
    rw [List.map_cons, List.foldl_cons, hstep, ih]

/-- However its data is cut into parts, a frame in progress becomes the same frame. -/
theorem add_parts {s : Sent} {length : Nat} {front : Bytes} (parts : List Bytes)
    (hp : s.inProgress = some (length, front)) (hlt : front.length < length)
    (htotal : front.length + parts.flatten.length = length) :
    (parts.map SharedCall.payload).foldl add s =
      ⟨s.frames ++ [(2, front ++ parts.flatten)], none⟩ := by
  induction parts generalizing s front with
  | nil =>
    rw [List.flatten_nil, List.length_nil] at htotal
    omega
  | cons part parts ih =>
    rw [List.flatten_cons, List.length_append] at htotal
    rw [List.map_cons, List.foldl_cons, List.flatten_cons]
    by_cases hdone : (front ++ part).length = length
    · -- the frame is complete, and the parts behind it are empty
      have hempty : parts.flatten = [] := by
        rw [List.length_append] at hdone
        exact List.length_eq_zero_iff.mp (by omega)
      have hstep : s.add (.payload part) = ⟨s.frames ++ [(2, front ++ part)], none⟩ := by
        simp only [add, hp, extend, hdone, if_true]
      rw [hstep, add_payloads_idle rfl, hempty, List.append_nil]
    · have hstep : s.add (.payload part) = ⟨s.frames, some (length, front ++ part)⟩ := by
        simp only [add, hp, extend, hdone, if_false]
      rw [hstep, ih rfl (by simp only [List.length_append] at hdone ⊢; omega)
        (by rw [List.length_append]; omega), List.append_assoc]

/-- A frame given in parts is the frame given at once. -/
theorem add_beginBinary_parts (s : Sent) (parts : List Bytes) (key key' : Block 4) :
    (parts.map SharedCall.payload).foldl add (s.add (.beginBinary parts.flatten.length key)) =
      s.add (.binary parts.flatten key') := by
  by_cases hempty : parts.flatten = []
  · have hstep : s.add (.beginBinary parts.flatten.length key) =
        s.add (.binary parts.flatten key') := by
      simp [add, extend, hempty]
    rw [hstep]
    exact add_payloads_idle rfl parts
  · have hpos := List.length_pos_iff.mpr hempty
    have hstep : s.add (.beginBinary parts.flatten.length key) =
        ⟨s.frames, some (parts.flatten.length, [])⟩ := by
      simp only [add, extend]
      exact if_neg (Nat.ne_of_lt hpos)
    rw [hstep, add_parts parts rfl hpos (by simp)]
    rfl

/-- Which calls are accepted: a frame begins between frames and within its limit, and a
payload stays within the announced length. -/
def Takes (s : Sent) : SharedCall → Prop
  | .beginBinary length _ => s.inProgress = none ∧ length ≤ maxMessage
  | .payload data => data.length ≤ s.left
  | .binary data _ => s.inProgress = none ∧ data.length ≤ maxMessage
  | .control _ data _ => s.inProgress = none ∧ data.length ≤ 125

end Sent

/-! ## The halves and their mutex -/

/-- The two tasks of a bridge. -/
inductive Half
  | upload
  | download
  deriving DecidableEq

/-- The upload sends binary frames, the download pongs and closes. -/
def Half.makes : Half → SharedCall → Bool
  | .upload, .control .. => false
  | .upload, _ => true
  | .download, .control opcode _ _ => opcode = 8 ∨ opcode = 10
  | .download, _ => false

/-- The writer, the holder of its mutex and the calls it has accepted. -/
structure SharedWriter where
  writer : WsWriter := {}
  holder : Option Half := none
  accepted : List SharedCall := []

/-- What has been given to the writer. -/
def SharedWriter.sent (s : SharedWriter) : Sent := s.accepted.foldl Sent.add {}

/-- What a half may do: take the mutex, call the writer while it holds it, release it. -/
inductive SharedAction
  | lock (half : Half)
  | call (call : SharedCall)
  | unlock

/-- The writer shared by the two halves, in any order that the mutex permits. -/
def sharedWriterSystem : System SharedWriter SharedAction where
  start s := s = {}
  step s
    | .lock half => if s.holder = none then some { s with holder := some half } else none
    | .call call =>
      if s.holder.any (·.makes call) then
        match call.run s.writer with
        | (.ok (), writer) => some { s with writer, accepted := s.accepted ++ [call] }
        | (.error _, writer) => some { s with writer }
      else none
    | .unlock => if s.holder.isSome then some { s with holder := none } else none

/-! ## What a server reads -/

/-- Read a masked head: opcode, length in its shortest form and mask. -/
def readMaskedHead (wire : Source) : Except IoError ((UInt8 × Nat × Bytes) × Source) := do
  let (a, wire) ← wire.readExact 1
  let (b, wire) ← wire.readExact 1
  let a := a.getD 0 0
  let b := b.getD 0 0
  if a &&& 0xf0 ≠ 0x80 ∨ b &&& 128 = 0 then .error (invalid "unmasked or fragmented frame")
  else do
    let (length, wire) ← readLength (b &&& 127) wire
    let (key, wire) ← wire.readExact 4
    .ok ((a &&& 15, length, key), wire)

/-- Read complete frames and then at most one that is still open: its opcode, its
announced length and the data that has arrived. A frame is never empty, so `n` bounds
their number. -/
def readWire (n : Nat) (wire : Source) :
    Except IoError (List (UInt8 × Bytes) × Option (UInt8 × Nat × Bytes)) :=
  if wire.bytes = [] then .ok ([], none)
  else
    match n with
    | 0 => .error (invalid "too many frames")
    | n + 1 => do
      let ((opcode, length, key), wire) ← readMaskedHead wire
      let data := Core.mask (maskStream key) 0 (wire.bytes.take length)
      if data.length < length then .ok ([], some (opcode, length, data))
      else
        let (frames, rest) ← readWire n ⟨wire.bytes.drop length, wire.grants⟩
        .ok ((opcode, data) :: frames, rest)

/-- A masked head is read back, and the masked payload is next. -/
theorem readMaskedHead_header {opcode : UInt8} (ho : opcode < 16) {length : Nat}
    (hl : length ≤ maxMessage) (key : Block 4) (rest : Bytes) (grants : List Nat) :
    readMaskedHead ⟨WsWriter.header opcode length key ++ rest, grants⟩ =
      .ok ((opcode, length, key.val), ⟨rest, grants⟩) := by
  obtain ⟨b, ext, hform, hb, hlen⟩ := lengthForm_read (Or.inr rfl) hl
  obtain ⟨hhigh, hlow⟩ := opcode_masked ho
  have hshape : WsWriter.header opcode length key ++ rest =
      [0x80 ||| opcode] ++ ([b] ++ (ext ++ (key.val ++ rest))) := by
    simp [WsWriter.header, hform]
  have h1 (x : UInt8) (tail : Bytes) :
      Source.readExact ⟨[x] ++ tail, grants⟩ 1 = .ok ([x], ⟨tail, grants⟩) :=
    Source.readExact_of_append [x] tail grants
  have hkey : Source.readExact ⟨key.val ++ rest, grants⟩ 4 = .ok (key.val, ⟨rest, grants⟩) := by
    have hread := Source.readExact_of_append key.val rest grants
    rwa [key.property] at hread
  rw [hshape]
  simp only [readMaskedHead, h1, bind, Except.bind, List.getD_cons_zero, hhigh, hlow, hb, hlen,
    hkey]
  rfl

/-- The bytes of a frame in progress: its whole head and what has been given so far. -/
def openBytes (key : Block 4) : Option (Nat × Bytes) → Bytes
  | none => []
  | some (length, data) =>
    WsWriter.header 2 length key ++ Core.mask (maskStream key.val) 0 data

/-- Every allowed call is a head and a masked payload of its frame. -/
theorem WriterCall.bytes_eq {c : WriterCall} (hc : c.Allowed) :
    ∃ key, c.bytes = WsWriter.header c.frame.1 c.frame.2.length key ++
        Core.mask (maskStream key.val) 0 c.frame.2 ∧
      c.frame.1 < 16 ∧ c.frame.2.length ≤ maxMessage := by
  cases c with
  | binary data key => exact ⟨key, rfl, (by decide : (2 : UInt8) < 16), hc⟩
  | control opcode data key =>
    refine ⟨key, rfl, ?_, Nat.le_trans hc.2 (by decide)⟩
    rcases hc.1 with rfl | rfl
    · exact (by decide : (8 : UInt8) < 16)
    · exact (by decide : (10 : UInt8) < 16)

/-- Complete frames and one in progress are read back as such. -/
theorem readWire_calls {calls : List WriterCall} (hc : ∀ c ∈ calls, c.Allowed) (key : Block 4)
    {inProgress : Option (Nat × Bytes)}
    (ho : ∀ length data, inProgress = some (length, data) →
      data.length < length ∧ length ≤ maxMessage) {n : Nat}
    (hn : (calls.flatMap WriterCall.bytes ++ openBytes key inProgress).length ≤ n) :
    readWire n ⟨calls.flatMap WriterCall.bytes ++ openBytes key inProgress, []⟩ =
      .ok (calls.map WriterCall.frame, inProgress.map ((2, ·))) := by
  induction calls generalizing n with
  | nil =>
    rw [readWire.eq_def]
    cases inProgress with
    | none => rfl
    | some p =>
      obtain ⟨length, data⟩ := p
      obtain ⟨hlt, hmax⟩ := ho length data rfl
      have hhead := readMaskedHead_header (show (2 : UInt8) < 16 by decide) hmax key
        (Core.mask (maskStream key.val) 0 data) []
      have hne : WsWriter.header 2 length key ++ Core.mask (maskStream key.val) 0 data ≠ [] := by
        simp [WsWriter.header]
      have hpos := List.length_pos_iff.mpr hne
      obtain ⟨n, rfl⟩ : ∃ m, n = m + 1 := ⟨n - 1, by
        simp only [List.flatMap_nil, List.nil_append, openBytes] at hn
        omega⟩
      have htake : (Core.mask (maskStream key.val) 0 data).take length =
          Core.mask (maskStream key.val) 0 data := by
        rw [List.take_of_length_le]
        rw [length_mask]
        omega
      simp only [List.flatMap_nil, List.nil_append, openBytes, hne, if_false, hhead, bind,
        Except.bind, htake, mask_mask, hlt, if_true]
      rfl
  | cons c calls ih =>
    obtain ⟨key', hbytes, hop, hmax⟩ := WriterCall.bytes_eq (hc c (List.mem_cons_self ..))
    generalize hrest : calls.flatMap WriterCall.bytes ++ openBytes key inProgress = rest at ih
    have hhead := readMaskedHead_header hop hmax key'
      (Core.mask (maskStream key'.val) 0 c.frame.2 ++ rest) []
    have hwire : (c :: calls).flatMap WriterCall.bytes ++ openBytes key inProgress =
        WsWriter.header c.frame.1 c.frame.2.length key' ++
          (Core.mask (maskStream key'.val) 0 c.frame.2 ++ rest) := by
      rw [List.flatMap_cons, List.append_assoc, hrest, hbytes, List.append_assoc]
    have hlong : rest.length < n := by
      rw [hwire] at hn
      simp only [WsWriter.header, List.length_append, List.length_cons] at hn
      omega
    obtain ⟨n, rfl⟩ : ∃ m, n = m + 1 := ⟨n - 1, by omega⟩
    have htake : (Core.mask (maskStream key'.val) 0 c.frame.2 ++ rest).take c.frame.2.length =
        Core.mask (maskStream key'.val) 0 c.frame.2 := List.take_left' (length_mask ..)
    have hdrop : (Core.mask (maskStream key'.val) 0 c.frame.2 ++ rest).drop c.frame.2.length =
        rest := List.drop_left' (length_mask ..)
    have hne : WsWriter.header c.frame.1 c.frame.2.length key' ++
        (Core.mask (maskStream key'.val) 0 c.frame.2 ++ rest) ≠ [] := by
      simp [WsWriter.header]
    have hread := ih (fun c h => hc c (List.mem_cons_of_mem _ h)) (Nat.lt_succ_iff.mp hlong)
    rw [hwire, readWire.eq_def]
    simp only [hne, if_false, hhead, bind, Except.bind, htake, mask_mask, Nat.lt_irrefl, hdrop,
      hread, List.map_cons]

/-! ## The writer refines its meaning -/

/-- The writer has sent exactly what it was given. -/
structure Writes (w : WsWriter) (s : Sent) : Prop where
  /-- The wire holds the complete frames and then the one in progress. -/
  wire : ∃ calls : List WriterCall, (∀ c ∈ calls, c.Allowed) ∧
    calls.map WriterCall.frame = s.frames ∧
    w.wire = calls.flatMap WriterCall.bytes ++ openBytes w.mask s.inProgress
  /-- The writer counts down what the frame in progress still needs. -/
  remaining : w.remaining = s.left
  /-- The mask continues where the data so far ends. -/
  progress : ∀ length data, s.inProgress = some (length, data) →
    data.length < length ∧ length ≤ maxMessage ∧ w.offset = data.length

namespace Writes

variable {w : WsWriter} {s : Sent}

private theorem left_eq_zero_iff (h : Writes w s) : s.left = 0 ↔ s.inProgress = none := by
  unfold Sent.left
  cases hp : s.inProgress with
  | none => simp
  | some p =>
    obtain ⟨hlt, _⟩ := h.progress p.1 p.2 hp
    simp only [reduceCtorEq, iff_false]
    omega

/-- More data keeps the frame in progress, or completes it. -/
theorem of_extend {w' : WsWriter} {length : Nat} {data : Bytes}
    (hmax : length ≤ maxMessage) (hle : data.length ≤ length)
    (hwire : ∃ calls : List WriterCall, (∀ c ∈ calls, c.Allowed) ∧
      calls.map WriterCall.frame = s.frames ∧
      w'.wire = calls.flatMap WriterCall.bytes ++ openBytes w'.mask (some (length, data)))
    (hremaining : w'.remaining = length - data.length) (hoffset : w'.offset = data.length) :
    Writes w' (s.extend length data) := by
  obtain ⟨calls, hallowed, hframes, hbytes⟩ := hwire
  unfold Sent.extend
  split
  · next hdone =>
    refine ⟨⟨calls ++ [.binary data w'.mask], ?_, ?_, ?_⟩, ?_, by simp⟩
    · intro c hc
      rcases List.mem_append.mp hc with hc | hc
      · exact hallowed c hc
      · obtain rfl := List.mem_singleton.mp hc
        show data.length ≤ maxMessage
        omega
    · simp [hframes, WriterCall.frame]
    · simp [hbytes, openBytes, WriterCall.bytes, hdone]
    · simp [hremaining, Sent.left, hdone]
  · next hopen =>
    refine ⟨⟨calls, hallowed, hframes, hbytes⟩, hremaining, ?_⟩
    intro length' data' heq
    obtain ⟨rfl, rfl⟩ := Prod.mk.inj (Option.some.inj heq)
    exact ⟨by omega, hmax, hoffset⟩

/-- Between frames, a whole frame is one more complete frame. -/
theorem whole (h : Writes w s) (hnone : s.inProgress = none) {w' : WsWriter} {c : WriterCall}
    (hc : c.Allowed) (hidle : w'.remaining = 0) (hwire : w'.wire = w.wire ++ c.bytes) :
    Writes w' ⟨s.frames ++ [c.frame], none⟩ := by
  obtain ⟨calls, hallowed, hframes, hbytes⟩ := h.wire
  refine ⟨⟨calls ++ [c], ?_, ?_, ?_⟩, hidle, by simp⟩
  · intro c' hc'
    rcases List.mem_append.mp hc' with hc' | hc'
    · exact hallowed c' hc'
    · exact List.mem_singleton.mp hc' ▸ hc
  · simp [hframes]
  · simp [hwire, hbytes, hnone, openBytes]

/-- A frame begins exactly between frames and within its limit. -/
theorem begin_eq (h : Writes w s) (opcode : UInt8) (length : Nat) (key : Block 4) :
    w.begin opcode length key =
      if s.inProgress = none ∧ length ≤ maxMessage then
        .ok ⟨w.wire ++ WsWriter.header opcode length key, length, key, 0⟩
      else .error (invalid "invalid outgoing frame length") := by
  have hfree : w.remaining = 0 ↔ s.inProgress = none := by
    rw [h.remaining, h.left_eq_zero_iff]
  unfold WsWriter.begin
  by_cases ht : s.inProgress = none ∧ length ≤ maxMessage
  · rw [if_pos ht, if_neg]
    rw [ne_eq, hfree]
    intro hbad
    rcases hbad with hopen | hlong
    · exact hopen ht.1
    · exact Nat.not_lt.mpr ht.2 hlong
  · rw [if_neg ht, if_pos]
    by_contra hok
    rw [not_or, not_not, Nat.not_lt] at hok
    exact ht ⟨hfree.mp hok.1, hok.2⟩

/-- A refused call writes nothing and changes nothing. -/
theorem refused (h : Writes w s) {c : SharedCall} (ht : ¬s.Takes c) :
    ∃ e, c.run w = (.error e, w) := by
  cases c with
  | beginBinary length key =>
    have hbad : ¬(s.inProgress = none ∧ length ≤ maxMessage) := ht
    rw [SharedCall.run, WsWriter.beginBinary, h.begin_eq, if_neg hbad]
    exact ⟨_, rfl⟩
  | payload data =>
    have hlong : data.length > w.remaining := by
      rw [h.remaining]
      exact Nat.not_le.mp ht
    rw [SharedCall.run, WsWriter.payload, if_pos hlong]
    exact ⟨_, rfl⟩
  | binary data key =>
    have hbad : ¬(s.inProgress = none ∧ data.length ≤ maxMessage) := ht
    rw [SharedCall.run, WsWriter.beginBinary, h.begin_eq, if_neg hbad]
    exact ⟨_, rfl⟩
  | control opcode data key =>
    rw [SharedCall.run]
    split
    · exact ⟨_, rfl⟩
    · next hshort =>
      have hfree : ¬(s.inProgress = none ∧ data.length ≤ maxMessage) :=
        fun hboth => ht ⟨hboth.1, Nat.not_lt.mp hshort⟩
      rw [h.begin_eq, if_neg hfree]
      exact ⟨_, rfl⟩

/-- A payload within the announced length is masked where the frame stands. -/
theorem accepts_payload (h : Writes w s) {data : Bytes} (ht : data.length ≤ s.left) :
    ∃ w', SharedCall.run w (.payload data) = (.ok (), w') ∧
      Writes w' (s.add (.payload data)) := by
  have hfits : ¬data.length > w.remaining := by
    rw [h.remaining]
    exact Nat.not_lt.mpr ht
  rw [SharedCall.run, WsWriter.payload, if_neg hfits]
  refine ⟨_, rfl, ?_⟩
  cases hp : s.inProgress with
  | none =>
    have hnil : data = [] := by
      rw [h.left_eq_zero_iff.mpr hp] at ht
      exact List.length_eq_zero_iff.mp (Nat.le_zero.mp ht)
    subst hnil
    simpa [Sent.add, hp] using h
  | some p =>
    obtain ⟨length, front⟩ := p
    obtain ⟨hlt, hmax, hoffset⟩ := h.progress length front hp
    have hleft : s.left = length - front.length := by
      simp [Sent.left, hp]
    obtain ⟨calls, hallowed, hframes, hbytes⟩ := h.wire
    simp only [Sent.add, hp]
    refine of_extend hmax ?_ ⟨calls, hallowed, hframes, ?_⟩ ?_ ?_
    · rw [List.length_append]
      omega
    · simp [hbytes, hp, openBytes, mask_append, hoffset]
    · rw [List.length_append, ← Nat.sub_sub, ← hleft, ← h.remaining]
    · rw [hoffset, List.length_append]

/-- A whole frame between frames is accepted and written. -/
theorem accepts_whole (h : Writes w s) (hnone : s.inProgress = none) {opcode : UInt8}
    {data : Bytes} (hmax : data.length ≤ maxMessage) (key : Block 4) {c : WriterCall}
    (hc : c.Allowed) (hframe : c.frame = (opcode, data))
    (hbytes : c.bytes = WsWriter.header opcode data.length key ++
      Core.mask (maskStream key.val) 0 data) :
    ∃ w₁ w₂, w.begin opcode data.length key = .ok w₁ ∧ w₁.payload data = .ok w₂ ∧
      Writes w₂ ⟨s.frames ++ [(opcode, data)], none⟩ := by
  have hbegin := h.begin_eq opcode data.length key
  rw [if_pos ⟨hnone, hmax⟩] at hbegin
  refine ⟨_, _, hbegin, if_neg (Nat.lt_irrefl _), ?_⟩
  rw [← hframe]
  apply h.whole hnone hc
  · exact Nat.sub_self _
  · simp [hbytes]

/-- A call that a half may make is accepted where its meaning allows it, and adds just
what it means. -/
theorem accepted (h : Writes w s) {half : Half} {c : SharedCall} (hc : half.makes c = true)
    (ht : s.Takes c) : ∃ w', c.run w = (.ok (), w') ∧ Writes w' (s.add c) := by
  cases c with
  | beginBinary length key =>
    have hok : s.inProgress = none ∧ length ≤ maxMessage := ht
    rw [SharedCall.run, WsWriter.beginBinary, h.begin_eq, if_pos hok]
    refine ⟨_, rfl, ?_⟩
    obtain ⟨calls, hallowed, hframes, hbytes⟩ := h.wire
    refine of_extend ht.2 (Nat.zero_le _) ⟨calls, hallowed, hframes, ?_⟩ rfl rfl
    simp [hbytes, ht.1, openBytes]
  | payload data => exact h.accepts_payload ht
  | binary data key =>
    obtain ⟨w₁, w₂, hbegin, hpayload, hw⟩ := h.accepts_whole ht.1 ht.2 key
      (c := .binary data key) ht.2 rfl rfl
    rw [SharedCall.run, WsWriter.beginBinary, hbegin]
    simp only [WsWriter.settle, hpayload]
    exact ⟨w₂, rfl, hw⟩
  | control opcode data key =>
    have hop : opcode = 8 ∨ opcode = 10 := by
      cases half
      · cases hc
      · simpa [Half.makes] using hc
    obtain ⟨w₁, w₂, hbegin, hpayload, hw⟩ := h.accepts_whole ht.1
      (Nat.le_trans ht.2 (by decide)) key (c := .control opcode data key) ⟨hop, ht.2⟩ rfl rfl
    rw [SharedCall.run, if_neg (Nat.not_lt.mpr ht.2), hbegin]
    simp only [WsWriter.settle, hpayload]
    exact ⟨w₂, rfl, hw⟩

end Writes

/-- In every state of a run the writer has sent exactly what it was given. -/
theorem writes_of_reachable {s : SharedWriter} (h : sharedWriterSystem.Reachable s) :
    Writes s.writer s.sent := by
  refine System.Reachable.invariant (P := fun s => Writes s.writer s.sent) ?_ ?_ h
  · rintro s rfl
    exact ⟨⟨[], by simp, rfl, rfl⟩, rfl, by simp [SharedWriter.sent]⟩
  · intro s a t hs hst
    cases a with
    | lock half =>
      obtain ⟨_, hst⟩ := Option.ite_none_right_eq_some.mp hst
      cases hst
      exact hs
    | unlock =>
      obtain ⟨_, hst⟩ := Option.ite_none_right_eq_some.mp hst
      cases hst
      exact hs
    | call c =>
      obtain ⟨hmakes, hst⟩ := Option.ite_none_right_eq_some.mp hst
      obtain ⟨half, _, hmakes⟩ := (Option.any_eq_true ..).mp hmakes
      by_cases ht : s.sent.Takes c
      · obtain ⟨w', hrun, hw⟩ := hs.accepted hmakes ht
        rw [hrun] at hst
        cases hst
        simpa [SharedWriter.sent] using hw
      · obtain ⟨e, hrun⟩ := hs.refused ht
        rw [hrun] at hst
        cases hst
        exact hs

/-- What the wire and the next call of a writer in a shared run are like. -/
structure WritesFrames (s : SharedWriter) : Prop where
  /-- The wire reads as the complete frames with their data and at most one binary frame
  in progress. -/
  wire : readWire s.writer.wire.length ⟨s.writer.wire, []⟩ =
    .ok (s.sent.frames, s.sent.inProgress.map ((2, ·)))
  /-- A call is accepted exactly where its meaning allows it. -/
  accepted : ∀ half c, Half.makes half c = true →
    ((c.run s.writer).1 = .ok () ↔ s.sent.Takes c)
  /-- A refused call leaves wire and state alone. -/
  refused : ∀ half c e, Half.makes half c = true → (c.run s.writer).1 = .error e →
    (c.run s.writer).2 = s.writer
  /-- A pong or close is only ever sent between frames. -/
  apart : ∀ opcode data key,
    (SharedCall.run s.writer (.control opcode data key)).1 = .ok () → s.sent.inProgress = none
  /-- A frame is the same however its data is cut into payload calls. -/
  parts : ∀ (parts : List Bytes) (key key' : Block 4),
    (parts.map SharedCall.payload).foldl Sent.add
        (s.sent.add (.beginBinary parts.flatten.length key)) =
      s.sent.add (.binary parts.flatten key')

/-- Whatever the two halves call in the order of their mutex, the wire holds whole frames. -/
theorem writesFrames {s : SharedWriter} (h : sharedWriterSystem.Reachable s) :
    WritesFrames s := by
  have hw := writes_of_reachable h
  constructor
  case wire =>
    obtain ⟨calls, hallowed, hframes, hbytes⟩ := hw.wire
    have hopen (length : Nat) (data : Bytes) (hp : s.sent.inProgress = some (length, data)) :
        data.length < length ∧ length ≤ maxMessage :=
      ⟨(hw.progress length data hp).1, (hw.progress length data hp).2.1⟩
    rw [hbytes, ← hframes]
    exact readWire_calls hallowed _ hopen (Nat.le_refl _)
  case accepted =>
    intro half c hmakes
    by_cases ht : s.sent.Takes c
    · obtain ⟨w', hrun, _⟩ := hw.accepted hmakes ht
      simp [hrun, ht]
    · obtain ⟨e, hrun⟩ := hw.refused ht
      simp [hrun, ht]
  case refused =>
    intro half c e hmakes he
    by_cases ht : s.sent.Takes c
    · obtain ⟨w', hrun, _⟩ := hw.accepted hmakes ht
      rw [hrun] at he
      cases he
    · obtain ⟨e', hrun⟩ := hw.refused ht
      rw [hrun]
  case apart =>
    intro opcode data key hok
    by_contra hopen
    obtain ⟨e, hrun⟩ := hw.refused (c := .control opcode data key) fun ht => hopen ht.1
    rw [hrun] at hok
    cases hok
  case parts => exact fun parts key key' => s.sent.add_beginBinary_parts parts key key'

/-- A pong refused inside a packet and sent behind it, and a payload that is too long. -/
theorem writesFrames_refusals :
    ∃ s, sharedWriterSystem.run {} [.lock .upload, .call (.beginBinary 5 ⟨[1, 2, 3, 4], rfl⟩),
        .call (.payload [7, 8]), .call (.payload [9, 9, 9, 9]), .unlock, .lock .download,
        .call (.control 10 [33] ⟨[4, 3, 2, 1], rfl⟩), .unlock, .lock .upload,
        .call (.payload [9, 10, 11]), .unlock, .lock .download,
        .call (.control 10 [33] ⟨[4, 3, 2, 1], rfl⟩)] = some s ∧
      s.sent.frames = [(2, [7, 8, 9, 10, 11]), (10, [33])] ∧ WritesFrames s := by
  obtain ⟨s, hrun, hsent⟩ := sharedWriterSystem.exists_of_run {}
    [.lock .upload, .call (.beginBinary 5 ⟨[1, 2, 3, 4], rfl⟩),
      .call (.payload [7, 8]), .call (.payload [9, 9, 9, 9]), .unlock, .lock .download,
      .call (.control 10 [33] ⟨[4, 3, 2, 1], rfl⟩), .unlock, .lock .upload,
      .call (.payload [9, 10, 11]), .unlock, .lock .download,
      .call (.control 10 [33] ⟨[4, 3, 2, 1], rfl⟩)]
    (fun s => s.sent.frames = [(2, [7, 8, 9, 10, 11]), (10, [33])]) (by decide +kernel)
  exact ⟨s, hrun, of_decide_eq_true hsent, writesFrames (.run (.start rfl) hrun)⟩

end TgWsProxy
