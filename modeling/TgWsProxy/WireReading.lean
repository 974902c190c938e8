import TgWsProxy.WebSocket

/-!
# What a WebSocket stream says

`Reads` is the meaning of a whole stream of server frames, by its grammar: frames
in their shortest form up to a close frame, a malformed or truncated frame or the
end of the stream. The calls of `chunk` on the reader give just that, whatever the
sizes of the buffers and of the reads beneath them.
-/

namespace TgWsProxy

open TgWsProxy.Core

/-! ## The grammar of a stream -/

/-- The seven length bits and the bytes behind them announce a length; `rest` follows. -/
inductive Announces : UInt8 → Bytes → Nat → Bytes → Prop
  | short {b : UInt8} (h : b < 126) (rest : Bytes) : Announces b rest b.toNat rest
  | medium {ext : Bytes} (h : ext.length = 2) (rest : Bytes) :
    Announces 126 (ext ++ rest) (ofBe ext) rest
  | long {ext : Bytes} (h : ext.length = 8) (rest : Bytes) :
    Announces 127 (ext ++ rest) (ofBe ext) rest

/-- At a frame boundary the stream does not go on with an acceptable frame head, or with
a whole control frame. -/
inductive Malformed (fragmented : Bool) (messageLen : Nat) : Bytes → Prop
  /-- The stream ends before the second byte of a head. -/
  | ended {wire : Bytes} (h : wire.length < 2) : Malformed fragmented messageLen wire
  /-- A reserved bit is set. -/
  | reserved {a b : UInt8} {more : Bytes} (h : a &&& 0x70 ≠ 0) :
    Malformed fragmented messageLen (a :: b :: more)
  /-- The frame is masked. -/
  | masked {a b : UInt8} {more : Bytes} (h : b &&& 128 ≠ 0) :
    Malformed fragmented messageLen (a :: b :: more)
  /-- The stream ends inside an extended length. -/
  | lengthCut {a b : UInt8} {more : Bytes}
    (h : b &&& 127 = 126 ∧ more.length < 2 ∨ b &&& 127 = 127 ∧ more.length < 8) :
    Malformed fragmented messageLen (a :: b :: more)
  /-- The length has a shorter form. -/
  | noncanonical {a b : UInt8} {more rest : Bytes} {length : Nat}
    (hl : Announces (b &&& 127) more length rest)
    (h : b &&& 127 = 126 ∧ length < 126 ∨ b &&& 127 = 127 ∧ length < 65536) :
    Malformed fragmented messageLen (a :: b :: more)
  /-- The frame is larger than a message may be. -/
  | oversize {a b : UInt8} {more rest : Bytes} {length : Nat}
    (hl : Announces (b &&& 127) more length rest) (h : maxMessage < length) :
    Malformed fragmented messageLen (a :: b :: more)
  /-- No opcode of a data or control frame that the transport uses. -/
  | opcode {a b : UInt8} {more rest : Bytes} {length : Nat}
    (hl : Announces (b &&& 127) more length rest) (h : a &&& 15 ∉ [0, 2, 8, 9, 10]) :
    Malformed fragmented messageLen (a :: b :: more)
  /-- A control frame that is fragmented or longer than 125 bytes. -/
  | control {a b : UInt8} {more rest : Bytes} {length : Nat}
    (hl : Announces (b &&& 127) more length rest) (hop : a &&& 15 ∈ [8, 9, 10])
    (h : a &&& 128 = 0 ∨ 125 < length) : Malformed fragmented messageLen (a :: b :: more)
  /-- The stream ends inside a control frame. -/
  | controlCut {a b : UInt8} {more rest : Bytes} {length : Nat}
    (hl : Announces (b &&& 127) more length rest) (hop : a &&& 15 ∈ [8, 9, 10])
    (h : rest.length < length) : Malformed fragmented messageLen (a :: b :: more)
  /-- A close payload of one byte. -/
  | closeOne {a b : UInt8} {more rest : Bytes} (hl : Announces (b &&& 127) more 1 rest)
    (hop : a &&& 15 = 8) : Malformed fragmented messageLen (a :: b :: more)
  /-- A continuation of no message, or a message begun inside another. -/
  | illFragmented {a b : UInt8} {more rest : Bytes} {length : Nat}
    (hl : Announces (b &&& 127) more length rest)
    (h : a &&& 15 = (if fragmented then 2 else 0)) :
    Malformed fragmented messageLen (a :: b :: more)
  /-- The message grows beyond the limit. -/
  | message {a b : UInt8} {more rest : Bytes} {length : Nat}
    (hl : Announces (b &&& 127) more length rest)
    (hop : a &&& 15 = (if fragmented then 0 else 2))
    (h : maxMessage < (if fragmented then messageLen else 0) + length) :
    Malformed fragmented messageLen (a :: b :: more)

/-- How reading ends: at a close frame, with the status code to be echoed, or with an error. -/
inductive ReadEnd
  | closed (status : Bytes)
  | failed

/-- The first byte of a data frame. -/
def dataByte (fin fragmented : Bool) : UInt8 :=
  (if fin then 0x80 else 0) ||| (if fragmented then 0 else 2)

/-- From a frame boundary, `wire` carries `data` and the pings `pings` up to its end. -/
inductive Reads : Bool → Nat → Bytes → Bytes → List Bytes → ReadEnd → Prop
  | malformed {fragmented : Bool} {messageLen : Nat} {wire : Bytes}
    (h : Malformed fragmented messageLen wire) :
    Reads fragmented messageLen wire [] [] .failed
  | close {fragmented : Bool} {messageLen : Nat} (payload rest : Bytes)
    (h : payload.length ≤ 125) (h1 : payload.length ≠ 1) :
    Reads fragmented messageLen (serverFrame 0x88 payload ++ rest) [] []
      (.closed (payload.take 2))
  | ping {fragmented : Bool} {messageLen : Nat} (payload : Bytes) {rest data : Bytes}
    {pings : List Bytes} {ending : ReadEnd} (h : payload.length ≤ 125)
    (next : Reads fragmented messageLen rest data pings ending) :
    Reads fragmented messageLen (serverFrame 0x89 payload ++ rest) data (payload :: pings) ending
  | pong {fragmented : Bool} {messageLen : Nat} (payload : Bytes) {rest data : Bytes}
    {pings : List Bytes} {ending : ReadEnd} (h : payload.length ≤ 125)
    (next : Reads fragmented messageLen rest data pings ending) :
    Reads fragmented messageLen (serverFrame 0x8a payload ++ rest) data pings ending
  | data {fragmented : Bool} {messageLen : Nat} (fin : Bool) (payload : Bytes)
    {rest data : Bytes} {pings : List Bytes} {ending : ReadEnd}
    (h : (if fragmented then messageLen else 0) + payload.length ≤ maxMessage)
    (next : Reads (!fin) ((if fragmented then messageLen else 0) + payload.length) rest data
      pings ending) :
    Reads fragmented messageLen (serverFrame (dataByte fin fragmented) payload ++ rest)
      (payload ++ data) pings ending
  | cut {fragmented : Bool} {messageLen : Nat} (fin : Bool) {length : Nat} (front : Bytes)
    (h : (if fragmented then messageLen else 0) + length ≤ maxMessage)
    (hcut : front.length < length) :
    Reads fragmented messageLen (dataByte fin fragmented :: lengthForm 0 length ++ front)
      front [] .failed

/-! ## A session of reads -/

/-- What the calls of `chunk` come to: the pieces they return, the control frames they ask
for, and how the last one ends. -/
structure Session where
  pieces : List Bytes
  controls : List (UInt8 × Bytes)
  ending : Except IoError Unit

/-- Call `chunk` with one buffer after the other until it reports a close or an error. -/
def WsReader.session (rooms : Nat → Nat) (r : WsReader) : Session :=
  match _h : (r.chunk (rooms 0)).result with
  | .error e => ⟨[], (r.chunk (rooms 0)).controls, .error e⟩
  | .ok [] => ⟨[], (r.chunk (rooms 0)).controls, .ok ()⟩
  | .ok (b :: bs) =>
    let rest := session (fun n => rooms (n + 1)) (r.chunk (rooms 0)).reader
    ⟨(b :: bs) :: rest.pieces, (r.chunk (rooms 0)).controls ++ rest.controls, rest.ending⟩
termination_by r.wire.bytes.length
decreasing_by exact r.chunk_shortens (rooms 0) _h (by simp)

/-- The control frames that answer a stream: a pong for each ping, and a close for a close. -/
def answers (pings : List Bytes) : ReadEnd → List (UInt8 × Bytes)
  | .closed status => pings.map ((10, ·)) ++ [(8, status)]
  | .failed => pings.map ((10, ·))

/-- A session has delivered this data, answered these pings and ended so. -/
structure Session.Delivers (s : Session) (data : Bytes) (pings : List Bytes)
    (ending : ReadEnd) : Prop where
  data : s.pieces.flatten = data
  controls : s.controls = answers pings ending
  closed : s.ending = .ok () ↔ ending ≠ .failed

/-! ## One frame -/

/-- Which of the three length forms is read is decided by the seven bits alone. -/
theorem Announces.unique {b : UInt8} {more rest rest' : Bytes} {length length' : Nat}
    (h : Announces b more length rest) (h' : Announces b more length' rest') :
    length = length' ∧ rest = rest' := by
  cases h with
  | short hb =>
    cases h' with
    | short => exact ⟨rfl, rfl⟩
    | medium => exact absurd hb (by decide)
    | long => exact absurd hb (by decide)
  | medium hlen rest =>
    generalize hmore : _ ++ rest = more at h'
    cases h' with
    | short hb => exact absurd hb (by decide)
    | medium hlen' =>
      obtain ⟨rfl, rfl⟩ := List.append_inj hmore (hlen.trans hlen'.symm)
      exact ⟨rfl, rfl⟩
  | long hlen rest =>
    generalize hmore : _ ++ rest = more at h'
    cases h' with
    | short hb => exact absurd hb (by decide)
    | long hlen' =>
      obtain ⟨rfl, rfl⟩ := List.append_inj hmore (hlen.trans hlen'.symm)
      exact ⟨rfl, rfl⟩

/-- A head that can be read: its two bytes, its length and what lies behind it. -/
structure Head (wire : Bytes) (a b : UInt8) (more : Bytes) (length : Nat) (rest : Bytes) :
    Prop where
  wire : wire = a :: b :: more
  reserved : a &&& 0x70 = 0
  masked : b &&& 128 = 0
  announces : Announces (b &&& 127) more length rest
  canonical : ¬(b &&& 127 = 126 ∧ length < 126 ∨ b &&& 127 = 127 ∧ length < 65536)
  fits : length ≤ maxMessage

private theorem short_bits : ∀ v : BitVec 8,
    v &&& 127#8 < 126#8 ∨ v &&& 127#8 = 126#8 ∨ v &&& 127#8 = 127#8 := by
  decide

/-- The seven length bits are short, or one of the two marks. -/
theorem short_cases (b : UInt8) : b &&& 127 < 126 ∨ b &&& 127 = 126 ∨ b &&& 127 = 127 := by
  rcases short_bits b.toBitVec with h | h | h
  · exact .inl h
  · exact .inr (.inl (UInt8.toBitVec_inj.mp h))
  · exact .inr (.inr (UInt8.toBitVec_inj.mp h))

/-- An extended length is read where the stream is long enough. -/
theorem readExtended_cases (width least : Nat) (more : Bytes) (grants : List Nat) :
    (more.length < width ∧ ∃ e, readExtended width least ⟨more, grants⟩ = .error e) ∨
      ∃ ext rest, more = ext ++ rest ∧ ext.length = width ∧
        readExtended width least ⟨more, grants⟩ =
          if ofBe ext < least then .error (invalid "noncanonical frame length")
          else .ok (ofBe ext, ⟨rest, grants⟩) := by
  by_cases hlen : width ≤ more.length
  · refine .inr ⟨more.take width, more.drop width, (List.take_append_drop ..).symm,
      List.length_take_of_le hlen, ?_⟩
    simp [readExtended, Source.readUnsigned, hlen, bind, Except.bind]
  · refine .inl ⟨Nat.not_le.mp hlen, ?_⟩
    simp [readExtended, Source.readUnsigned, hlen, bind, Except.bind]

/-- An extended length is read, or the stream is malformed there. -/
theorem extended_cases {a b : UInt8} {width least : Nat}
    (hform : b &&& 127 = 126 ∧ width = 2 ∧ least = 126 ∨
      b &&& 127 = 127 ∧ width = 8 ∧ least = 65536) (more : Bytes) (grants : List Nat) :
    (∃ length rest, Announces (b &&& 127) more length rest ∧
      ¬(b &&& 127 = 126 ∧ length < 126 ∨ b &&& 127 = 127 ∧ length < 65536) ∧
      readExtended width least ⟨more, grants⟩ = .ok (length, ⟨rest, grants⟩)) ∨
    ((∃ e, readExtended width least ⟨more, grants⟩ = .error e) ∧
      ∀ fragmented messageLen, Malformed fragmented messageLen (a :: b :: more)) := by
  rcases readExtended_cases width least more grants with
    ⟨hcut, herror⟩ | ⟨ext, rest, rfl, hext, heq⟩
  · refine .inr ⟨herror, fun _ _ => .lengthCut ?_⟩
    rcases hform with ⟨hb, rfl, -⟩ | ⟨hb, rfl, -⟩
    · exact .inl ⟨hb, hcut⟩
    · exact .inr ⟨hb, hcut⟩
  · have hann : Announces (b &&& 127) (ext ++ rest) (ofBe ext) rest := by
      rcases hform with ⟨hb, rfl, -⟩ | ⟨hb, rfl, -⟩
      · rw [hb]
        exact .medium hext rest
      · rw [hb]
        exact .long hext rest
    by_cases hleast : ofBe ext < least
    · rw [if_pos hleast] at heq
      refine .inr ⟨⟨_, heq⟩, fun _ _ => .noncanonical hann ?_⟩
      rcases hform with ⟨hb, -, rfl⟩ | ⟨hb, -, rfl⟩
      · exact .inl ⟨hb, hleast⟩
      · exact .inr ⟨hb, hleast⟩
    · rw [if_neg hleast] at heq
      refine .inl ⟨_, _, hann, ?_, heq⟩
      rcases hform with ⟨hb, -, rfl⟩ | ⟨hb, -, rfl⟩
      · rw [hb]
        simpa using hleast
      · rw [hb]
        simpa using hleast

/-- A length is read, or the stream is malformed there. -/
theorem readLength_cases {a b : UInt8} (more : Bytes) (grants : List Nat) :
    (∃ length rest, Announces (b &&& 127) more length rest ∧
      ¬(b &&& 127 = 126 ∧ length < 126 ∨ b &&& 127 = 127 ∧ length < 65536) ∧
      readLength (b &&& 127) ⟨more, grants⟩ = .ok (length, ⟨rest, grants⟩)) ∨
    ((∃ e, readLength (b &&& 127) ⟨more, grants⟩ = .error e) ∧
      ∀ fragmented messageLen, Malformed fragmented messageLen (a :: b :: more)) := by
  by_cases hmedium : b &&& 127 = 126
  · rw [readLength, if_pos hmedium]
    exact extended_cases (.inl ⟨hmedium, rfl, rfl⟩) more grants
  · by_cases hlong : b &&& 127 = 127
    · rw [readLength, if_neg hmedium, if_pos hlong]
      exact extended_cases (.inr ⟨hlong, rfl, rfl⟩) more grants
    · rw [readLength, if_neg hmedium, if_neg hlong]
      have hshort := (short_cases b).resolve_right (not_or.mpr ⟨hmedium, hlong⟩)
      refine .inl ⟨_, _, .short hshort more, ?_, rfl⟩
      simp [hmedium, hlong]

/-- A head is read, or the stream is malformed there. -/
theorem readHead_cases (wire : Bytes) (grants : List Nat) :
    (∃ a b more length rest, Head wire a b more length rest ∧
      readHead ⟨wire, grants⟩ = .ok (⟨a &&& 128 ≠ 0, a &&& 15, length⟩, ⟨rest, grants⟩)) ∨
    ((∃ e, readHead ⟨wire, grants⟩ = .error e) ∧
      ∀ fragmented messageLen, Malformed fragmented messageLen wire) := by
  match wire with
  | [] => exact .inr ⟨⟨_, rfl⟩, fun _ _ => .ended (by simp)⟩
  | [a] => exact .inr ⟨⟨_, rfl⟩, fun _ _ => .ended (by simp)⟩
  | a :: b :: more =>
    have h1 (x : UInt8) (tail : Bytes) :
        Source.readUnsigned ⟨x :: tail, grants⟩ 1 = .ok ([x], ⟨tail, grants⟩) :=
      Source.readUnsigned_eq_ok.mpr (Source.readExact_of_append [x] tail grants)
    by_cases hbits : a &&& 0x70 ≠ 0 ∨ b &&& 128 ≠ 0
    · refine .inr ⟨?_, fun _ _ => ?_⟩
      · simp [readHead, h1, bind, Except.bind, hbits]
      · rcases hbits with ha | hb
        · exact .reserved ha
        · exact .masked hb
    · have hread : readHead ⟨a :: b :: more, grants⟩ =
          (readLength (b &&& 127) ⟨more, grants⟩).bind fun r =>
            if r.1 > maxMessage then .error (invalid "WebSocket frame exceeds limit")
            else .ok (⟨a &&& 128 ≠ 0, a &&& 15, r.1⟩, r.2) := by
        simp only [readHead, h1, bind, Except.bind, List.getD_cons_zero, hbits, if_false]
      rw [not_or, not_not, not_not] at hbits
      rcases readLength_cases (a := a) (b := b) more grants with
        ⟨length, rest, hann, hcanonical, hlen⟩ | ⟨⟨e, he⟩, hbad⟩
      · rw [hread, hlen]
        simp only [Except.bind]
        by_cases hmax : length > maxMessage
        · rw [if_pos hmax]
          exact .inr ⟨⟨_, rfl⟩, fun _ _ => .oversize hann hmax⟩
        · rw [if_neg hmax]
          exact .inl ⟨a, b, more, length, rest,
            ⟨rfl, hbits.1, hbits.2, hann, hcanonical, Nat.not_lt.mp hmax⟩, rfl⟩
      · rw [hread, he]
        exact .inr ⟨⟨e, rfl⟩, hbad⟩

private theorem unmasked_bits : ∀ v : BitVec 8, v &&& 128#8 = 0#8 → v &&& 127#8 = v := by
  decide

/-- Bytes that announce a length canonically are its shortest form. -/
theorem Announces.lengthForm_eq {b : UInt8} {more rest : Bytes} {length : Nat}
    (h : Announces b more length rest)
    (hcanonical : ¬(b = 126 ∧ length < 126 ∨ b = 127 ∧ length < 65536)) :
    b :: more = lengthForm 0 length ++ rest := by
  cases h with
  | short hb rest =>
    have hlt : b.toNat < 126 := UInt8.lt_iff_toNat_lt.mp hb
    simp [lengthForm, hlt]
  | @medium ext hext rest =>
    have hlt := ofBe_lt ext
    rw [hext] at hlt
    have hleast : ¬ofBe ext < 126 := fun h => hcanonical (.inl ⟨rfl, h⟩)
    have hmost : ofBe ext ≤ 65535 := by omega
    have hbytes : toBe 2 (ofBe ext) = ext := by
      rw [← hext, toBe_ofBe]
    simp [lengthForm, hleast, hmost, hbytes]
  | @long ext hext rest =>
    have hleast : ¬ofBe ext < 65536 := fun h => hcanonical (.inr ⟨rfl, h⟩)
    have hlarge : ¬ofBe ext < 126 := by omega
    have hmost : ¬ofBe ext ≤ 65535 := by omega
    have hbytes : toBe 8 (ofBe ext) = ext := by
      rw [← hext, toBe_ofBe]
    simp [lengthForm, hlarge, hmost, hbytes]

namespace Head

variable {wire more rest : Bytes} {a b : UInt8} {length : Nat}

/-- A readable head is a first byte and a length in its shortest form. -/
theorem wire_eq (h : Head wire a b more length rest) :
    wire = a :: lengthForm 0 length ++ rest := by
  have hb : b &&& 127 = b := UInt8.toBitVec_inj.mp
    (unmasked_bits b.toBitVec (congrArg UInt8.toBitVec h.masked))
  have hann := h.announces
  have hcanonical := h.canonical
  rw [hb] at hann hcanonical
  rw [h.wire, hann.lengthForm_eq hcanonical]
  rfl

/-- The rest of the stream is shorter. -/
theorem length_lt (h : Head wire a b more length rest) : rest.length < wire.length := by
  rw [h.wire_eq]
  simp only [List.cons_append, List.length_cons, List.length_append]
  omega

end Head

private theorem first_bits : ∀ v : BitVec 8, v &&& 0x70#8 = 0#8 →
    v = (v &&& 128#8) ||| (v &&& 15#8) ∧ (v &&& 128#8 = 0#8 ∨ v &&& 128#8 = 128#8) := by
  decide

/-- Without reserved bits, a first byte is its final bit and its opcode. -/
theorem first_eq {a : UInt8} (h : a &&& 0x70 = 0) :
    a = (if a &&& 128 ≠ 0 then 0x80 else 0) ||| (a &&& 15) := by
  obtain ⟨heq, hfin⟩ := first_bits a.toBitVec (congrArg UInt8.toBitVec h)
  have heq : a = (a &&& 128) ||| (a &&& 15) := UInt8.toBitVec_inj.mp heq
  rcases hfin with hfin | hfin
  · have hfin : a &&& 128 = 0 := UInt8.toBitVec_inj.mp hfin
    rw [if_neg (not_not.mpr hfin)]
    rwa [hfin] at heq
  · have hfin : a &&& 128 = 128 := UInt8.toBitVec_inj.mp hfin
    rw [if_pos (by rw [hfin]; decide)]
    rwa [hfin] at heq

/-! ## The grammar is total -/

variable {fragmented : Bool} {messageLen : Nat}

/-- A whole frame behind a readable head is the frame of its payload. -/
theorem Head.frame {wire more rest : Bytes} {a b : UInt8} {length : Nat}
    (h : Head wire a b more length rest) (hle : length ≤ rest.length) :
    ∃ payload rest', wire = serverFrame a payload ++ rest' ∧ payload.length = length ∧
      rest'.length < wire.length := by
  have hlen : (rest.take length).length = length := List.length_take_of_le hle
  refine ⟨rest.take length, rest.drop length, ?_, hlen, ?_⟩
  · rw [h.wire_eq, serverFrame, hlen, List.append_assoc, List.take_append_drop]
  · have hlt := h.length_lt
    rw [List.length_drop]
    omega

/-- A stream that goes on with a control frame has a reading if what follows has. -/
theorem reads_control {wire more rest : Bytes} {a b : UInt8} {length : Nat}
    (h : Head wire a b more length rest) (hop : a &&& 15 ∈ [8, 9, 10])
    (ih : ∀ rest' : Bytes, rest'.length < wire.length →
      ∃ data pings ending, Reads fragmented messageLen rest' data pings ending) :
    ∃ data pings ending, Reads fragmented messageLen wire data pings ending := by
  by_cases hshape : a &&& 128 = 0 ∨ 125 < length
  · exact ⟨_, _, _, .malformed (h.wire ▸ .control h.announces hop hshape)⟩
  rw [not_or, Nat.not_lt] at hshape
  by_cases hcut : rest.length < length
  · exact ⟨_, _, _, .malformed (h.wire ▸ .controlCut h.announces hop hcut)⟩
  have hfirst := first_eq h.reserved
  rw [if_pos hshape.1] at hfirst
  obtain ⟨payload, rest', hwire, rfl, hlt⟩ := h.frame (Nat.not_lt.mp hcut)
  obtain ⟨data, pings, ending, hreads⟩ := ih rest' hlt
  simp only [List.mem_cons, List.not_mem_nil, or_false] at hop
  rcases hop with hop | hop | hop
  · rw [hop] at hfirst
    by_cases hone : payload.length = 1
    · have hann := h.announces
      rw [hone] at hann
      exact ⟨_, _, _, .malformed (h.wire ▸ .closeOne hann hop)⟩
    · rw [hwire, hfirst]
      exact ⟨_, _, _, .close payload rest' hshape.2 hone⟩
  · rw [hwire, hfirst, hop]
    exact ⟨_, _, _, .ping payload hshape.2 hreads⟩
  · rw [hwire, hfirst, hop]
    exact ⟨_, _, _, .pong payload hshape.2 hreads⟩

/-- A stream that goes on with a data frame has a reading if what follows has. -/
theorem reads_data {wire more rest : Bytes} {a b : UInt8} {length : Nat}
    (h : Head wire a b more length rest) (hop : a &&& 15 = (if fragmented then 0 else 2))
    (ih : ∀ (rest' : Bytes) (fragmented : Bool) (messageLen : Nat), rest'.length < wire.length →
      ∃ data pings ending, Reads fragmented messageLen rest' data pings ending) :
    ∃ data pings ending, Reads fragmented messageLen wire data pings ending := by
  by_cases hlong : maxMessage < (if fragmented then messageLen else 0) + length
  · exact ⟨_, _, _, .malformed (h.wire ▸ .message h.announces hop hlong)⟩
  have hfits := Nat.not_lt.mp hlong
  have hfirst : a = dataByte (a &&& 128 ≠ 0) fragmented := by
    rw [dataByte, ← hop]
    simpa using first_eq h.reserved
  by_cases hcut : rest.length < length
  · rw [h.wire_eq, hfirst]
    exact ⟨_, _, _, .cut _ rest hfits hcut⟩
  · obtain ⟨payload, rest', hwire, rfl, hlt⟩ := h.frame (Nat.not_lt.mp hcut)
    obtain ⟨data, pings, ending, hreads⟩ := ih rest' (!decide (a &&& 128 ≠ 0)) _ hlt
    rw [hwire, hfirst]
    exact ⟨_, _, _, .data _ payload hfits hreads⟩

/-- Every stream has a reading from every frame boundary. -/
theorem reads_total (wire : Bytes) (fragmented : Bool) (messageLen : Nat) :
    ∃ data pings ending, Reads fragmented messageLen wire data pings ending := by
  induction hn : wire.length using Nat.strongRecOn generalizing wire fragmented messageLen with
  | ind n ih =>
    subst hn
    rcases readHead_cases wire [] with ⟨a, b, more, length, rest, hhead, -⟩ | ⟨-, hbad⟩
    · by_cases hcontrol : a &&& 15 ∈ [8, 9, 10]
      · exact reads_control hhead hcontrol fun rest' hlt => ih _ hlt rest' _ _ rfl
      · by_cases hop : a &&& 15 = (if fragmented then 0 else 2)
        · exact reads_data hhead hop fun rest' _ _ hlt => ih _ hlt rest' _ _ rfl
        · by_cases hill : a &&& 15 = (if fragmented then 2 else 0)
          · exact ⟨_, _, _, .malformed (hhead.wire ▸ .illFragmented hhead.announces hill)⟩
          · refine ⟨_, _, _, .malformed (hhead.wire ▸ .opcode hhead.announces fun hmem => ?_)⟩
            simp only [List.mem_cons, List.not_mem_nil, or_false] at hmem hcontrol
            cases fragmented <;> simp_all
    · exact ⟨_, _, _, .malformed (hbad _ _)⟩

/-! ## What a chunk does at a boundary -/

section Chunks

variable {room : Nat} {r : WsReader}

/-- A control frame that is not whole and well formed is refused. -/
theorem chunk_refuses_control (hroom : 0 < room) (hr : r.remaining = 0) {head : FrameHead}
    {wire : Source} (hread : readHead r.wire = .ok (head, wire)) (hop : head.opcode ≥ 8)
    (h : ¬head.fin ∨ head.length > 125 ∨ head.opcode > 10 ∨ wire.bytes.length < head.length ∨
      head.opcode = 8 ∧ head.length = 1) : ∃ e, r.chunk room = ⟨.error e, r, []⟩ := by
  rw [WsReader.chunk_head hroom hr hread, if_pos hop]
  by_cases hshape : ¬head.fin ∨ head.length > 125 ∨ head.opcode > 10
  · rw [if_pos hshape]
    exact ⟨_, rfl⟩
  rw [if_neg hshape]
  cases hexact : wire.readExact head.length with
  | error e => exact ⟨e, rfl⟩
  | ok front =>
    obtain ⟨control, rest⟩ := front
    obtain ⟨hlen, happ, -⟩ := wire.readExact_append hexact
    have hlen' := congrArg List.length happ
    rw [List.length_append] at hlen'
    have hclose : head.opcode = 8 ∧ head.length = 1 := by
      rcases h with h | h | h | h | h
      · exact absurd (.inl h) hshape
      · exact absurd (.inr (.inl h)) hshape
      · exact absurd (.inr (.inr h)) hshape
      · omega
      · exact h
    exact ⟨invalid "invalid WebSocket close payload", by simp [hclose]⟩

/-- A data frame that does not continue its message, or makes it too long, is refused. -/
theorem chunk_refuses_data (hroom : 0 < room) (hr : r.remaining = 0) {head : FrameHead}
    {wire : Source} (hread : readHead r.wire = .ok (head, wire)) (hop : ¬head.opcode ≥ 8)
    (h : ¬(head.opcode = 0 ∧ r.fragmented ∨ head.opcode = 2 ∧ ¬r.fragmented) ∨
      (if head.opcode = 2 then 0 else r.messageLen) + head.length > maxMessage) :
    ∃ e, r.chunk room = ⟨.error e, r, []⟩ := by
  rw [WsReader.chunk_head hroom hr hread, if_neg hop]
  by_cases hmessage : head.opcode = 0 ∧ r.fragmented ∨ head.opcode = 2 ∧ ¬r.fragmented
  · rw [if_neg (not_not.mpr hmessage)]
    have hlong := h.resolve_left (not_not.mpr hmessage)
    exact ⟨invalid "WebSocket message exceeds limit", by simp [hlong]⟩
  · rw [if_pos hmessage]
    exact ⟨_, rfl⟩

/-- A length that is read lies within the stream. -/
theorem Announces.ext_le {b : UInt8} {more rest : Bytes} {length : Nat}
    (h : Announces b more length rest) :
    ¬(b = 126 ∧ more.length < 2 ∨ b = 127 ∧ more.length < 8) := by
  cases h with
  | short hb =>
    rintro (⟨rfl, -⟩ | ⟨rfl, -⟩)
    · exact absurd hb (by decide)
    · exact absurd hb (by decide)
  | medium hext =>
    rw [List.length_append, hext]
    rintro (⟨-, hlt⟩ | ⟨hb, -⟩)
    · omega
    · exact absurd hb (by decide)
  | long hext =>
    rw [List.length_append, hext]
    rintro (⟨hb, -⟩ | ⟨-, hlt⟩)
    · exact absurd hb (by decide)
    · omega

/-- Control opcodes are the large ones. -/
theorem control_ge {a : UInt8} (h : a &&& 15 ∈ [8, 9, 10]) : a &&& 15 ≥ 8 := by
  simp only [List.mem_cons, List.not_mem_nil, or_false] at h
  rcases h with h | h | h <;> rw [h] <;> decide

/-- Data opcodes are the small ones. -/
theorem data_lt {a : UInt8} {f : Bool} (h : a &&& 15 = (if f then 2 else 0)) :
    ¬a &&& 15 ≥ 8 := by
  rw [h]
  cases f <;> decide

private theorem opcode_large_bits : ∀ v : BitVec 8, v ≠ 8#8 → v ≠ 9#8 → v ≠ 10#8 → 8#8 ≤ v →
    10#8 < v := by
  decide

/-- A head whose frame is malformed is refused. -/
theorem chunk_head_malformed (hroom : 0 < room) (hr : r.remaining = 0) {wire more rest : Bytes}
    {a b : UInt8} {length : Nat} (hhead : Head wire a b more length rest)
    (hread : readHead r.wire = .ok (⟨a &&& 128 ≠ 0, a &&& 15, length⟩, ⟨rest, r.wire.grants⟩))
    (h : Malformed r.fragmented r.messageLen wire) : ∃ e, r.chunk room = ⟨.error e, r, []⟩ := by
  have hwire := hhead.wire
  subst hwire
  cases h with
  | ended hlt =>
    simp only [List.length_cons] at hlt
    omega
  | reserved ha => exact absurd hhead.reserved ha
  | masked hb => exact absurd hhead.masked hb
  | lengthCut hcut => exact absurd hcut hhead.announces.ext_le
  | noncanonical hl hnon =>
    obtain ⟨rfl, rfl⟩ := hhead.announces.unique hl
    exact absurd hnon hhead.canonical
  | oversize hl hmax =>
    obtain ⟨rfl, rfl⟩ := hhead.announces.unique hl
    exact absurd hhead.fits (Nat.not_le.mpr hmax)
  | opcode hl hop =>
    simp only [List.mem_cons, List.not_mem_nil, or_false, not_or] at hop
    obtain ⟨h0, h2, h8, h9, h10⟩ := hop
    by_cases hlarge : a &&& 15 ≥ 8
    · refine chunk_refuses_control hroom hr hread hlarge (.inr (.inr (.inl ?_)))
      exact opcode_large_bits (a &&& 15).toBitVec
        (fun h => h8 (UInt8.toBitVec_inj.mp h)) (fun h => h9 (UInt8.toBitVec_inj.mp h))
        (fun h => h10 (UInt8.toBitVec_inj.mp h)) hlarge
    · exact chunk_refuses_data hroom hr hread hlarge (.inl (by simp [h0, h2]))
  | control hl hop hshape =>
    obtain ⟨rfl, rfl⟩ := hhead.announces.unique hl
    refine chunk_refuses_control hroom hr hread (control_ge hop) ?_
    rcases hshape with hfin | hlong
    · exact .inl (by simp [hfin])
    · exact .inr (.inl hlong)
  | controlCut hl hop hcut =>
    obtain ⟨rfl, rfl⟩ := hhead.announces.unique hl
    exact chunk_refuses_control hroom hr hread (control_ge hop) (.inr (.inr (.inr (.inl hcut))))
  | closeOne hl hop =>
    obtain ⟨rfl, rfl⟩ := hhead.announces.unique hl
    exact chunk_refuses_control hroom hr hread (control_ge (by simp [hop]))
      (.inr (.inr (.inr (.inr ⟨hop, rfl⟩))))
  | illFragmented hl hop =>
    refine chunk_refuses_data hroom hr hread (data_lt hop) (.inl ?_)
    cases hf : r.fragmented <;> simp [hf, hop]
  | message hl hop hlong =>
    obtain ⟨rfl, rfl⟩ := hhead.announces.unique hl
    have hsmall : a &&& 15 = (if !r.fragmented then 2 else 0) := by
      rw [hop]
      cases r.fragmented <;> rfl
    refine chunk_refuses_data hroom hr hread (data_lt hsmall) (.inr ?_)
    cases hf : r.fragmented <;> simp [hf] at hop hlong <;> simp [hop, hlong]

/-- At a malformed point a chunk returns an error and nothing else. -/
theorem chunk_malformed (hroom : 0 < room) (hr : r.remaining = 0)
    (h : Malformed r.fragmented r.messageLen r.wire.bytes) :
    ∃ e, r.chunk room = ⟨.error e, r, []⟩ := by
  rcases readHead_cases r.wire.bytes r.wire.grants with
    ⟨a, b, more, length, rest, hhead, hread⟩ | ⟨⟨e, he⟩, -⟩
  · exact chunk_head_malformed hroom hr hhead hread h
  · refine ⟨e, ?_⟩
    rw [WsReader.chunk, if_neg (by omega), if_neg (by omega)]
    split
    · next e' he' => rw [he] at he'; cases he'; rfl
    · next he' => rw [he] at he'; cases he'

end Chunks

/-! ## The session follows the grammar -/

section Sessions

variable {rooms : Nat → Nat} {r r' : WsReader}

/-- The first call of a session, and what its result leads to. -/
theorem session_eq (rooms : Nat → Nat) (r : WsReader) : r.session rooms =
    match (r.chunk (rooms 0)).result with
    | .error e => ⟨[], (r.chunk (rooms 0)).controls, .error e⟩
    | .ok [] => ⟨[], (r.chunk (rooms 0)).controls, .ok ()⟩
    | .ok (b :: bs) =>
      ⟨(b :: bs) :: ((r.chunk (rooms 0)).reader.session fun n => rooms (n + 1)).pieces,
        (r.chunk (rooms 0)).controls ++
          ((r.chunk (rooms 0)).reader.session fun n => rooms (n + 1)).controls,
        ((r.chunk (rooms 0)).reader.session fun n => rooms (n + 1)).ending⟩ := by
  rw [WsReader.session]
  split <;> next hres => rw [hres]

private theorem session_error {e : IoError} (h : r.chunk (rooms 0) = ⟨.error e, r', []⟩) :
    r.session rooms = ⟨[], [], .error e⟩ := by
  rw [session_eq, h]

private theorem session_close {controls : List (UInt8 × Bytes)}
    (h : r.chunk (rooms 0) = ⟨.ok [], r', controls⟩) :
    r.session rooms = ⟨[], controls, .ok ()⟩ := by
  rw [session_eq, h]

/-- A chunk that returns data is the first piece of a session. -/
theorem session_data {data : Bytes} (hne : data ≠ [])
    (h : r.chunk (rooms 0) = ⟨.ok data, r', []⟩) :
    r.session rooms =
      { r'.session (fun n => rooms (n + 1)) with
        pieces := data :: (r'.session fun n => rooms (n + 1)).pieces } := by
  obtain ⟨b, bs, rfl⟩ := List.exists_cons_of_ne_nil hne
  rw [session_eq, h]
  rfl

/-- Sessions agree, apart from the frames passed over, when their first chunks do. -/
theorem session_passes (passed : List (UInt8 × Bytes))
    (h : r.chunk (rooms 0) = { r'.chunk (rooms 0) with
      controls := passed ++ (r'.chunk (rooms 0)).controls }) :
    r.session rooms = { r'.session rooms with
      controls := passed ++ (r'.session rooms).controls } := by
  rw [session_eq rooms r, session_eq rooms r', h]
  dsimp only
  split <;> simp

/-- Inside a frame, the session goes through its payload to the next boundary. -/
theorem session_payload (hrooms : ∀ n, 0 < rooms n) (body rest : Bytes) (grants : List Nat)
    (fragmented : Bool) (messageLen : Nat) :
    ∃ rooms' grants' pieces, (∀ n, 0 < rooms' n) ∧ pieces.flatten = body ∧
      WsReader.session rooms ⟨⟨body ++ rest, grants⟩, body.length, fragmented, messageLen⟩ =
        { WsReader.session rooms' ⟨⟨rest, grants'⟩, 0, fragmented, messageLen⟩ with
          pieces := pieces ++
            (WsReader.session rooms' ⟨⟨rest, grants'⟩, 0, fragmented, messageLen⟩).pieces } := by
  induction hn : body.length using Nat.strongRecOn generalizing body grants rooms with
  | ind n ih =>
    subst hn
    by_cases hnil : body = []
    · subst hnil
      exact ⟨rooms, grants, [], hrooms, rfl, rfl⟩
    · have hpos := List.length_pos_iff.mpr hnil
      have hroom := hrooms 0
      obtain ⟨front, back, rfl, hfront, hread⟩ := Source.read_front body rest grants
        (show 0 < min (rooms 0) body.length by omega) (Nat.min_le_right ..)
      have hne : front ≠ [] := List.length_pos_iff.mp hfront
      have hchunk : WsReader.chunk
          ⟨⟨front ++ back ++ rest, grants⟩, (front ++ back).length, fragmented, messageLen⟩
          (rooms 0) = ⟨.ok front,
            ⟨⟨back ++ rest, grants.tail⟩, back.length, fragmented, messageLen⟩, []⟩ := by
        rw [WsReader.chunk_payload hroom hpos (by simp [hne]), hread]
        simp
      obtain ⟨rooms', grants', pieces, hrooms', hpieces, hsession⟩ :=
        ih back.length (by simp; omega) (fun n => hrooms (n + 1)) back grants.tail rfl
      refine ⟨rooms', grants', front :: pieces, hrooms', by simp [hpieces], ?_⟩
      rw [session_data hne hchunk, hsession]
      rfl

/-- A stream that ends inside a payload gives the part that has arrived and an error. -/
theorem session_cut (hrooms : ∀ n, 0 < rooms n) {front : Bytes} {length : Nat}
    (hcut : front.length < length) (grants : List Nat) (fragmented : Bool) (messageLen : Nat) :
    ∃ pieces e, pieces.flatten = front ∧
      WsReader.session rooms ⟨⟨front, grants⟩, length, fragmented, messageLen⟩ =
        ⟨pieces, [], .error e⟩ := by
  induction hn : front.length using Nat.strongRecOn
    generalizing front length grants rooms with
  | ind n ih =>
    subst hn
    have hroom := hrooms 0
    have hpos : 0 < length := by omega
    by_cases hnil : front = []
    · subst hnil
      have hchunk : WsReader.chunk ⟨⟨[], grants⟩, length, fragmented, messageLen⟩ (rooms 0) =
          ⟨.error ⟨.unexpectedEof, "unexpected end of file"⟩,
            ⟨⟨[], grants⟩, length, fragmented, messageLen⟩, []⟩ := by
        rw [WsReader.chunk, if_neg (by omega), if_pos hpos]
        simp [Source.read]
      exact ⟨[], _, rfl, session_error hchunk⟩
    · obtain ⟨k, hk, hkroom, hread⟩ := Source.read_eq_take ⟨front, grants⟩
        (show 0 < min (rooms 0) length by omega)
      have htake : front.take k ≠ [] := by
        simpa [Nat.pos_iff_ne_zero.mp hk] using hnil
      have hlen : (front.take k).length + (front.drop k).length = front.length := by
        rw [← List.length_append, List.take_append_drop]
      have hlt := List.length_pos_iff.mpr htake
      have hchunk : WsReader.chunk ⟨⟨front, grants⟩, length, fragmented, messageLen⟩ (rooms 0) =
          ⟨.ok (front.take k), ⟨⟨front.drop k, grants.tail⟩, length - (front.take k).length,
            fragmented, messageLen⟩, []⟩ := by
        rw [WsReader.chunk_payload hroom hpos hnil, hread]
      obtain ⟨pieces, e, hpieces, hsession⟩ := ih (front.drop k).length (by omega)
        (fun n => hrooms (n + 1))
        (show (front.drop k).length < length - (front.take k).length by omega) grants.tail rfl
      refine ⟨front.take k :: pieces, e, ?_, ?_⟩
      · rw [List.flatten_cons, hpieces, List.take_append_drop]
      · rw [session_data htake hchunk, hsession]

/-- A session from a frame boundary delivers what the grammar says. -/
theorem Reads.delivers {fragmented : Bool} {messageLen : Nat} {wire data : Bytes}
    {pings : List Bytes} {ending : ReadEnd}
    (h : Reads fragmented messageLen wire data pings ending) (hrooms : ∀ n, 0 < rooms n)
    (grants : List Nat) :
    (WsReader.session rooms ⟨⟨wire, grants⟩, 0, fragmented, messageLen⟩).Delivers data pings
      ending := by
  induction h generalizing rooms grants with
  | malformed h =>
    obtain ⟨e, hchunk⟩ := chunk_malformed
      (r := ⟨⟨_, grants⟩, 0, _, _⟩) (hrooms 0) rfl h
    rw [session_error hchunk]
    exact ⟨rfl, rfl, by simp⟩
  | close payload rest h h1 =>
    rw [session_close (WsReader.chunk_close (hrooms 0) rfl h h1 rfl)]
    exact ⟨rfl, rfl, by simp⟩
  | @ping fragmented messageLen payload rest data pings ending h next ih =>
    have hsession := session_passes [(10, payload)]
      (WsReader.chunk_ping (r := ⟨⟨serverFrame 0x89 payload ++ rest, grants⟩, 0, fragmented,
        messageLen⟩) (hrooms 0) rfl h rfl)
    obtain ⟨hdata, hcontrols, hclosed⟩ := ih hrooms grants
    rw [hsession]
    refine ⟨hdata, ?_, hclosed⟩
    rw [hcontrols]
    cases ending <;> rfl
  | @pong fragmented messageLen payload rest data pings ending h next ih =>
    have hsession := session_passes []
      (WsReader.chunk_pong (r := ⟨⟨serverFrame 0x8a payload ++ rest, grants⟩, 0, fragmented,
        messageLen⟩) (hrooms 0) rfl h rfl)
    rw [hsession]
    exact ih hrooms grants
  | @data fragmented messageLen fin payload rest data pings ending h next ih =>
    have hsession := session_passes []
      (WsReader.chunk_data (r := ⟨⟨serverFrame (dataByte fin fragmented) payload ++ rest, grants⟩,
        0, fragmented, messageLen⟩) (hrooms 0) rfl h rfl)
    obtain ⟨rooms', grants', pieces, hrooms', hpieces, hpayload⟩ := session_payload hrooms payload
      rest grants (!fin) ((if fragmented then messageLen else 0) + payload.length)
    obtain ⟨hdata, hcontrols, hclosed⟩ := ih hrooms' grants'
    rw [hsession, hpayload]
    exact ⟨by simp [hpieces, hdata], hcontrols, hclosed⟩
  | @cut fragmented messageLen fin length front h hcut =>
    have hsession := session_passes []
      (WsReader.chunk_opens (r := ⟨⟨dataByte fin fragmented :: lengthForm 0 length ++ front,
        grants⟩, 0, fragmented, messageLen⟩) (hrooms 0) rfl h rfl)
    obtain ⟨pieces, e, hpieces, hcutoff⟩ := session_cut hrooms hcut grants (!fin)
      ((if fragmented then messageLen else 0) + length)
    rw [hsession, hcutoff]
    exact ⟨hpieces, rfl, by simp⟩

/-- Only a close is reported as an empty read. -/
theorem session_pieces_ne_nil (rooms : Nat → Nat) (r : WsReader) :
    ∀ piece ∈ (r.session rooms).pieces, piece ≠ [] := by
  fun_induction WsReader.session rooms r with
  | case1 | case2 => simp
  | case3 rooms r b bs h rest ih =>
    intro piece hpiece
    rcases List.mem_cons.mp hpiece with rfl | hpiece
    · simp
    · exact ih piece hpiece

end Sessions

/-- Data, pings and end can be read off a session. -/
theorem Session.Delivers.unique {s : Session} {data data' : Bytes} {pings pings' : List Bytes}
    {ending ending' : ReadEnd} (h : s.Delivers data pings ending)
    (h' : s.Delivers data' pings' ending') :
    data = data' ∧ pings = pings' ∧ ending = ending' := by
  have hanswers := h.controls.symm.trans h'.controls
  have hclosed := h.closed.symm.trans h'.closed
  have hinjective : Function.Injective fun ping : Bytes => ((10 : UInt8), ping) :=
    fun _ _ heq => (Prod.mk.inj heq).2
  refine ⟨h.data.symm.trans h'.data, ?_⟩
  cases ending with
  | failed =>
    cases ending' with
    | failed => exact ⟨hinjective.list_map hanswers, rfl⟩
    | closed => simp at hclosed
  | closed status =>
    cases ending' with
    | failed => simp at hclosed
    | closed status' =>
      obtain ⟨hpings, hstatus⟩ := List.append_inj' hanswers rfl
      simp only [List.cons.injEq, Prod.mk.injEq, true_and, and_true] at hstatus
      exact ⟨hinjective.list_map hpings, by rw [hstatus]⟩

/-- What a session over a stream is, whatever its buffers and the reads beneath it. -/
structure ReadsStream (wire : Bytes) (s : Session) : Prop where
  /-- The stream has a reading, and the session is that reading and no other: it depends on
  neither the buffers nor the reads beneath them. -/
  reads : ∃ data pings ending, Reads false 0 wire data pings ending ∧
    s.Delivers data pings ending
  exact : ∀ data pings ending, s.Delivers data pings ending ↔
    Reads false 0 wire data pings ending
  /-- The call returns `Ok(0)` exactly at a valid close frame, and an error exactly where the
  stream is malformed or ends. -/
  closed : s.ending = .ok () ↔ ∃ data pings status, Reads false 0 wire data pings (.closed status)
  failed : (∃ e, s.ending = .error e) ↔ ∃ data pings, Reads false 0 wire data pings .failed
  /-- Data is returned in non-empty pieces. -/
  pieces : ∀ piece ∈ s.pieces, piece ≠ []

/-- The calls of `chunk` on a fresh reader return what its stream says. -/
theorem readsStream {rooms : Nat → Nat} (hrooms : ∀ n, 0 < rooms n) (wire : Bytes)
    (grants : List Nat) :
    ReadsStream wire (WsReader.session rooms { wire := ⟨wire, grants⟩ }) := by
  obtain ⟨data, pings, ending, hreads⟩ := reads_total wire false 0
  have hdelivers := hreads.delivers hrooms grants
  have hexact (data' : Bytes) (pings' : List Bytes) (ending' : ReadEnd) :
      (WsReader.session rooms { wire := ⟨wire, grants⟩ }).Delivers data' pings' ending' ↔
        Reads false 0 wire data' pings' ending' := by
    constructor
    · intro h
      obtain ⟨rfl, rfl, rfl⟩ := hdelivers.unique h
      exact hreads
    · exact fun h => h.delivers hrooms grants
  constructor
  case reads => exact ⟨data, pings, ending, hreads, hdelivers⟩
  case exact => exact hexact
  case closed =>
    rw [hdelivers.closed]
    constructor
    · intro hne
      cases ending with
      | failed => exact absurd rfl hne
      | closed status => exact ⟨data, pings, status, hreads⟩
    · rintro ⟨data', pings', status, h⟩
      obtain ⟨-, -, rfl⟩ := hdelivers.unique ((hexact ..).mpr h)
      simp
  case failed =>
    have hor : (∃ e, (WsReader.session rooms { wire := ⟨wire, grants⟩ }).ending = .error e) ↔
        ¬(WsReader.session rooms { wire := ⟨wire, grants⟩ }).ending = .ok () := by
      cases (WsReader.session rooms { wire := ⟨wire, grants⟩ }).ending <;> simp
    rw [hor, hdelivers.closed, not_not]
    constructor
    · rintro rfl
      exact ⟨data, pings, hreads⟩
    · rintro ⟨data', pings', h⟩
      exact (hdelivers.unique ((hexact ..).mpr h)).2.2
  case pieces => exact session_pieces_ne_nil rooms _

/-- A fragmented message around a ping, a pong and a close, read two bytes at a time. -/
theorem readsStream_fragments :
    ReadsStream [0x02, 3, 97, 98, 99, 0x89, 1, 33, 0x80, 2, 100, 101, 0x8a, 0, 0x88, 0]
      (WsReader.session (fun _ => 2)
        { wire := ⟨[0x02, 3, 97, 98, 99, 0x89, 1, 33, 0x80, 2, 100, 101, 0x8a, 0, 0x88, 0],
          [1, 1]⟩ }) :=
  readsStream (fun _ => by decide) _ _

end TgWsProxy
