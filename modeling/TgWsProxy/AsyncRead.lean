import TgWsProxy.Io

/-!
# Readers

`AsyncRead` of tokio: a reader is known by the bytes that it has to come and by its end, and each
of its reads takes some of these bytes off the front. The adapters that repeat its reads are
written out as the loops that they are, and depend on the bytes and on the end alone: not on how
many bytes a read returns.
-/

namespace TgWsProxy

/-- A reader: what it has to come, the error that it ends with, if it does, and its reads. -/
class AsyncRead (R : Type) where
  bytes : R → Bytes
  failure : R → Option IoError
  /-- One `read` into a buffer of so many bytes. -/
  read : R → Nat → Except IoError (Bytes × R)
  /-- A read at the end fails, or returns nothing. -/
  read_end : ∀ r {room}, 0 < room → bytes r = [] →
    (∀ e, failure r = some e → read r room = .error e) ∧
      (failure r = none → ∃ r', read r room = .ok ([], r'))
  /-- A read before the end takes some bytes off the front. -/
  read_front : ∀ r {room}, 0 < room → bytes r ≠ [] → ∃ data r', read r room = .ok (data, r') ∧
    data ≠ [] ∧ data.length ≤ room ∧ data ++ bytes r' = bytes r ∧ failure r' = failure r

namespace AsyncRead

variable {R : Type} [AsyncRead R]

/-- The loop of `read_exact` and its like; `eof` is the error of a stream that ends early. -/
def fill (eof : IoError) (r : R) (room : Nat) : Except IoError (Bytes × R) :=
  if room = 0 then .ok ([], r)
  else
    match read r room with
    | .error e => .error e
    | .ok (data, r') =>
      if _h : data = [] then .error eof
      else (fill eof r' (room - data.length)).map fun (rest, r'') => (data ++ rest, r'')
termination_by room
decreasing_by
  have := List.length_pos_iff.mpr _h
  omega

/-- `read_exact`. -/
def readExact (r : R) (room : Nat) : Except IoError (Bytes × R) :=
  fill ⟨.unexpectedEof, "early eof"⟩ r room

/-- `read_u8`. -/
def readU8 (r : R) : Except IoError (UInt8 × R) :=
  (fill endOfFile r 1).map fun (data, r') => (data.headD 0, r')

/-- `read_u16`. -/
def readU16 (r : R) : Except IoError (UInt16 × R) :=
  (fill endOfFile r 2).map fun (data, r') =>
    (data.foldl (fun value b => value * 256 + b.toUInt16) 0, r')

/-- `take(limit).read_to_end`. -/
def readToEnd (r : R) (limit : Nat) : Except IoError (Bytes × R) :=
  if limit = 0 then .ok ([], r)
  else
    match read r limit with
    | .error e => .error e
    | .ok (data, r') =>
      if _h : data = [] then .ok ([], r')
      else (readToEnd r' (limit - data.length)).map fun (rest, r'') => (data ++ rest, r'')
termination_by limit
decreasing_by
  have := List.length_pos_iff.mpr _h
  omega

/-! ## Reads do not depend on their sizes -/

variable {r r' : R} {room : Nat} {data : Bytes}

/-- Filling a buffer takes its bytes off the front, however the reads are granted. -/
theorem fill_of_le (eof : IoError) (h : room ≤ (bytes r).length) :
    ∃ r', fill eof r room = .ok ((bytes r).take room, r') ∧ bytes r' = (bytes r).drop room ∧
      failure r' = failure r := by
  induction room using Nat.strongRecOn generalizing r with
  | ind room ih =>
    rw [fill]
    by_cases hzero : room = 0
    · subst hzero
      exact ⟨r, if_pos rfl, rfl, rfl⟩
    · have hne : bytes r ≠ [] := List.length_pos_iff.mp (by omega)
      obtain ⟨data, r₁, hread, hdata, hle, happend, hfailure⟩ := read_front r
        (Nat.pos_of_ne_zero hzero) hne
      have hpos := List.length_pos_iff.mpr hdata
      have hlength := congrArg List.length happend
      rw [List.length_append] at hlength
      obtain ⟨r₂, hfill, hbytes, hfailure₂⟩ :=
        ih (room - data.length) (by omega) (r := r₁) (by omega)
      refine ⟨r₂, ?_, ?_, hfailure₂.trans hfailure⟩
      · rw [if_neg hzero, hread]
        simp only [dif_neg hdata, hfill, Except.map, ← happend]
        rw [List.take_append, List.take_of_length_le hle]
      · rw [hbytes, ← happend, List.drop_append, List.drop_of_length_le hle, List.nil_append]

/-- A stream that ends before the buffer is full. -/
theorem fill_of_lt (eof : IoError) (h : (bytes r).length < room) :
    fill eof r room = .error ((failure r).getD eof) := by
  induction room using Nat.strongRecOn generalizing r with
  | ind room ih =>
    have hpos : 0 < room := by omega
    rw [fill, if_neg (Nat.pos_iff_ne_zero.mp hpos)]
    by_cases hnil : bytes r = []
    · obtain ⟨herror, hok⟩ := read_end r hpos hnil
      cases hfailure : failure r with
      | some e =>
        rw [herror e hfailure]
        rfl
      | none =>
        obtain ⟨r', hread⟩ := hok hfailure
        rw [hread]
        simp
    · obtain ⟨data, r₁, hread, hdata, hle, happend, hfailure⟩ := read_front r hpos hnil
      have hlength := congrArg List.length happend
      have hdpos := List.length_pos_iff.mpr hdata
      rw [List.length_append] at hlength
      rw [hread]
      simp only [dif_neg hdata]
      rw [ih (room - data.length) (by omega) (r := r₁) (by omega), hfailure]
      rfl

/-- The wanted bytes are taken off the front of the stream. -/
theorem readExact_of_append {front rest : Bytes} (h : bytes r = front ++ rest) :
    ∃ r', readExact r front.length = .ok (front, r') ∧ bytes r' = rest ∧
      failure r' = failure r := by
  have hle : front.length ≤ (bytes r).length := by
    rw [h, List.length_append]
    exact Nat.le_add_right ..
  obtain ⟨r', hfill, hbytes, hfailure⟩ := fill_of_le _ hle
  rw [h, List.take_left] at hfill
  rw [h, List.drop_left] at hbytes
  exact ⟨r', hfill, hbytes, hfailure⟩

/-- A full buffer is as long as it was asked for. -/
theorem length_of_readExact (h : readExact r room = .ok (data, r')) : data.length = room := by
  rcases Nat.lt_or_ge (bytes r).length room with hlt | hge
  · cases h.symm.trans (fill_of_lt _ hlt)
  · obtain ⟨r'', hfill, -⟩ := fill_of_le _ hge
    obtain ⟨rfl, -⟩ := Prod.mk.inj (Except.ok.inj (h.symm.trans hfill))
    exact List.length_take_of_le hge

/-- A buffer is filled off the front of the stream. -/
theorem bytes_of_readExact (h : readExact r room = .ok (data, r')) :
    bytes r = data ++ bytes r' := by
  rcases Nat.lt_or_ge (bytes r).length room with hlt | hge
  · cases h.symm.trans (fill_of_lt _ hlt)
  · obtain ⟨r'', hfill, hbytes, -⟩ := fill_of_le _ hge
    obtain ⟨rfl, rfl⟩ := Prod.mk.inj (Except.ok.inj (h.symm.trans hfill))
    rw [hbytes, List.take_append_drop]

/-- One byte. -/
theorem readU8_of_cons {b : UInt8} {rest : Bytes} (h : bytes r = b :: rest) :
    ∃ r', readU8 r = .ok (b, r') ∧ bytes r' = rest ∧ failure r' = failure r := by
  have hle : 1 ≤ (bytes r).length := by
    rw [h]
    exact Nat.succ_le_succ (Nat.zero_le _)
  obtain ⟨r', hfill, hbytes, hfailure⟩ := fill_of_le endOfFile hle
  rw [h] at hfill hbytes
  refine ⟨r', ?_, hbytes, hfailure⟩
  rw [readU8, hfill]
  rfl

/-- A byte that is asked for behind the last one is an error. -/
theorem readU8_of_nil (h : bytes r = []) : readU8 r = .error ((failure r).getD endOfFile) := by
  rw [readU8, fill_of_lt _ (by rw [h]; exact Nat.zero_lt_one)]
  rfl

/-- A byte that is read is the next of the bytes. -/
theorem bytes_of_readU8 {b : UInt8} (h : readU8 r = .ok (b, r')) : bytes r = b :: bytes r' := by
  cases hr : bytes r with
  | nil => cases h.symm.trans (readU8_of_nil hr)
  | cons b' rest =>
    obtain ⟨r'', hread, hrest, -⟩ := readU8_of_cons hr
    obtain ⟨rfl, rfl⟩ := Prod.mk.inj (Except.ok.inj (h.symm.trans hread))
    rw [hrest]

/-- Two bytes, the first one weighing more. -/
theorem readU16_of_cons {b b' : UInt8} {rest : Bytes} (h : bytes r = b :: b' :: rest) :
    ∃ r', readU16 r = .ok (b.toUInt16 * 256 + b'.toUInt16, r') ∧ bytes r' = rest ∧
      failure r' = failure r := by
  have hle : 2 ≤ (bytes r).length := by
    rw [h]
    exact Nat.succ_le_succ (Nat.succ_le_succ (Nat.zero_le _))
  obtain ⟨r', hfill, hbytes, hfailure⟩ := fill_of_le endOfFile hle
  rw [h] at hfill hbytes
  refine ⟨r', ?_, hbytes, hfailure⟩
  rw [readU16, hfill]
  simp [Except.map]

/-- All of a stream, where the limit and the end of the stream allow. -/
theorem readToEnd_of_lt {limit : Nat} (h : (bytes r).length < limit) :
    (failure r = none → ∃ r', readToEnd r limit = .ok (bytes r, r')) ∧
    ∀ e, failure r = some e → readToEnd r limit = .error e := by
  induction limit using Nat.strongRecOn generalizing r with
  | ind limit ih =>
    have hpos : 0 < limit := by omega
    rw [readToEnd, if_neg (Nat.pos_iff_ne_zero.mp hpos)]
    by_cases hnil : bytes r = []
    · obtain ⟨herror, hok⟩ := read_end r hpos hnil
      refine ⟨fun hnone => ?_, fun e he => ?_⟩
      · obtain ⟨r', hread⟩ := hok hnone
        refine ⟨r', ?_⟩
        rw [hread, hnil]
        simp
      · rw [herror e he]
    · obtain ⟨data, r₁, hread, hdata, hle, happend, hfailure⟩ := read_front r hpos hnil
      have hlength := congrArg List.length happend
      have hdpos := List.length_pos_iff.mpr hdata
      rw [List.length_append] at hlength
      obtain ⟨hok, herror⟩ := ih (limit - data.length) (by omega) (r := r₁) (by omega)
      rw [hread]
      simp only [dif_neg hdata]
      refine ⟨fun hnone => ?_, fun e he => ?_⟩
      · obtain ⟨r', hr'⟩ := hok (hfailure.trans hnone)
        exact ⟨r', by rw [hr', ← happend]; rfl⟩
      · rw [herror e (hfailure.trans he)]
        rfl

/-- As many bytes as the limit allows, where there are more. -/
theorem readToEnd_of_ge {limit : Nat} (h : limit ≤ (bytes r).length) :
    ∃ r', readToEnd r limit = .ok ((bytes r).take limit, r') := by
  induction limit using Nat.strongRecOn generalizing r with
  | ind limit ih =>
    rw [readToEnd]
    by_cases hzero : limit = 0
    · subst hzero
      exact ⟨r, if_pos rfl⟩
    · have hne : bytes r ≠ [] := List.length_pos_iff.mp (by omega)
      obtain ⟨data, r₁, hread, hdata, hle, happend, hfailure⟩ := read_front r
        (Nat.pos_of_ne_zero hzero) hne
      have hlength := congrArg List.length happend
      have hdpos := List.length_pos_iff.mpr hdata
      rw [List.length_append] at hlength
      obtain ⟨r₂, hr₂⟩ := ih (limit - data.length) (by omega) (r := r₁) (by omega)
      refine ⟨r₂, ?_⟩
      rw [if_neg hzero, hread]
      simp only [dif_neg hdata, hr₂, Except.map, ← happend]
      rw [List.take_append, List.take_of_length_le hle]

end AsyncRead

/-- A connection, with the error that it ends with, if it does. -/
structure Stream where
  source : Source
  failure : Option IoError := none

namespace Stream

/-- One `read` of a connection. -/
def read (s : Stream) (room : Nat) : Except IoError (Bytes × Stream) :=
  let (data, source) := s.source.read room
  match data, s.failure with
  | [], some e => .error e
  | data, _ => .ok (data, { s with source })

instance : AsyncRead Stream where
  bytes s := s.source.bytes
  failure s := s.failure
  read := read
  read_end s room hroom hend := by
    have hdata : (s.source.read room).1 = [] := (s.source.read_eq_nil_iff hroom).mpr hend
    refine ⟨fun e he => ?_, fun hnone => ⟨⟨(s.source.read room).2, s.failure⟩, ?_⟩⟩
    · simp only [read, hdata, he]
    · simp only [read, hdata, hnone]
  read_front s room hroom hfront := by
    have hdata : (s.source.read room).1 ≠ [] :=
      fun hnil => hfront ((s.source.read_eq_nil_iff hroom).mp hnil)
    refine ⟨_, ⟨(s.source.read room).2, s.failure⟩, ?_, hdata, s.source.length_read_le room,
      s.source.read_append room, rfl⟩
    rw [read]
    dsimp only
    split
    · next hnil _ => exact absurd hnil hdata
    · rfl

end Stream

end TgWsProxy
