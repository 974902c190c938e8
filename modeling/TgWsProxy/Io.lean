import Mathlib.Data.List.Basic

/-!
# Bytes, clocks, errors and readers

`Bytes` stands for the byte slices and vectors of the program and `Block n` for
its arrays `[u8; n]`. A `Source` is the reading end of a stream: the bytes the
peer will have sent before it closes, with the number of bytes each successive
`read` is granted. Every fragmentation of the reads is some list of grants.
-/

namespace TgWsProxy

/-- A byte slice or vector. -/
abbrev Bytes := List UInt8

/-- A fixed-size array `[u8; n]`. -/
abbrev Block (n : Nat) := { b : Bytes // b.length = n }

/-- The slice `b[i..j]`. -/
def slice (b : Bytes) (i j : Nat) : Bytes := (b.drop i).take (j - i)

/-- `Duration::from_secs`. Instants and durations are natural numbers of nanoseconds. -/
def seconds (n : Nat) : Nat := n * 1000000000

/-- The kinds of `io::Error` that the modelled code builds. -/
inductive ErrorKind
  | permissionDenied
  | invalidData
  | invalidInput
  | unexpectedEof
  | timedOut
  | writeZero
  | brokenPipe
  | wouldBlock
  | notConnected
  | connectionAborted
  | connectionReset
  | outOfMemory
  | other
  deriving DecidableEq, Repr

/-- An `io::Error`: its kind and its text. -/
structure IoError where
  kind : ErrorKind
  message : String
  deriving DecidableEq, Repr

/-- `io::Error::new(InvalidData, message)`, the `invalid` of several source files. -/
def invalid (message : String) : IoError := ⟨.invalidData, message⟩

/-- The error of `read_u8` and its like at the end of a stream. -/
def endOfFile : IoError := ⟨.unexpectedEof, "unexpected end of file"⟩

/-- A sequence of two fallible steps succeeds when both do. -/
theorem bind_eq_ok {ε : Type*} {α β : Type} {x : Except ε α} {f : α → Except ε β} {b : β} :
    (x >>= f) = .ok b ↔ ∃ a, x = .ok a ∧ f a = .ok b := by
  cases x with
  | error e => simp [bind, Except.bind]
  | ok a => simp [bind, Except.bind]

/-- A mapped result that is `ok` is the image of one. -/
theorem map_eq_ok {ε : Type*} {α β : Type} {x : Except ε α} {f : α → β} {b : β} :
    x.map f = .ok b ↔ ∃ a, x = .ok a ∧ f a = b := by
  cases x <;> simp [Except.map]

/-- A check of every element succeeds when each one does. -/
theorem forM_eq_ok {ε : Type*} {α : Type} {f : α → Except ε Unit} {l : List α} :
    l.forM f = .ok () ↔ ∀ x ∈ l, f x = .ok () := by
  induction l with
  | nil => simp [List.forM, pure, Except.pure]
  | cons x l ih =>
    change (f x >>= fun _ => l.forM f) = .ok () ↔ _
    rw [bind_eq_ok, List.forall_mem_cons, ← ih]
    exact ⟨fun ⟨_, hx, hl⟩ => ⟨hx, hl⟩, fun ⟨hx, hl⟩ => ⟨(), hx, hl⟩⟩

/-- The digits of `str::parse` into an unsigned type, after a value already read. -/
def parseDigits (bound : Nat) : Nat → List Char → Except String Nat
  | value, [] => .ok value
  | value, c :: rest =>
    if !c.isDigit then .error "invalid digit found in string"
    else if value * 10 + (c.toNat - 48) < bound then
      parseDigits bound (value * 10 + (c.toNat - 48)) rest
    else .error "number too large to fit in target type"

/-- `str::parse` into the unsigned type of the numbers below `bound`. -/
def parseUnsigned (bound : Nat) (text : String) : Except String Nat :=
  match text.toList with
  | [] => .error "cannot parse integer from empty string"
  | ['+'] => .error "invalid digit found in string"
  | '+' :: digits => parseDigits bound 0 digits
  | digits => parseDigits bound 0 digits

/-- Decimal digits whose value is below the bound. -/
structure IsDecimal (bound : Nat) (digits : List Char) : Prop where
  nonempty : digits ≠ []
  digit : ∀ c ∈ digits, c.isDigit
  lt : Nat.ofDigitChars 10 digits 0 < bound

private theorem le_ofDigitChars (digits : List Char) (value : Nat) :
    value ≤ Nat.ofDigitChars 10 digits value := by
  induction digits generalizing value with
  | nil => exact Nat.le_of_eq Nat.ofDigitChars_nil.symm
  | cons c digits ih =>
    rw [Nat.ofDigitChars_cons]
    exact Nat.le_trans (by omega) (ih _)

/-- No step of the loop overflows where the value does not. -/
theorem parseDigits_eq_ok {bound value n : Nat} (hvalue : value < bound) {digits : List Char} :
    parseDigits bound value digits = .ok n ↔
      (∀ c ∈ digits, c.isDigit) ∧ Nat.ofDigitChars 10 digits value = n ∧ n < bound := by
  induction digits generalizing value with
  | nil =>
    rw [parseDigits, Nat.ofDigitChars_nil]
    constructor
    · intro h
      obtain rfl := Except.ok.inj h
      exact ⟨nofun, rfl, hvalue⟩
    · rintro ⟨-, rfl, -⟩
      rfl
  | cons c digits ih =>
    rw [parseDigits, Nat.ofDigitChars_cons, List.forall_mem_cons]
    have hstep : 10 * value + (c.toNat - '0'.toNat) = value * 10 + (c.toNat - 48) := by
      rw [Nat.mul_comm]
      rfl
    rw [hstep]
    cases hc : c.isDigit with
    | false => simp
    | true =>
      simp only [Bool.not_true, Bool.false_eq_true, if_false, true_and]
      split
      · next hlt => rw [ih hlt]
      · next hge =>
        refine iff_of_false nofun ?_
        rintro ⟨-, rfl, hlt⟩
        exact hge (Nat.lt_of_le_of_lt (le_ofDigitChars ..) hlt)

/-- A number is read back from its digits. -/
theorem parseUnsigned_toString {bound n : Nat} (h : n < bound) :
    parseUnsigned bound (toString n) = .ok n := by
  have hdigit {c : Char} (hc : c ∈ Nat.toDigits 10 n) : c.isDigit = true :=
    Nat.isDigit_of_mem_toDigits (by decide) (by decide) hc
  have hparse : parseDigits bound 0 (Nat.toDigits 10 n) = .ok n :=
    (parseDigits_eq_ok (by omega)).mpr ⟨fun _ => hdigit, Nat.ofDigitChars_ten_toDigits, h⟩
  rw [parseUnsigned, show (toString n).toList = Nat.toDigits 10 n from Nat.toList_repr]
  split
  · next hnil => exact absurd hnil Nat.toDigits_ne_nil
  · next hplus => exact absurd (hdigit (hplus ▸ List.mem_cons_self ..)) (by decide)
  · next hplus => exact absurd (hdigit (hplus ▸ List.mem_cons_self ..)) (by decide)
  · exact hparse

/-- What is read as a number is its digits, behind a `+` or not. -/
theorem parseUnsigned_eq_ok {bound : Nat} (hbound : 0 < bound) {text : String} :
    (∃ n, parseUnsigned bound text = .ok n) ↔
      IsDecimal bound text.toList ∨
        ∃ digits, text.toList = '+' :: digits ∧ IsDecimal bound digits := by
  have hdigits (digits : List Char) (hne : digits ≠ []) :
      (∃ n, parseDigits bound 0 digits = .ok n) ↔ IsDecimal bound digits := by
    constructor
    · rintro ⟨n, hn⟩
      obtain ⟨hall, rfl, hlt⟩ := (parseDigits_eq_ok hbound).mp hn
      exact ⟨hne, hall, hlt⟩
    · exact fun h => ⟨_, (parseDigits_eq_ok hbound).mpr ⟨h.digit, rfl, h.lt⟩⟩
  have hplus (digits : List Char) : ¬IsDecimal bound ('+' :: digits) := fun h =>
    absurd (h.digit _ (List.mem_cons_self ..)) (by decide)
  rw [parseUnsigned]
  split
  · next htext =>
    rw [htext]
    refine iff_of_false nofun ?_
    rintro (h | ⟨_, h, -⟩)
    · exact h.nonempty rfl
    · cases h
  · next htext =>
    rw [htext]
    refine iff_of_false nofun ?_
    rintro (h | ⟨digits, h, hdecimal⟩)
    · exact hplus _ h
    · exact hdecimal.nonempty (List.cons.inj h).2.symm
  · next digits hsome htext =>
    rw [htext, hdigits digits fun hnil => hsome (hnil ▸ rfl)]
    constructor
    · exact fun h => .inr ⟨digits, rfl, h⟩
    · rintro (h | ⟨digits', h, hdecimal⟩)
      · exact absurd h (hplus digits)
      · rwa [(List.cons.inj h).2]
  · next hsome _ hsign =>
    rw [hdigits _ fun hnil => hsome hnil]
    constructor
    · exact fun h => .inl h
    · rintro (h | ⟨digits, h, -⟩)
      · exact h
      · exact absurd h (hsign digits)

/-- The unread bytes of a stream and the sizes granted to its successive reads. -/
structure Source where
  bytes : Bytes
  grants : List Nat
  deriving DecidableEq, Repr

namespace Source

/-- How many bytes a read into a buffer of `room` bytes returns: at least one
unless the buffer is empty or the stream has ended. -/
def granted (s : Source) (room : Nat) : Nat :=
  min room (max 1 (s.grants.headD s.bytes.length))

/-- One `read` into a buffer of `room` bytes. -/
def read (s : Source) (room : Nat) : Bytes × Source :=
  (s.bytes.take (s.granted room), ⟨s.bytes.drop (s.granted room), s.grants.tail⟩)

/-- `read_exact`: the reads repeat until the buffer is full, so their sizes do not matter. -/
def readExact (s : Source) (room : Nat) : Except IoError (Bytes × Source) :=
  if room ≤ s.bytes.length then
    .ok (s.bytes.take room, { s with bytes := s.bytes.drop room })
  else .error ⟨.unexpectedEof, "early eof"⟩

/-- The bytes that `read_u8`, `read_u16` and `read_u64` take. -/
def readUnsigned (s : Source) (width : Nat) : Except IoError (Bytes × Source) :=
  if width ≤ s.bytes.length then
    .ok (s.bytes.take width, { s with bytes := s.bytes.drop width })
  else .error endOfFile

/-- A number is read exactly where its bytes are. -/
theorem readUnsigned_eq_ok {s : Source} {width : Nat} {result : Bytes × Source} :
    s.readUnsigned width = .ok result ↔ s.readExact width = .ok result := by
  unfold readUnsigned readExact
  split
  · exact Iff.rfl
  · exact ⟨nofun, nofun⟩

/-- A read takes some bytes off the front, and at least one where the buffer has room. -/
theorem read_eq_take (s : Source) {room : Nat} (h : 0 < room) :
    ∃ k, 0 < k ∧ k ≤ room ∧ s.read room = (s.bytes.take k, ⟨s.bytes.drop k, s.grants.tail⟩) := by
  refine ⟨s.granted room, ?_, ?_, rfl⟩
  · simp only [granted]
    omega
  · simp only [granted]
    omega

/-- A read within a stretch of the stream takes a front of it. -/
theorem read_front (body rest : Bytes) (grants : List Nat) {room : Nat}
    (hroom : 0 < room) (hle : room ≤ body.length) :
    ∃ front back, body = front ++ back ∧ 0 < front.length ∧
      read ⟨body ++ rest, grants⟩ room = (front, ⟨back ++ rest, grants.tail⟩) := by
  obtain ⟨k, hk, hkroom, hread⟩ := read_eq_take ⟨body ++ rest, grants⟩ hroom
  refine ⟨body.take k, body.drop k, (List.take_append_drop k body).symm, ?_, ?_⟩
  · rw [List.length_take]
    omega
  · rw [hread, List.take_append_of_le_length (by omega), List.drop_append_of_le_length (by omega)]

/-- A read loses and reorders nothing. -/
theorem read_append (s : Source) (room : Nat) :
    (s.read room).1 ++ (s.read room).2.bytes = s.bytes := by
  simp [read]

/-- A read returns no more than the buffer holds. -/
theorem length_read_le (s : Source) (room : Nat) : (s.read room).1.length ≤ room := by
  simp only [read, granted, List.length_take]
  omega

/-- A read into a real buffer comes back empty only at the end of the stream. -/
theorem read_eq_nil_iff (s : Source) {room : Nat} (h : 0 < room) :
    (s.read room).1 = [] ↔ s.bytes = [] := by
  have hg : s.granted room ≠ 0 := by
    simp only [granted]
    omega
  simp [read, hg]

/-- A read that returns data shortens the stream. -/
theorem length_read_bytes_lt (s : Source) (room : Nat) (h : (s.read room).1 ≠ []) :
    (s.read room).2.bytes.length < s.bytes.length := by
  have hl := congrArg List.length (s.read_append room)
  have hp := List.length_pos_iff.mpr h
  rw [List.length_append] at hl
  omega

/-- A full `read_exact` splits the stream at the asked length. -/
theorem readExact_append (s : Source) {room : Nat} {front : Bytes} {rest : Source}
    (h : s.readExact room = .ok (front, rest)) :
    front.length = room ∧ front ++ rest.bytes = s.bytes ∧ rest.grants = s.grants := by
  unfold readExact at h
  split at h
  · next hle =>
    simp only [Except.ok.injEq, Prod.mk.injEq] at h
    obtain ⟨rfl, rfl⟩ := h
    exact ⟨List.length_take_of_le hle, by simp, rfl⟩
  · simp at h

/-- `read_exact` of a stream that begins with the wanted bytes returns just them. -/
theorem readExact_of_append (front rest : Bytes) (grants : List Nat) :
    readExact ⟨front ++ rest, grants⟩ front.length = .ok (front, ⟨rest, grants⟩) := by
  simp [readExact]

end Source

end TgWsProxy
