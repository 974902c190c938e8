import Mathlib.Algebra.Group.Nat.Defs
import Mathlib.Data.Bool.AllAny
import TgWsProxy.AsyncRead
import TgWsProxy.Config
import TgWsProxy.Core.Utf8

/-!
# The body of a list of domains

`read_body` of `upstream.rs`: a body in chunks, of a declared length, or up to the end of the
stream, of at most `DOMAIN_LIMIT` bytes in all three forms.
-/

namespace TgWsProxy.Upstream

open TgWsProxy.Core

variable {R : Type} [AsyncRead R]

/-! ## The code -/

/-- `DOMAIN_LIMIT`. -/
def domainLimit : Nat := 64 * 1024

/-- How a call of `read_body` ends without a body. -/
inductive BodyFailure
  | error (e : IoError)
  /-- `DOMAIN_LIMIT - body.len()` has wrapped. -/
  | underflow

/-- The most bytes that a size line may have, with its end. -/
def maxSizeLine : Nat := 128

/-- The end of a size line, and of the data of a chunk. -/
def crlf : Bytes := [13, 10]

/-- The inner loop of `read_body`: a size line, byte by byte. -/
def readLine (s : R) (line : Bytes) : Except IoError (Bytes × R) :=
  if _h : line.length ≥ maxSizeLine then .error (invalid "oversized chunk header")
  else
    match AsyncRead.readU8 s with
    | .error e => .error e
    | .ok (b, s) =>
      if crlf <:+ line ++ [b] then .ok (line ++ [b], s) else readLine s (line ++ [b])
termination_by maxSizeLine - line.length
decreasing_by
  rw [List.length_append, List.length_singleton]
  omega

/-- The digits of `usize::from_str_radix`, after a value already read. -/
def parseHexDigits (bound : Nat) : Nat → List Char → Option Nat
  | value, [] => some value
  | value, c :: rest =>
    match IpAddr.digit 16 c with
    | none => none
    | some d => if value * 16 + d < bound then parseHexDigits bound (value * 16 + d) rest else none

/-- `usize::from_str_radix(text, 16)`; `usize` is taken at 64 bits. -/
def fromStrRadix16 : List Char → Option Nat
  | [] => none
  | ['+'] => none
  | '+' :: digits => parseHexDigits (2 ^ 64) 0 digits
  | digits => parseHexDigits (2 ^ 64) 0 digits

/-- The length that a size line gives. -/
def chunkLength (line : Bytes) : Except IoError Nat :=
  match decodeUtf8 line with
  | none => .error (invalid "invalid chunk header")
  | some text =>
    match fromStrRadix16 ((trim text).takeWhile (· ≠ ';')) with
    | none => .error (invalid "invalid chunk length")
    | some length => .ok length

/-- The outer loop of `read_body`: chunk after chunk behind what there is of the body. -/
def readChunks (s : R) (body : Bytes) : Except BodyFailure Bytes :=
  match readLine s [] with
  | .error e => .error (.error e)
  | .ok (line, s) =>
    match chunkLength line with
    | .error e => .error (.error e)
    | .ok length =>
      if length = 0 then .ok body
      else if body.length > domainLimit then .error .underflow
      else if length > domainLimit - body.length then
        .error (.error (invalid "domain response too large"))
      else
        match _h : AsyncRead.readExact s length with
        | .error e => .error (.error e)
        | .ok (data, s) =>
          match AsyncRead.readU16 s with
          | .error e => .error (.error e)
          | .ok (terminator, s) =>
            if terminator ≠ 0x0d0a then .error (.error (invalid "invalid chunk terminator"))
            else readChunks s (body ++ data)
termination_by domainLimit - body.length
decreasing_by
  have hlength := AsyncRead.length_of_readExact _h
  rw [List.length_append]
  omega

/-- `read_body`. -/
def readBody (s : R) (headers : Std.ExtTreeMap String String) : Except BodyFailure Bytes :=
  match headers["transfer-encoding"]? with
  | some transfer =>
    if transfer.toList.map Char.toLower ≠ "chunked".toList then
      .error (.error (invalid "unsupported transfer encoding"))
    else readChunks s []
  | none =>
    match headers["content-length"]? with
    | some text =>
      match parseUnsigned (2 ^ 64) text with
      | .error _ => .error (.error (invalid "invalid content length"))
      | .ok length =>
        if length > domainLimit then .error (.error (invalid "domain response too large"))
        else
          match AsyncRead.readExact s length with
          | .error e => .error (.error e)
          | .ok (body, _) => .ok body
    | none =>
      match AsyncRead.readToEnd s (domainLimit + 1) with
      | .error e => .error (.error e)
      | .ok (body, _) =>
        if body.length > domainLimit then .error (.error (invalid "domain response too large"))
        else .ok body

/-! ## Every body is bounded -/

/-- Within the limit, or an error of the stream or of its form. -/
def Bounded (result : Except BodyFailure Bytes) : Prop :=
  result ≠ .error .underflow ∧ ∀ body, result = .ok body → body.length ≤ domainLimit

private theorem bounded_error (e : IoError) : Bounded (.error (.error e)) := ⟨nofun, nofun⟩

private theorem bounded_ok {body : Bytes} (h : body.length ≤ domainLimit) : Bounded (.ok body) :=
  ⟨nofun, fun _ heq => Except.ok.inj heq ▸ h⟩

/-- The chunks read so far are within the limit at every turn of the loop. -/
theorem bounded_readChunks {s : R} {body : Bytes} (h : body.length ≤ domainLimit) :
    Bounded (readChunks s body) := by
  fun_induction readChunks s body with
  | case1 => exact bounded_error _
  | case2 => exact bounded_error _
  | case3 => exact bounded_ok h
  | case4 => omega
  | case5 => exact bounded_error _
  | case6 => exact bounded_error _
  | case7 => exact bounded_error _
  | case8 => exact bounded_error _
  | case9 s body line s₁ hline length hlength hpos hfits hless data s₂ hdata terminator s₃ hend
      hcrlf ih =>
    apply ih
    have := AsyncRead.length_of_readExact hdata
    rw [List.length_append]
    omega

/-- The body of any response is within the limit. -/
theorem bounded_readBody (s : R) (headers : Std.ExtTreeMap String String) :
    Bounded (readBody s headers) := by
  rw [readBody]
  split
  · split
    · exact bounded_error _
    · exact bounded_readChunks (Nat.zero_le _)
  · split
    · split
      · exact bounded_error _
      · next length hlength =>
        split
        · exact bounded_error _
        · next hfits =>
          split
          · exact bounded_error _
          · next body s' hbody =>
            exact bounded_ok (AsyncRead.length_of_readExact hbody ▸ Nat.le_of_not_lt hfits)
    · split
      · exact bounded_error _
      · split
        · exact bounded_error _
        · next hfits => exact bounded_ok (Nat.le_of_not_lt hfits)

/-! ## What a peer may send -/

/-- A value with one more hexadecimal digit. -/
def hexStep (value : Nat) (b : UInt8) : Nat :=
  value * 16 + (IpAddr.digit 16 (asciiChar b)).getD 0

/-- The value of hexadecimal digits. -/
def hexValue (digits : Bytes) : Nat := digits.foldl hexStep 0

/-- A size line for so many bytes: digits of any case and number, and an extension or none. -/
structure SizeLine (size : Nat) where
  digits : Bytes
  extension : Bytes
  nonempty : digits ≠ []
  hex : ∀ b ∈ digits, b.toNat < 128 ∧ (IpAddr.digit 16 (asciiChar b)).isSome
  value : hexValue digits = size
  /-- The extension begins with a semicolon. -/
  directly : extension = [] ∨ extension.head? = some 59
  ascii : ∀ b ∈ extension, b.toNat < 128 ∧ b ≠ 10
  short : digits.length + extension.length + 2 ≤ maxSizeLine

/-- The bytes of a size line. -/
def SizeLine.bytes {size : Nat} (line : SizeLine size) : Bytes :=
  line.digits ++ line.extension ++ crlf

/-- A chunk with data. -/
structure Chunk where
  data : Bytes
  line : SizeLine data.length
  nonempty : data ≠ []

/-- The bytes of a chunk. -/
def Chunk.bytes (chunk : Chunk) : Bytes := chunk.line.bytes ++ chunk.data ++ crlf

/-- The bytes of a body in chunks, up to the line of the last one. -/
def chunkedBytes (chunks : List Chunk) (last : SizeLine 0) : Bytes :=
  chunks.flatMap Chunk.bytes ++ last.bytes

/-- A stream that brings a body, in one of the three forms that the headers may announce. -/
inductive Brings (body : Bytes) (headers : Std.ExtTreeMap String String) (s : R) : Prop
  | chunked {transfer : String} (chunks : List Chunk) (last : SizeLine 0) (rest : Bytes)
    (hencoding : headers["transfer-encoding"]? = some transfer)
    (hname : transfer.toList.map Char.toLower = "chunked".toList)
    (hbody : chunks.flatMap (·.data) = body)
    (hbytes : AsyncRead.bytes s = chunkedBytes chunks last ++ rest)
  | declared {text : String} (rest : Bytes) (hencoding : headers["transfer-encoding"]? = none)
    (hlength : headers["content-length"]? = some text)
    (hvalue : parseUnsigned (2 ^ 64) text = .ok body.length)
    (hbytes : AsyncRead.bytes s = body ++ rest)
  | closed (hencoding : headers["transfer-encoding"]? = none)
    (hlength : headers["content-length"]? = none) (hbytes : AsyncRead.bytes s = body)
    (hend : AsyncRead.failure s = none)

/-! ## Size lines are read -/

private theorem crlf_suffix (line : Bytes) {b : UInt8} (h : b ≠ 10) : ¬crlf <:+ line ++ [b] := by
  intro hsuffix
  have hlast := hsuffix.getLast (by simp [crlf])
  rw [List.getLast_append_singleton] at hlast
  exact h hlast.symm

/-- A byte that does not end the line. -/
theorem readLine_cons {s : R} (line : Bytes) {b : UInt8} {rest : Bytes}
    (hbytes : AsyncRead.bytes s = b :: rest) (hshort : line.length < maxSizeLine) (hb : b ≠ 10) :
    ∃ s', readLine s line = readLine s' (line ++ [b]) ∧ AsyncRead.bytes s' = rest := by
  obtain ⟨s', hread, hrest, -⟩ := AsyncRead.readU8_of_cons hbytes
  refine ⟨s', ?_, hrest⟩
  rw [readLine, dif_neg (Nat.not_le.mpr hshort), hread]
  exact if_neg (crlf_suffix line hb)

/-- A line without a line feed in it is read up to its end. -/
theorem readLine_of_front {s : R} {front rest : Bytes} (line : Bytes)
    (hfront : ∀ b ∈ front, b ≠ 10) (hbytes : AsyncRead.bytes s = front ++ crlf ++ rest)
    (hshort : line.length + front.length + 2 ≤ maxSizeLine) :
    ∃ s', readLine s line = .ok (line ++ front ++ crlf, s') ∧ AsyncRead.bytes s' = rest := by
  induction front generalizing s line with
  | nil =>
    rw [List.length_nil] at hshort
    obtain ⟨s₁, hread₁, hrest₁⟩ := readLine_cons line hbytes (by omega) (by decide)
    obtain ⟨s₂, hread₂, hrest₂, -⟩ := AsyncRead.readU8_of_cons hrest₁
    refine ⟨s₂, ?_, hrest₂⟩
    have hend : crlf <:+ line ++ [13] ++ [10] := ⟨line, by simp [crlf]⟩
    have hroom : (line ++ [13]).length < maxSizeLine := by
      rw [List.length_append, List.length_singleton]
      omega
    rw [hread₁, readLine, dif_neg (Nat.not_le.mpr hroom), hread₂]
    refine (if_pos hend).trans ?_
    simp [crlf]
  | cons b front ih =>
    obtain ⟨hb, hfront⟩ := List.forall_mem_cons.mp hfront
    rw [List.length_cons] at hshort
    obtain ⟨s₁, hread₁, hrest₁⟩ := readLine_cons line hbytes (by omega) hb
    obtain ⟨s₂, hread₂, hrest₂⟩ := ih (line ++ [b]) hfront hrest₁
      (by rw [List.length_append, List.length_singleton]; omega)
    refine ⟨s₂, ?_, hrest₂⟩
    rw [hread₁, hread₂]
    simp

private theorem isDigit_iff {c : Char} : c.isDigit = true ↔ 48 ≤ c.toNat ∧ c.toNat ≤ 57 := by
  rw [Char.isDigit, Bool.and_eq_true, decide_eq_true_eq, decide_eq_true_eq, ge_iff_le,
    UInt32.le_iff_toNat_le, UInt32.le_iff_toNat_le]
  exact Iff.rfl

/-- A hexadecimal digit is a digit or a letter. -/
theorem toNat_of_digit {c : Char} (h : (IpAddr.digit 16 c).isSome) :
    48 ≤ c.toNat ∧ c.toNat ≤ 57 ∨ 65 ≤ c.toNat ∧ c.toNat ≤ 90 ∨ 97 ≤ c.toNat ∧ c.toNat ≤ 122 := by
  by_contra hno
  simp only [not_or] at hno
  have hlower : ¬('a' ≤ c ∧ c ≤ 'z') := hno.2.2
  have hupper : ¬('A' ≤ c ∧ c ≤ 'Z') := hno.2.1
  rw [IpAddr.digit, if_neg (isDigit_iff.not.mpr hno.1), if_neg hlower, if_neg hupper] at h
  cases h

private theorem le_foldl_hexStep (digits : Bytes) (value : Nat) :
    value ≤ digits.foldl hexStep value := by
  induction digits generalizing value with
  | nil => exact Nat.le_refl _
  | cons b digits ih =>
    have hstep : value ≤ hexStep value b := by
      rw [hexStep]
      omega
    exact Nat.le_trans hstep (ih _)

/-- Digits are read to their value, where it is in range. -/
theorem parseHexDigits_eq {bound : Nat} (digits : Bytes) (value : Nat) (hvalue : value < bound)
    (hhex : ∀ b ∈ digits, (IpAddr.digit 16 (asciiChar b)).isSome) :
    parseHexDigits bound value (digits.map asciiChar) =
      if digits.foldl hexStep value < bound then some (digits.foldl hexStep value) else none := by
  induction digits generalizing value with
  | nil => exact (if_pos hvalue).symm
  | cons b digits ih =>
    obtain ⟨hb, hdigits⟩ := List.forall_mem_cons.mp hhex
    obtain ⟨d, hd⟩ := Option.isSome_iff_exists.mp hb
    have hstep : hexStep value b = value * 16 + d := by rw [hexStep, hd, Option.getD_some]
    rw [List.map_cons, parseHexDigits, hd, List.foldl_cons, hstep]
    dsimp only
    by_cases hfits : value * 16 + d < bound
    · rw [if_pos hfits, ih _ hfits hdigits]
    · have := le_foldl_hexStep digits (value * 16 + d)
      rw [if_neg hfits, if_neg (by omega)]

/-- What is cut off the end of two texts of which the first ends with something else. -/
theorem rdropWhile_append {α : Type} {p : α → Bool} (front back : List α)
    (h : front.getLast?.all fun x => !p x) :
    (front ++ back).rdropWhile p = front ++ back.rdropWhile p := by
  have hfront : front.reverse.dropWhile p = front.reverse := by
    cases hreverse : front.reverse with
    | nil => rfl
    | cons x rest =>
      rw [← List.head?_reverse, hreverse] at h
      rw [List.dropWhile_cons_of_neg (by simpa using h)]
  rw [List.rdropWhile, List.rdropWhile, List.reverse_append, List.dropWhile_append, hfront]
  split
  · next hempty =>
    rw [List.isEmpty_iff.mp hempty]
    simp
  · simp

private theorem isWhitespace_of_digit {c : Char} (h : (IpAddr.digit 16 c).isSome) :
    isWhitespace c = false ∧ c ≠ ';' ∧ c ≠ '+' := by
  have hrange := toNat_of_digit h
  refine ⟨?_, ?_, ?_⟩
  · simp only [isWhitespace, List.mem_cons, List.not_mem_nil, or_false, Bool.or_eq_false_iff,
      Bool.and_eq_false_iff, decide_eq_false_iff_not, not_le, not_or]
    omega
  · rintro rfl
    exact absurd hrange (by decide)
  · rintro rfl
    exact absurd hrange (by decide)

/-- The text of a size line, without the extension, is that of its digits. -/
theorem SizeLine.takeWhile_trim {size : Nat} (line : SizeLine size) :
    (trim (line.bytes.map asciiChar)).takeWhile (· ≠ ';') = line.digits.map asciiChar := by
  have hdigits : ∀ c ∈ line.digits.map asciiChar, isWhitespace c = false ∧ c ≠ ';' ∧ c ≠ '+' := by
    intro c hc
    obtain ⟨b, hb, rfl⟩ := List.mem_map.mp hc
    exact isWhitespace_of_digit (line.hex b hb).2
  have hback : (((line.extension ++ crlf).map asciiChar).rdropWhile isWhitespace).takeWhile
      (· ≠ ';') = [] := by
    rcases line.directly with hnil | hhead
    · rw [hnil]
      decide
    · obtain ⟨rest, hrest⟩ := List.head?_eq_some_iff.mp hhead
      have hsplit : (line.extension ++ crlf).map asciiChar =
          [';'] ++ (rest ++ crlf).map asciiChar := by
        rw [hrest]
        rfl
      rw [hsplit, rdropWhile_append [';'] _ (by decide)]
      rfl
  have hlast : (line.digits.map asciiChar).getLast?.all fun c => !isWhitespace c := by
    rw [Option.all_eq_true]
    intro c hc
    rw [(hdigits c (List.mem_of_getLast? hc)).1]
    rfl
  have hfirst : (line.bytes.map asciiChar).dropWhile isWhitespace = line.bytes.map asciiChar := by
    obtain ⟨b, rest, hrest⟩ := List.exists_cons_of_ne_nil line.nonempty
    have hb : isWhitespace (asciiChar b) = false :=
      (hdigits _ (List.mem_map_of_mem (hrest ▸ List.mem_cons_self ..))).1
    rw [SizeLine.bytes, hrest]
    exact List.dropWhile_cons_of_neg (by rw [hb]; exact Bool.false_ne_true)
  rw [trim, hfirst, SizeLine.bytes, List.append_assoc, List.map_append,
    rdropWhile_append _ _ hlast, List.takeWhile_append_of_pos (fun c hc => ?_), hback,
    List.append_nil]
  simpa using (hdigits c hc).2.1

private theorem SizeLine.ascii_bytes {size : Nat} (line : SizeLine size) :
    ∀ b ∈ line.bytes, b.toNat < 128 := by
  intro b hb
  rw [SizeLine.bytes, List.mem_append, List.mem_append] at hb
  rcases hb with (hb | hb) | hb
  · exact (line.hex b hb).1
  · exact (line.ascii b hb).1
  · have hcrlf : ∀ b ∈ crlf, b.toNat < 128 := List.all_iff_forall_prop.mp (by decide)
    exact hcrlf b hb

/-- A size line gives its size, where that is in range. -/
theorem SizeLine.chunkLength {size : Nat} (line : SizeLine size) :
    Upstream.chunkLength line.bytes =
      if size < 2 ^ 64 then .ok size else .error (invalid "invalid chunk length") := by
  have hparse : fromStrRadix16 (line.digits.map asciiChar) =
      if size < 2 ^ 64 then some size else none := by
    have hvalue : parseHexDigits (2 ^ 64) 0 (line.digits.map asciiChar) = _ :=
      parseHexDigits_eq line.digits 0 (by decide) fun b hb => (line.hex b hb).2
    have hsize : line.digits.foldl hexStep 0 = size := line.value
    rw [hsize] at hvalue
    obtain ⟨b, rest, hrest⟩ := List.exists_cons_of_ne_nil line.nonempty
    have hplus : asciiChar b ≠ '+' :=
      (isWhitespace_of_digit (line.hex b (hrest ▸ List.mem_cons_self ..)).2).2.2
    rw [← hvalue, hrest, List.map_cons, fromStrRadix16.eq_def]
    split
    · next h => cases h
    · next h => exact absurd (List.cons.inj h).1 hplus
    · next h => exact absurd (List.cons.inj h).1 hplus
    · rfl
  rw [Upstream.chunkLength, decodeUtf8_ascii line.ascii_bytes]
  dsimp only
  rw [line.takeWhile_trim, hparse]
  by_cases hrange : size < 2 ^ 64
  · rw [if_pos hrange, if_pos hrange]
  · rw [if_neg hrange, if_neg hrange]

/-- A size line is read up to its end. -/
theorem SizeLine.readLine {size : Nat} (line : SizeLine size) {s : R} {rest : Bytes}
    (hbytes : AsyncRead.bytes s = line.bytes ++ rest) :
    ∃ s', Upstream.readLine s [] = .ok (line.bytes, s') ∧ AsyncRead.bytes s' = rest := by
  have hfront : ∀ b ∈ line.digits ++ line.extension, b ≠ 10 := by
    intro b hb
    rcases List.mem_append.mp hb with hb | hb
    · rintro rfl
      have := toNat_of_digit (line.hex 10 hb).2
      exact absurd this (by decide)
    · exact (line.ascii b hb).2
  have hshort := line.short
  have hlength :
      ([] : Bytes).length + (line.digits ++ line.extension).length + 2 ≤ maxSizeLine := by
    rw [List.length_append, List.length_nil]
    omega
  exact readLine_of_front [] hfront hbytes hlength

/-! ## Every form is read -/

/-- The body where it is within the limit, else an error. -/
def Decodes (body : Bytes) (result : Except BodyFailure Bytes) : Prop :=
  (body.length ≤ domainLimit → result = .ok body) ∧
    (domainLimit < body.length → ∃ e, result = .error (.error e))

private theorem decodes_error {body : Bytes} (h : domainLimit < body.length) (e : IoError) :
    Decodes body (.error (.error e)) :=
  ⟨fun hle => absurd hle (Nat.not_le.mpr h), fun _ => ⟨e, rfl⟩⟩

/-- Chunks are put together behind what there is of the body. -/
theorem decodes_readChunks (chunks : List Chunk) (last : SizeLine 0) {rest : Bytes} {s : R}
    {body : Bytes} (hbytes : AsyncRead.bytes s = chunkedBytes chunks last ++ rest)
    (hbody : body.length ≤ domainLimit) :
    Decodes (body ++ chunks.flatMap (·.data)) (readChunks s body) := by
  induction chunks generalizing s body with
  | nil =>
    obtain ⟨s', hline, -⟩ := last.readLine hbytes
    rw [readChunks, hline]
    dsimp only
    rw [last.chunkLength, if_pos (by decide)]
    dsimp only
    rw [if_pos rfl, List.flatMap_nil, List.append_nil]
    exact ⟨fun _ => rfl, fun hlt => absurd hbody (Nat.not_le.mpr hlt)⟩
  | cons chunk chunks ih =>
    rw [chunkedBytes, List.flatMap_cons, Chunk.bytes] at hbytes
    simp only [List.append_assoc] at hbytes
    obtain ⟨s₁, hline, hrest₁⟩ := chunk.line.readLine hbytes
    have hpos := List.length_pos_iff.mpr chunk.nonempty
    rw [readChunks, hline]
    dsimp only
    rw [chunk.line.chunkLength, List.flatMap_cons]
    by_cases hrange : chunk.data.length < 2 ^ 64
    · rw [if_pos hrange]
      dsimp only
      rw [if_neg hpos.ne', if_neg (Nat.not_lt.mpr hbody)]
      by_cases hfits : chunk.data.length > domainLimit - body.length
      · rw [if_pos hfits]
        refine decodes_error ?_ _
        simp only [List.length_append]
        omega
      · obtain ⟨s₂, hread, hrest₂, -⟩ := AsyncRead.readExact_of_append hrest₁
        obtain ⟨s₃, hend, hrest₃, -⟩ := AsyncRead.readU16_of_cons hrest₂
        rw [if_neg hfits]
        split
        · next e herror => cases hread.symm.trans herror
        · next data s' hdata =>
          obtain ⟨rfl, rfl⟩ := Prod.mk.inj (Except.ok.inj (hread.symm.trans hdata))
          rw [hend]
          dsimp only
          rw [if_neg (by decide), ← List.append_assoc]
          refine ih ?_ ?_
          · rw [hrest₃, chunkedBytes, List.append_assoc]
            rfl
          · rw [List.length_append]
            omega
    · rw [if_neg hrange]
      refine decodes_error ?_ _
      have hlimit : domainLimit < 2 ^ 64 := by decide
      simp only [List.length_append]
      omega

/-- A body is read in each of its forms: it is returned where it is within the limit, and is
refused where it is longer. Whatever else a peer may send, no more than the limit is returned, and
the space that is left is never below zero. -/
theorem bodyDecoded (s : R) (headers : Std.ExtTreeMap String String) :
    Bounded (readBody s headers) ∧
      ∀ body, Brings body headers s → Decodes body (readBody s headers) := by
  refine ⟨bounded_readBody s headers, fun body hbrings => ?_⟩
  rw [readBody]
  cases hbrings with
  | chunked chunks last rest hencoding hname hbody hbytes =>
    rw [hencoding]
    dsimp only
    rw [if_neg (not_not.mpr hname), ← hbody]
    have hempty : ([] : Bytes).length ≤ domainLimit := Nat.zero_le domainLimit
    exact decodes_readChunks chunks last hbytes hempty
  | declared rest hencoding hlength hvalue hbytes =>
    obtain ⟨s', hread, -⟩ := AsyncRead.readExact_of_append hbytes
    rw [hencoding, hlength]
    dsimp only
    rw [hvalue]
    dsimp only
    rw [hread]
    refine ⟨fun hle => if_neg (Nat.not_lt.mpr hle), fun hlt => ⟨_, if_pos hlt⟩⟩
  | closed hencoding hlength hbytes hend =>
    rw [hencoding, hlength]
    dsimp only
    subst hbytes
    constructor
    · intro hle
      obtain ⟨s', hread⟩ := (AsyncRead.readToEnd_of_lt (Nat.lt_succ_of_le hle)).1 hend
      rw [hread]
      exact if_neg (Nat.not_lt.mpr hle)
    · intro hlt
      obtain ⟨s', hread⟩ := AsyncRead.readToEnd_of_ge (Nat.succ_le_of_lt hlt)
      rw [hread]
      refine ⟨_, if_pos ?_⟩
      rw [List.length_take]
      omega

/-- A chunk of three bytes, and one of two bytes with an extension. -/
def exampleChunks : List Chunk :=
  [⟨[97, 98, 99], ⟨[51], [], by decide, List.all_iff_forall_prop.mp (by decide), by decide,
      by decide, nofun, by decide⟩, by decide⟩,
    ⟨[100, 101], ⟨[50], [59, 101, 120, 116, 61, 120], by decide,
      List.all_iff_forall_prop.mp (by decide), by decide, by decide,
      List.all_iff_forall_prop.mp (by decide), by decide⟩, by decide⟩]

/-- The line of the last chunk. -/
def exampleLast : SizeLine 0 :=
  ⟨[48], [], by decide, List.all_iff_forall_prop.mp (by decide), by decide, by decide, nofun,
    by decide⟩

/-- Both chunks are put together, read in pieces of one, two and five bytes. -/
theorem bodyDecoded_extension :
    readBody (⟨⟨chunkedBytes exampleChunks exampleLast ++ [13, 10], [1, 2, 5]⟩, none⟩ : Stream)
      (Std.ExtTreeMap.ofList [("transfer-encoding", "chunked")]) = .ok [97, 98, 99, 100, 101] := by
  have hencoding : (Std.ExtTreeMap.ofList [("transfer-encoding", "chunked")] :
      Std.ExtTreeMap String String)["transfer-encoding"]? = some "chunked" := by decide
  exact ((bodyDecoded _ _).2 _
    (.chunked exampleChunks exampleLast [13, 10] hencoding rfl rfl rfl)).1
    (by decide)

end TgWsProxy.Upstream
