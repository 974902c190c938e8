import TgWsProxy.Core.BigEndian
import TgWsProxy.Core.Transition
import TgWsProxy.Io

/-!
# The Fake TLS stream and what it writes

`FakeTlsStream` of `fake_tls.rs`, both its halves, over an inner stream that may
answer any call with a part, with `Pending` or with an error. The system below is
every sequence of calls on one stream, with a log of what `poll_write` accepted;
its wire is the records of that log at any time.
-/

namespace TgWsProxy

open TgWsProxy.Core

/-- `Poll`. -/
inductive Poll (α : Type)
  | pending
  | ready (value : α)
  deriving DecidableEq

/-- An error is reported. -/
def Poll.isError {α : Type} : Poll (Except IoError α) → Bool
  | .ready (.error _) => true
  | _ => false

/-- The inner stream: the bytes its peer will have sent before it closes, the answers of its
successive reads, and the bytes it has been given. An answer is `none` for `Pending` and
else how many bytes are there; beyond the list every read is granted in full. -/
structure PollStream where
  incoming : Bytes := []
  grants : List (Option Nat) := []
  written : Bytes := []
  deriving DecidableEq

/-- `poll_read` of the inner stream into a buffer of `room` bytes. -/
def PollStream.pollRead (s : PollStream) (room : Nat) : Poll Bytes × PollStream :=
  match s.grants with
  | [] => (.ready (s.incoming.take room), { s with incoming := s.incoming.drop room })
  | none :: grants => (.pending, { s with grants })
  | some n :: grants =>
    (.ready (s.incoming.take (min room (max 1 n))),
      { s with incoming := s.incoming.drop (min room (max 1 n)), grants })

/-- What the inner stream answers to one `poll_write`: it takes at most what it is offered. -/
inductive InnerWrite
  | pending
  | wrote (n : Nat)
  | failed (error : IoError)
  deriving DecidableEq

/-- `TLS_APP_DATA_MAX`. -/
def tlsAppDataMax : Nat := 16384

/-- The stream's state; `readHeader` is the part of the array that has been filled. -/
structure FakeTlsStream where
  inner : PollStream := {}
  readHeader : Bytes := []
  readRemaining : Nat := 0
  readCcs : Bool := false
  readEof : Bool := false
  writeRecord : Bytes := []
  writeOffset : Nat := 0
  deriving DecidableEq

namespace FakeTlsStream

/-! ## Reading -/

/-- What a complete header announces. -/
def takeHeader (s : FakeTlsStream) (header : Bytes) : Except IoError FakeTlsStream :=
  if slice header 1 3 ≠ [3, 3] then .error (invalid "invalid TLS record version")
  else
    let length := ofBe (slice header 3 5)
    if header.getD 0 0 = 0x14 ∧ length = 1 then
      .ok { s with readCcs := true, readRemaining := length }
    else if header.getD 0 0 = 0x17 ∧ length ≤ tlsAppDataMax + 256 then
      .ok { s with readRemaining := length }
    else if header.getD 0 0 = 0x15 then .ok { s with readEof := true }
    else .error (invalid "unexpected TLS record")

/-- The loop of `poll_read`, with the rounds that are left before it yields. -/
def pollReadLoop : Nat → Nat → FakeTlsStream → Poll (Except IoError Bytes) × FakeTlsStream
  | 0, _, s => (.pending, s)
  | rounds + 1, room, s =>
    if s.readRemaining ≠ 0 then
      if s.readCcs then
        match s.inner.pollRead 1 with
        | (.pending, inner) => (.pending, { s with inner })
        | (.ready [], inner) =>
          (.ready (.error ⟨.unexpectedEof, "truncated TLS ChangeCipherSpec"⟩), { s with inner })
        | (.ready (ccs :: _), inner) =>
          if ccs ≠ 1 then
            (.ready (.error (invalid "invalid TLS ChangeCipherSpec")), { s with inner })
          else
            pollReadLoop rounds room { s with inner, readRemaining := 0, readCcs := false }
      else
        match s.inner.pollRead (min room s.readRemaining) with
        | (.pending, inner) => (.pending, { s with inner })
        | (.ready [], inner) =>
          (.ready (.error ⟨.unexpectedEof, "truncated TLS application record"⟩), { s with inner })
        | (.ready (b :: bs), inner) =>
          (.ready (.ok (b :: bs)),
            { s with inner, readRemaining := s.readRemaining - (b :: bs).length })
    else
      match s.inner.pollRead (5 - s.readHeader.length) with
      | (.pending, inner) => (.pending, { s with inner })
      | (.ready [], inner) =>
        if s.readHeader ≠ [] then
          (.ready (.error ⟨.unexpectedEof, "truncated TLS record header"⟩), { s with inner })
        else (.ready (.ok []), { s with inner, readEof := true })
      | (.ready (b :: bs), inner) =>
        if (s.readHeader ++ b :: bs).length ≠ 5 then
          pollReadLoop rounds room { s with inner, readHeader := s.readHeader ++ b :: bs }
        else
          match takeHeader { s with inner, readHeader := [] } (s.readHeader ++ b :: bs) with
          | .error e => (.ready (.error e), { s with inner, readHeader := [] })
          | .ok s => if s.readEof then (.ready (.ok []), s) else pollReadLoop rounds room s

/-- `poll_read` into a buffer with `room` bytes left: the bytes it adds to the buffer. -/
def pollRead (s : FakeTlsStream) (room : Nat) :
    Poll (Except IoError Bytes) × FakeTlsStream :=
  if room = 0 ∨ s.readEof then (.ready (.ok []), s) else pollReadLoop 32 room s

/-! ## Writing -/

/-- The staged suffix of the record being written. -/
def staged (s : FakeTlsStream) : Bytes := s.writeRecord.drop s.writeOffset

/-- What has been emitted, and behind it what is staged. -/
def wire (s : FakeTlsStream) : Bytes := s.inner.written ++ s.staged

/-- The record advances by `n` bytes into the inner stream. -/
def emit (s : FakeTlsStream) (n : Nat) : FakeTlsStream :=
  { s with
    inner := { s.inner with written := s.inner.written ++ s.staged.take n }
    writeOffset := s.writeOffset + n }

/-- The outcome of a drain, with the answers of the inner stream that it has not used. -/
structure Drained where
  result : Poll (Except IoError Unit)
  answers : List InnerWrite
  stream : FakeTlsStream

/-- The loop of `poll_drain_record`, with the rounds that are left before it yields. -/
def drainLoop : Nat → List InnerWrite → FakeTlsStream → Drained
  | 0, answers, s => ⟨.pending, answers, s⟩
  | rounds + 1, answers, s =>
    if s.writeOffset = s.writeRecord.length then
      ⟨.ready (.ok ()), answers, { s with writeRecord := [], writeOffset := 0 }⟩
    else
      match answers with
      | [] => ⟨.pending, [], s⟩
      | .pending :: answers => ⟨.pending, answers, s⟩
      | .failed e :: answers => ⟨.ready (.error e), answers, s⟩
      | .wrote n :: answers =>
        if n = 0 then
          ⟨.ready (.error ⟨.writeZero, "TLS record write returned zero"⟩), answers, s⟩
        else drainLoop rounds answers (s.emit (min n s.staged.length))

/-- `poll_drain_record`. -/
def pollDrainRecord (s : FakeTlsStream) (answers : List InnerWrite) : Drained :=
  drainLoop 64 answers s

/-- `poll_write`, which reports how many bytes of `data` it accepts. -/
def pollWrite (s : FakeTlsStream) (data : Bytes) (answers : List InnerWrite) :
    Poll (Except IoError Nat) × FakeTlsStream :=
  match s.pollDrainRecord answers with
  | ⟨.pending, _, s⟩ => (.pending, s)
  | ⟨.ready (.error e), _, s⟩ => (.ready (.error e), s)
  | ⟨.ready (.ok ()), answers, s⟩ =>
    if data = [] then (.ready (.ok 0), s)
    else
      let n := min data.length tlsAppDataMax
      match pollDrainRecord { s with
          writeRecord := s.writeRecord ++ [0x17, 3, 3] ++ toBe 2 n ++ data.take n } answers with
      | ⟨.ready (.error e), _, s⟩ => (.ready (.error e), s)
      | ⟨_, _, s⟩ => (.ready (.ok n), s)

/-- Drain the record, then ask the inner stream, which answers `inner`. -/
def drainThen (s : FakeTlsStream) (answers : List InnerWrite)
    (inner : Poll (Except IoError Unit)) : Poll (Except IoError Unit) × FakeTlsStream :=
  match s.pollDrainRecord answers with
  | ⟨.pending, _, s⟩ => (.pending, s)
  | ⟨.ready (.error e), _, s⟩ => (.ready (.error e), s)
  | ⟨.ready (.ok ()), _, s⟩ => (inner, s)

/-- `poll_flush`; `flushed` is what the inner stream answers to its own flush. -/
def pollFlush (s : FakeTlsStream) (answers : List InnerWrite)
    (flushed : Poll (Except IoError Unit)) : Poll (Except IoError Unit) × FakeTlsStream :=
  s.drainThen answers flushed

/-- `poll_shutdown`; `closed` is what the inner stream answers to its own shutdown. -/
def pollShutdown (s : FakeTlsStream) (answers : List InnerWrite)
    (closed : Poll (Except IoError Unit)) : Poll (Except IoError Unit) × FakeTlsStream :=
  s.drainThen answers closed

end FakeTlsStream

/-! ## The calls on one stream -/

/-- A call, with what the inner stream answers in it. -/
inductive TlsCall
  | read (room : Nat)
  | write (data : Bytes) (answers : List InnerWrite)
  | flush (answers : List InnerWrite) (flushed : Poll (Except IoError Unit))
  | shutdown (answers : List InnerWrite) (closed : Poll (Except IoError Unit))

/-- The answers of the inner stream to writes. -/
def TlsCall.answers : TlsCall → List InnerWrite
  | .read _ => []
  | .write _ answers => answers
  | .flush answers _ => answers
  | .shutdown answers _ => answers

/-- The stream, and the prefixes that `poll_write` has reported as accepted. -/
structure TlsWriter where
  stream : FakeTlsStream
  accepted : List Bytes := []
  deriving DecidableEq

/-- The effect of a call. An empty prefix is nothing accepted. -/
def TlsWriter.call (s : TlsWriter) : TlsCall → TlsWriter
  | .read room => { s with stream := (s.stream.pollRead room).2 }
  | .write data answers =>
    match s.stream.pollWrite data answers with
    | (.ready (.ok n), stream) =>
      ⟨stream, if n = 0 then s.accepted else s.accepted ++ [data.take n]⟩
    | (_, stream) => { s with stream }
  | .flush answers flushed => { s with stream := (s.stream.pollFlush answers flushed).2 }
  | .shutdown answers closed => { s with stream := (s.stream.pollShutdown answers closed).2 }

/-- A new stream over any inner one, and any sequence of calls on it. -/
def tlsWriterSystem : System TlsWriter TlsCall where
  start s := ∃ incoming grants, s = { stream := { inner := { incoming, grants } } }
  step s call := some (s.call call)

/-- The record of a chunk. -/
def tlsRecord (chunk : Bytes) : Bytes := [0x17, 3, 3] ++ toBe 2 chunk.length ++ chunk

/-- The records of some chunks, each in its own. -/
def encodeRecords (chunks : List Bytes) : Bytes := (chunks.map tlsRecord).flatten

@[simp] theorem encodeRecords_nil : encodeRecords [] = [] := rfl

@[simp] theorem encodeRecords_cons (chunk : Bytes) (chunks : List Bytes) :
    encodeRecords (chunk :: chunks) = tlsRecord chunk ++ encodeRecords chunks := rfl

@[simp] theorem encodeRecords_append (chunks chunks' : List Bytes) :
    encodeRecords (chunks ++ chunks') = encodeRecords chunks ++ encodeRecords chunks' := by
  simp [encodeRecords]

namespace FakeTlsStream

variable {s : FakeTlsStream}

/-! ## One drain -/

/-- Emitting moves the boundary between what is out and what is staged. -/
theorem emit_wire (s : FakeTlsStream) (n : Nat) : (s.emit n).wire = s.wire := by
  have hstaged : (s.emit n).staged = s.staged.drop n := by
    simp only [staged, emit, List.drop_drop]
  rw [wire, hstaged]
  simp only [emit, wire]
  rw [List.append_assoc, List.take_append_drop]

/-- The offset stays within the record. -/
theorem emit_offset (h : s.writeOffset ≤ s.writeRecord.length) (n : Nat) :
    (s.emit (min n s.staged.length)).writeOffset ≤ s.writeRecord.length := by
  simp only [emit, staged, List.length_drop]
  omega

/-- What a drain does, whatever the inner stream answers. -/
structure Drains (s : FakeTlsStream) (answers : List InnerWrite) (d : Drained) : Prop where
  /-- It moves bytes across the boundary and neither loses nor adds any. -/
  wire : d.stream.wire = s.wire
  offset : d.stream.writeOffset ≤ d.stream.writeRecord.length
  /-- When it completes, nothing is staged. -/
  complete : d.result = .ready (.ok ()) → d.stream.writeRecord = [] ∧ d.stream.writeOffset = 0
  /-- It fails only where the inner stream fails or takes nothing. -/
  fails : ∀ e, d.result = .ready (.error e) → .failed e ∈ answers ∨ .wrote 0 ∈ answers
  rest : d.answers ⊆ answers

/-- A drain that stops before its next write. -/
theorem Drains.stop (h : s.writeOffset ≤ s.writeRecord.length) {answers rest : List InnerWrite}
    {result : Poll (Except IoError Unit)} (hrest : rest ⊆ answers)
    (hcomplete : result ≠ .ready (.ok ()))
    (hfails : ∀ e, result = .ready (.error e) → .failed e ∈ answers ∨ .wrote 0 ∈ answers) :
    Drains s answers ⟨result, rest, s⟩ :=
  ⟨rfl, h, fun hresult => absurd hresult hcomplete, hfails, hrest⟩

/-- Whatever the budget, the loop drains. -/
theorem drainLoop_drains (rounds : Nat) (answers : List InnerWrite)
    (h : s.writeOffset ≤ s.writeRecord.length) :
    Drains s answers (drainLoop rounds answers s) := by
  induction rounds generalizing answers s with
  | zero => exact .stop h (List.Subset.refl _) (by simp) (by simp)
  | succ rounds ih =>
    rw [drainLoop.eq_def]
    dsimp only
    by_cases hdone : s.writeOffset = s.writeRecord.length
    · rw [if_pos hdone]
      have hstaged : s.staged = [] := by
        rw [staged, hdone, List.drop_length]
      have hwire : wire { s with writeRecord := [], writeOffset := 0 } = s.wire := by
        rw [wire, wire, hstaged]
        rfl
      exact ⟨hwire, Nat.le_refl _, by simp, by simp, List.Subset.refl _⟩
    · rw [if_neg hdone]
      cases answers with
      | nil => exact .stop h (List.Subset.refl _) (by simp) (by simp)
      | cons answer answers =>
        have htail := List.subset_cons_self answer answers
        cases answer with
        | pending => exact .stop h htail (by simp) (by simp)
        | failed e => exact .stop h htail (by simp) (by simp)
        | wrote n =>
          by_cases hn : n = 0
          · subst hn
            exact .stop h htail (by simp) (by simp)
          · dsimp only
            rw [if_neg hn]
            have hdrain := ih answers (emit_offset h n)
            exact ⟨hdrain.wire.trans (emit_wire s _), hdrain.offset, hdrain.complete,
              fun e he => (hdrain.fails e he).imp (htail ·) (htail ·),
              fun _ hmem => htail (hdrain.rest hmem)⟩

/-- `poll_drain_record` only drains. -/
theorem pollDrainRecord_drains (answers : List InnerWrite)
    (h : s.writeOffset ≤ s.writeRecord.length) :
    Drains s answers (s.pollDrainRecord answers) := drainLoop_drains 64 answers h

/-! ## One call -/

/-- What a write does, whatever the inner stream answers. -/
structure Writes (s : FakeTlsStream) (data : Bytes) (answers : List InnerWrite)
    (w : Poll (Except IoError Nat) × FakeTlsStream) : Prop where
  offset : w.2.writeOffset ≤ w.2.writeRecord.length
  /-- A pending write adds nothing of its data. -/
  pending : w.1 = .pending → w.2.wire = s.wire
  /-- A write that accepts a prefix adds the record of that prefix. -/
  accepts : ∀ n, w.1 = .ready (.ok n) → n = min data.length tlsAppDataMax ∧
    w.2.wire = s.wire ++ if n = 0 then [] else tlsRecord (data.take n)
  fails : ∀ e, w.1 = .ready (.error e) → .failed e ∈ answers ∨ .wrote 0 ∈ answers
  /-- A write that fails on the record before its own adds nothing of its data. -/
  undrained : (s.pollDrainRecord answers).result.isError = true → w.2.wire = s.wire

/-- A record is staged behind a drained one. -/
theorem stage_wire (hrecord : s.writeRecord = []) (hoffset : s.writeOffset = 0) (data : Bytes) :
    wire { s with
      writeRecord := s.writeRecord ++ [0x17, 3, 3] ++ toBe 2 (min data.length tlsAppDataMax) ++
        data.take (min data.length tlsAppDataMax) } =
      s.wire ++ tlsRecord (data.take (min data.length tlsAppDataMax)) := by
  have hlength : (data.take (min data.length tlsAppDataMax)).length =
      min data.length tlsAppDataMax := by
    rw [List.length_take]
    omega
  simp [wire, staged, tlsRecord, hrecord, hoffset, hlength]

/-- `poll_write` drains the record before, and then encodes one of its own. -/
theorem pollWrite_writes (data : Bytes) (answers : List InnerWrite)
    (h : s.writeOffset ≤ s.writeRecord.length) :
    Writes s data answers (s.pollWrite data answers) := by
  have hfirst := pollDrainRecord_drains answers h
  rw [pollWrite]
  cases hdrain : s.pollDrainRecord answers with
  | mk result rest s' =>
  rw [hdrain] at hfirst
  obtain ⟨hwire, hoffset, hcomplete, hfails, hrest⟩ := hfirst
  dsimp only at hwire hoffset hcomplete hfails hrest
  cases result with
  | pending => exact ⟨hoffset, fun _ => hwire, by simp, by simp, fun _ => hwire⟩
  | ready result =>
    cases result with
    | error e => exact ⟨hoffset, by simp, by simp, by simpa using hfails e, fun _ => hwire⟩
    | ok =>
      have hdrained : ¬(s.pollDrainRecord answers).result.isError = true := by
        rw [hdrain]
        exact Bool.false_ne_true
      dsimp only
      by_cases hempty : data = []
      · rw [if_pos hempty]
        exact ⟨hoffset, by simp, by simp [hempty, hwire], by simp, (absurd · hdrained)⟩
      · rw [if_neg hempty]
        obtain ⟨hrecord, hzero⟩ := hcomplete rfl
        have hpos := List.length_pos_iff.mpr hempty
        have hn : min data.length tlsAppDataMax ≠ 0 := by
          rw [tlsAppDataMax]
          omega
        have hstage := stage_wire hrecord hzero data
        -- the fresh record may leave in part only, and is accepted all the same
        have hsecond := pollDrainRecord_drains (s := { s' with
          writeRecord := s'.writeRecord ++ [0x17, 3, 3] ++
            toBe 2 (min data.length tlsAppDataMax) ++
            data.take (min data.length tlsAppDataMax) }) rest (by simp [hzero])
        revert hsecond
        generalize pollDrainRecord _ rest = d
        rintro ⟨hwire', hoffset', -, hfails', -⟩
        obtain ⟨result, rest', t⟩ := d
        dsimp only at hwire' hoffset' hfails'
        have haccept : t.wire = s.wire ++
            tlsRecord (data.take (min data.length tlsAppDataMax)) := by
          rw [hwire', hstage, hwire]
        cases result with
        | pending =>
          exact ⟨hoffset', by simp, by simp [hn, haccept], by simp, (absurd · hdrained)⟩
        | ready result =>
          cases result with
          | error e =>
            refine ⟨hoffset', by simp, by simp, fun e' he => ?_, (absurd · hdrained)⟩
            obtain rfl : e = e' := by simpa using he
            exact (hfails' e rfl).imp (hrest ·) (hrest ·)
          | ok => exact ⟨hoffset', by simp, by simp [hn, haccept], by simp, (absurd · hdrained)⟩

/-- A flush or a shutdown only drains, and leaves nothing staged where it succeeds. -/
theorem drainThen_spec (answers : List InnerWrite) (inner : Poll (Except IoError Unit))
    (h : s.writeOffset ≤ s.writeRecord.length) :
    (s.drainThen answers inner).2.wire = s.wire ∧
      (s.drainThen answers inner).2.writeOffset ≤
        (s.drainThen answers inner).2.writeRecord.length ∧
      ((s.drainThen answers inner).1 = .ready (.ok ()) →
        (s.drainThen answers inner).2.staged = []) := by
  have hdrain := pollDrainRecord_drains answers h
  rw [drainThen]
  generalize s.pollDrainRecord answers = d at hdrain
  obtain ⟨result, rest, t⟩ := d
  obtain ⟨hwire, hoffset, hcomplete, -, -⟩ := hdrain
  dsimp only at hwire hoffset hcomplete
  cases result with
  | pending => exact ⟨hwire, hoffset, by simp⟩
  | ready result =>
    cases result with
    | error e => exact ⟨hwire, hoffset, by simp⟩
    | ok =>
      obtain ⟨hrecord, -⟩ := hcomplete rfl
      exact ⟨hwire, hoffset, fun _ => by simp [staged, hrecord]⟩

/-! ## Reads leave the writing half alone -/

/-- Two states have written and staged the same. -/
structure SameWriter (s t : FakeTlsStream) : Prop where
  written : t.inner.written = s.inner.written
  record : t.writeRecord = s.writeRecord
  offset : t.writeOffset = s.writeOffset

/-- Reads in sequence leave the writing half alone. -/
theorem SameWriter.after {s t u : FakeTlsStream} (h' : SameWriter t u) (h : SameWriter s t) :
    SameWriter s u :=
  ⟨h'.written.trans h.written, h'.record.trans h.record, h'.offset.trans h.offset⟩

/-- What is on the wire depends on the writing half only. -/
theorem SameWriter.wire_eq {s t : FakeTlsStream} (h : SameWriter s t) : t.wire = s.wire := by
  rw [wire, wire, staged, staged, h.written, h.record, h.offset]

private theorem inner_written {s : PollStream} {room : Nat} {answer : Poll Bytes}
    {inner : PollStream} (h : s.pollRead room = (answer, inner)) : inner.written = s.written := by
  simp only [PollStream.pollRead] at h
  split at h <;> cases h <;> rfl

private theorem takeHeader_same {header : Bytes} {t : FakeTlsStream}
    (h : takeHeader s header = .ok t) : SameWriter s t := by
  simp only [takeHeader] at h
  split_ifs at h <;> cases h <;> exact ⟨rfl, rfl, rfl⟩

private theorem pollReadLoop_same (rounds room : Nat) (s : FakeTlsStream) :
    SameWriter s (pollReadLoop rounds room s).2 := by
  fun_induction pollReadLoop rounds room s with
  | case1 => exact ⟨rfl, rfl, rfl⟩
  | case5 _ _ _ _ _ _ _ _ hread _ ih => exact ih.after ⟨inner_written hread, rfl, rfl⟩
  | case12 _ _ _ _ _ _ _ hread _ ih => exact ih.after ⟨inner_written hread, rfl, rfl⟩
  | case14 _ _ _ _ _ _ _ hread _ _ hheader =>
    exact (takeHeader_same hheader).after ⟨inner_written hread, rfl, rfl⟩
  | case15 _ _ _ _ _ _ _ hread _ _ hheader _ ih =>
    exact (ih.after (takeHeader_same hheader)).after ⟨inner_written hread, rfl, rfl⟩
  | _ => exact ⟨inner_written (by assumption), rfl, rfl⟩

/-- `poll_read` leaves the writing half alone. -/
theorem pollRead_same (s : FakeTlsStream) (room : Nat) : SameWriter s (s.pollRead room).2 := by
  rw [pollRead]
  split
  · exact ⟨rfl, rfl, rfl⟩
  · exact pollReadLoop_same 32 room s

end FakeTlsStream

/-! ## Every sequence of calls -/

/-- What holds between two calls. -/
structure TlsWriter.Sound (s : TlsWriter) : Prop where
  offset : s.stream.writeOffset ≤ s.stream.writeRecord.length
  wire : s.stream.wire = encodeRecords s.accepted
  sizes : ∀ chunk ∈ s.accepted, 1 ≤ chunk.length ∧ chunk.length ≤ tlsAppDataMax

/-- The call is a write that reports an error behind the record before its own. -/
def TlsWriter.writeFails (s : TlsWriter) : TlsCall → Bool
  | .write data answers => (s.stream.pollWrite data answers).1.isError &&
      !(s.stream.pollDrainRecord answers).result.isError
  | _ => false

/-- Reads, flushes and shutdowns keep the wire, so also what it says. -/
theorem TlsWriter.Sound.keep {s : TlsWriter} {t : FakeTlsStream} (h : s.Sound)
    (hoffset : t.writeOffset ≤ t.writeRecord.length) (hwire : t.wire = s.stream.wire) :
    TlsWriter.Sound { s with stream := t } :=
  ⟨hoffset, hwire.trans h.wire, h.sizes⟩

/-- One call keeps the wire in step with the log. -/
theorem TlsWriter.Sound.call {s : TlsWriter} (h : s.Sound) {call : TlsCall}
    (hok : s.writeFails call = false) : (s.call call).Sound := by
  cases call with
  | read room =>
    have hsame := s.stream.pollRead_same room
    apply h.keep _ hsame.wire_eq
    rw [hsame.offset, hsame.record]
    exact h.offset
  | write data answers =>
    have hwrites := FakeTlsStream.pollWrite_writes data answers h.offset
    rw [TlsWriter.writeFails] at hok
    rw [TlsWriter.call]
    generalize s.stream.pollWrite data answers = w at hwrites hok
    obtain ⟨result, t⟩ := w
    obtain ⟨hoffset, hpending, haccepts, -, hundrained⟩ := hwrites
    cases result with
    | pending => exact h.keep hoffset (hpending rfl)
    | ready result =>
      cases result with
      | error e => exact h.keep hoffset (hundrained (by simpa [Poll.isError] using hok))
      | ok n =>
        obtain ⟨hn, hwire⟩ := haccepts n rfl
        dsimp only
        by_cases hzero : n = 0
        · rw [if_pos hzero] at hwire ⊢
          exact h.keep hoffset (by rw [hwire, List.append_nil])
        · rw [if_neg hzero] at hwire ⊢
          refine ⟨hoffset, ?_, ?_⟩
          · rw [hwire, h.wire, encodeRecords_append, encodeRecords_cons, encodeRecords_nil,
              List.append_nil]
          · intro chunk hchunk
            rcases List.mem_append.mp hchunk with hchunk | hchunk
            · exact h.sizes chunk hchunk
            · rw [List.mem_singleton.mp hchunk, List.length_take]
              omega
  | flush answers flushed =>
    obtain ⟨hwire, hoffset, -⟩ := FakeTlsStream.drainThen_spec answers flushed h.offset
    exact h.keep hoffset hwire
  | shutdown answers closed =>
    obtain ⟨hwire, hoffset, -⟩ := FakeTlsStream.drainThen_spec answers closed h.offset
    exact h.keep hoffset hwire

/-- As long as no write has failed on its own record, the wire carries the accepted prefixes. -/
theorem TlsWriter.sound {s : TlsWriter}
    (h : tlsWriterSystem.Within (fun s call => s.writeFails call = false) s) : s.Sound := by
  apply h.induct
  · rintro s ⟨incoming, grants, rfl⟩
    exact ⟨Nat.le_refl _, rfl, by simp⟩
  · intro s call t hs hok hst
    obtain rfl := Option.some.inj hst
    exact hs.call hok

/-- What the writer has put on the wire, and what its next call may do to it. -/
structure TlsWriter.KeepsWire (s : TlsWriter) : Prop where
  /-- The emitted bytes and the staged suffix are the records of what was accepted. -/
  wire : s.stream.inner.written ++ s.stream.writeRecord.drop s.stream.writeOffset =
    encodeRecords s.accepted
  sizes : ∀ chunk ∈ s.accepted, 1 ≤ chunk.length ∧ chunk.length ≤ 16384
  /-- A pending write consumes none of its data. -/
  pending : ∀ data answers, (s.stream.pollWrite data answers).1 = .pending →
    (s.call (.write data answers)).accepted = s.accepted ∧
      (s.call (.write data answers)).stream.wire = s.stream.wire
  /-- After a flush or a shutdown that succeeds, all of it is out. -/
  flushed : ∀ answers flushed, (s.stream.pollFlush answers flushed).1 = .ready (.ok ()) →
    (s.call (.flush answers flushed)).stream.staged = [] ∧
      (s.call (.flush answers flushed)).stream.inner.written = encodeRecords s.accepted
  closed : ∀ answers closed, (s.stream.pollShutdown answers closed).1 = .ready (.ok ()) →
    (s.call (.shutdown answers closed)).stream.staged = [] ∧
      (s.call (.shutdown answers closed)).stream.inner.written = encodeRecords s.accepted
  /-- A write fails only where the inner stream fails or takes nothing. -/
  fails : ∀ data answers e, (s.stream.pollWrite data answers).1 = .ready (.error e) →
    .failed e ∈ answers ∨ .wrote 0 ∈ answers

/-- A drain that succeeds leaves exactly the records of what was accepted. -/
theorem TlsWriter.Sound.drained {s : TlsWriter} (h : s.Sound) {answers : List InnerWrite}
    {inner : Poll (Except IoError Unit)}
    (hresult : (s.stream.drainThen answers inner).1 = .ready (.ok ())) :
    (s.stream.drainThen answers inner).2.staged = [] ∧
      (s.stream.drainThen answers inner).2.inner.written = encodeRecords s.accepted := by
  obtain ⟨hwire, -, hstaged⟩ := FakeTlsStream.drainThen_spec answers inner h.offset
  have hempty := hstaged hresult
  rw [FakeTlsStream.wire, hempty, List.append_nil, h.wire] at hwire
  exact ⟨hempty, hwire⟩

/-- In every run in which no write has failed on its own record, the writer loses and duplicates
nothing. -/
theorem TlsWriter.keepsWire {s : TlsWriter}
    (h : tlsWriterSystem.Within (fun s call => s.writeFails call = false) s) :
    s.KeepsWire := by
  have hsound := TlsWriter.sound h
  constructor
  case wire => exact hsound.wire
  case sizes => exact hsound.sizes
  case pending =>
    intro data answers hpending
    have hwrites := FakeTlsStream.pollWrite_writes data answers hsound.offset
    rw [TlsWriter.call]
    generalize s.stream.pollWrite data answers = w at hwrites hpending
    obtain ⟨result, t⟩ := w
    cases hpending
    exact ⟨rfl, hwrites.pending rfl⟩
  case flushed =>
    intro answers flushed hresult
    exact hsound.drained hresult
  case closed =>
    intro answers closed hresult
    exact hsound.drained hresult
  case fails =>
    intro data answers e
    exact (FakeTlsStream.pollWrite_writes data answers hsound.offset).fails e

/-- A new stream over an idle inner one. -/
theorem tlsWriterSystem_start : tlsWriterSystem.start ⟨{}, []⟩ := ⟨[], [], rfl⟩

/-- A write that leaves in part, one given up, one that fails on what is left, and another one that
drains the first. -/
theorem TlsWriter.keepsWire_abandoned :
    ((TlsWriter.mk {} []).call (.write [1, 2, 3] [.wrote 4]) |>.call
      (.write [9, 9] [.wrote 1, .pending]) |>.call (.write [9] [.wrote 0]) |>.call
      (.write [5] [.wrote 9, .wrote 2])).KeepsWire :=
  TlsWriter.keepsWire
    ((((System.Within.start tlsWriterSystem_start).step rfl rfl |>.step rfl rfl).step rfl rfl).step
      rfl rfl)

/-- A zero-byte write is no error of the inner stream, but its record stays staged while
`poll_write` reports an error. -/
theorem TlsWriter.zeroWrite_counterexample :
    ∃ s, tlsWriterSystem.Within (fun _ call => ∀ e, .failed e ∉ call.answers) s ∧
      s.stream.inner.written ++ s.stream.writeRecord.drop s.stream.writeOffset ≠
        encodeRecords s.accepted := by
  refine ⟨(TlsWriter.mk {} []).call (.write [104] [.wrote 0]), ?_, by decide⟩
  apply System.Within.step (a := .write [104] [.wrote 0]) (.start tlsWriterSystem_start) _ rfl
  intro e he
  cases List.mem_singleton.mp he

end TgWsProxy
