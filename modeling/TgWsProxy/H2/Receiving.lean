import TgWsProxy.H2.Ledger
import TgWsProxy.H2.Post

/-!
# Receiving a response

`post` of `cf_h2.rs` once more, with the memory of the reply: the charge of a declared body
before it is read, the charge that grows with the chunks of any other, and the drop of both
with the locals of a call that returns no reply. The budgets are those of a process in which
nothing else happens meanwhile.
-/

namespace TgWsProxy.H2

open TgWsProxy.Core

/-! ## The code -/

/-- How a call of `post` ends without a result. -/
inductive PostFailure
  | error (e : PostError)
  /-- An `unwrap`, an `expect` or a slice has panicked. -/
  | panicked

/-- A response that cannot be used. -/
def PostFailure.badRoute (message : String) : PostFailure := .error (.route (invalid message))

/-- What `post` makes of the headers: the declared length, or an error. -/
def Response.check (response : Response) : Except PostError (Option Nat) :=
  if response.status ∈ [(403 : UInt16), 404, 429, 444] then
    .error (.transport (-Int32.ofNat response.status.toNat))
  else if response.status ≠ 200 then
    .error (.route (other s!"Cloudflare /api HTTP {response.status}"))
  else if response.isHtml then
    .error (.route (invalid "Cloudflare /api returned HTML instead of MTProto"))
  else
    match response.declared with
    | .error e => .error (.route (other e))
    | .ok declared =>
      if declared.any (· > maxPacket) then
        .error (.route (invalid "H2 response Content-Length exceeds MTProto packet bound"))
      else
        match response.checkEncoding with
        | .error e => .error (.route e)
        | .ok () => .ok declared

/-- The locals of `post` while the body arrives. -/
structure Receiving where
  declared : Option Nat
  charge : Option ReplyCharge := none
  /-- The copy of a body with a declared length. -/
  content : Option Bytes := none
  chunks : List Bytes := []
  received : Nat := 0

/-- `copy_from_slice` of the parts into a buffer, one behind the other; `none` where the slice
is out of range. -/
def copyParts : List Bytes → Nat → Bytes → Option Bytes
  | [], _, buffer => some buffer
  | part :: parts, offset, buffer =>
    if offset + part.length ≤ buffer.length then
      copyParts parts (offset + part.length)
        (buffer.take offset ++ part ++ buffer.drop (offset + part.length))
    else none

/-- `i32::from_le_bytes`. -/
def i32FromLe (bytes : Bytes) : Int32 := (UInt32.ofNat (ofLe bytes)).toInt32

/-- The reply of these parts, with the charge that it must have. -/
def Receiving.reply (r : Receiving) (parts : List Bytes) :
    Except PostFailure (Option BufferedReply) :=
  match r.charge with
  | none => .error .panicked
  | some charge => .ok (some ⟨parts, r.received, charge, none⟩)

/-- What `post` makes of a body of the right length. -/
def Receiving.complete (r : Receiving) (parts : List Bytes) :
    Except PostFailure (Option BufferedReply) :=
  if r.received % 4 ≠ 0 then
    .error (.badRoute "Cloudflare /api response is not an aligned MTProto packet")
  else if r.received = 4 then
    match copyParts parts 0 [0, 0, 0, 0] with
    | none => .error .panicked
    | some encoded =>
      if i32FromLe encoded < 0 then .error (.error (.transport (i32FromLe encoded)))
      else r.reply parts
  else if r.received = 0 then .ok none
  else r.reply parts

/-- What follows the loop of `post`. -/
def Receiving.finish (r : Receiving) : Except PostFailure (Option BufferedReply) :=
  if r.declared.any (· ≠ r.received) then
    .error (.error (.route ⟨.unexpectedEof, "incomplete H2 response body"⟩))
  else
    match r.content with
    | some content => r.complete [content]
    | none => r.complete r.chunks

namespace Process

/-- The error of a `charge_reply` that is refused. -/
def chargeError (s : Process) (bytes : Nat) : PostFailure :=
  if (tryAcquire s.budgets .replies bytes).isNone then
    .error (.channel (other "H2 process payload buffers exceeded bound"))
  else .error (.channel (other "H2 lane response buffers exceeded bound"))

/-- The error of a `try_extend` that is refused. -/
def extendError (s : Process) (charge : ReplyCharge) (bytes : Nat) : PostFailure :=
  if (tryExtendBytes s.budgets charge.global bytes).isNone then
    .error (.channel (other "H2 process payload buffers exceeded bound"))
  else .error (.channel (other "H2 lane response buffers exceeded bound"))

/-- The charge of one chunk: a new one, or more of the one there is. -/
def chargeChunk (s : Process) (l : Nat) (r : Receiving) (bytes : Nat) :
    Option PostFailure × Receiving × Process :=
  match r.charge with
  | some charge =>
    match s.tryExtend charge bytes with
    | (true, charge', s') => (none, { r with charge := some charge' }, s')
    | (false, charge', s') =>
      (some (s.extendError charge bytes), { r with charge := some charge' }, s')
  | none =>
    match s.chargeReply l bytes with
    | (some charge, s') => (none, { r with charge := some charge }, s')
    | (none, s') => (some (s.chargeError bytes), r, s')

/-- One turn of the loop of `post`. -/
def receiveChunk (s : Process) (l : Nat) (r : Receiving) (chunk : Bytes) :
    Option PostFailure × Receiving × Process :=
  if r.received + chunk.length > maxPacket then
    (some (.badRoute "H2 response exceeds MTProto packet bound"), r, s)
  else
    let r := { r with received := r.received + chunk.length }
    match r.content with
    | some body =>
      match r.declared with
      | none => (some .panicked, r, s)
      | some length =>
        if r.received > length then
          (some (.badRoute "H2 response exceeded Content-Length"), r, s)
        else (none, { r with content := some (body ++ chunk) }, s)
    | none =>
      if chunk = [] then (none, r, s)
      else if r.chunks.length ≥ maxResponseChunks then
        (some (.badRoute "H2 response is excessively fragmented"), r, s)
      else
        match s.chargeChunk l r chunk.length with
        | (none, r, s) => (none, { r with chunks := r.chunks ++ [chunk] }, s)
        | refused => refused

/-- The loop of `post`. An error behind a chunk is one of the stream, or of the release of the
chunk's capacity. -/
def receiveChunks (s : Process) (l : Nat) (r : Receiving) :
    List (Except String Bytes) → Option PostFailure × Receiving × Process
  | [] => (none, r, s)
  | .error e :: _ => (some (.error (.route (other e))), r, s)
  | .ok chunk :: data =>
    match s.receiveChunk l r chunk with
    | (none, r, s) => receiveChunks s l r data
    | stopped => stopped

/-- The loop and what follows it; unless there is a reply, the charge is dropped. -/
def receiveBody (s : Process) (l : Nat) (r : Receiving) (data : List (Except String Bytes)) :
    Except PostFailure (Option BufferedReply) × Process :=
  match s.receiveChunks l r data with
  | (some failure, r, s) => (.error failure, s.discard r.charge)
  | (none, r, s) =>
    match r.finish with
    | .ok (some reply) => (.ok (some reply), s)
    | result => (result, s.discard r.charge)

/-- `post` on a lane, from the headers of the response on; `allocate` is the refusal of
`try_reserve_exact`. -/
def post (s : Process) (l : Nat) (response : Response) (allocate : Nat → Option IoError) :
    Except PostFailure (Option BufferedReply) × Process :=
  match response.check with
  | .error e => (.error (.error e), s)
  | .ok none => s.receiveBody l { declared := none } response.data
  | .ok (some length) =>
    match s.chargeReply l length with
    | (none, s') => (.error (s.chargeError length), s')
    | (some charge, s') =>
      match allocate length with
      | some e => (.error (.error (.channel e)), s'.discard (some charge))
      | none =>
        s'.receiveBody l { declared := some length, charge := some charge, content := some [] }
          response.data

end Process

/-! ## One charge -/

/-- The charge of one reply of so many bytes. -/
def replyCharge (l bytes : Nat) : ReplyCharge := ⟨l, bytes, ⟨.replies, bytes⟩⟩

namespace Process

variable {s s' : Process} {l bytes more : Nat}

/-- The process holds one more reply of so many bytes. -/
def charged (s : Process) (l bytes : Nat) : Process :=
  let replies := s.budgets .replies
  { s with
    budgets := Function.update s.budgets .replies
      { replies with requests := replies.requests + 1, bytes := replies.bytes + bytes }
    lanes := Function.update s.lanes l
      { s.lanes l with replyBytes := (s.lanes l).replyBytes + bytes } }

/-- There is capacity for a reply of so many bytes. -/
structure HasRoom (s : Process) (l bytes : Nat) : Prop where
  requests : (s.budgets .replies).requests < (s.budgets .replies).maxRequests
  process : (s.budgets .replies).bytes + bytes ≤ (s.budgets .replies).maxBytes
  lane : (s.lanes l).replyBytes + bytes ≤ maxLaneReplyBytes

/-- Room for more is room for less. -/
theorem HasRoom.mono (h : s.HasRoom l bytes) (hle : more ≤ bytes) : s.HasRoom l more :=
  ⟨h.requests, Nat.le_trans (Nat.add_le_add_left hle _) h.process,
    Nat.le_trans (Nat.add_le_add_left hle _) h.lane⟩

/-- The refusal of memory for a reply of so many bytes. -/
def memory (s : Process) (l bytes : Nat) : Option IoError :=
  let replies := s.budgets .replies
  if replies.requests ≥ replies.maxRequests ∨ replies.bytes + bytes > replies.maxBytes then
    some (other "H2 process payload buffers exceeded bound")
  else if (s.lanes l).replyBytes + bytes > maxLaneReplyBytes then
    some (other "H2 lane response buffers exceeded bound")
  else none

/-- There is no refusal just when there is room. -/
theorem memory_eq_none : s.memory l bytes = none ↔ s.HasRoom l bytes := by
  rw [memory]
  constructor
  · intro h
    split at h
    · cases h
    · next hprocess =>
      split at h
      · cases h
      · next hlane =>
        rw [not_or, Nat.not_le, Nat.not_lt] at hprocess
        exact ⟨hprocess.1, hprocess.2, Nat.le_of_not_lt hlane⟩
  · intro h
    rw [if_neg (not_or.mpr ⟨Nat.not_le.mpr h.requests, Nat.not_lt.mpr h.process⟩),
      if_neg (Nat.not_lt.mpr h.lane)]

/-- A charge that finds room is one more reply, and a refused one changes nothing. -/
theorem chargeReply_eq (s : Process) (l bytes : Nat) :
    match s.memory l bytes with
    | none => s.chargeReply l bytes = (some (replyCharge l bytes), s.charged l bytes)
    | some e => s.chargeReply l bytes = (none, s) ∧
        s.chargeError bytes = .error (.channel e) := by
  rw [memory, chargeReply, chargeError, tryAcquire]
  by_cases hprocess : (s.budgets .replies).requests ≥ (s.budgets .replies).maxRequests ∨
      (s.budgets .replies).bytes + bytes > (s.budgets .replies).maxBytes
  · simp only [if_pos hprocess]
    exact ⟨trivial, rfl⟩
  · simp only [if_neg hprocess]
    by_cases hlane : (s.lanes l).replyBytes + bytes > maxLaneReplyBytes
    · simp only [if_pos hlane]
      exact ⟨by simp [dropPermit], rfl⟩
    · simp only [if_neg hlane]
      rfl

/-- More of a charge that finds room is one charge of both, and a refusal changes nothing. -/
theorem tryExtend_eq (h : s.HasRoom l bytes) (more : Nat) :
    match s.memory l (bytes + more) with
    | none => (s.charged l bytes).tryExtend (replyCharge l bytes) more =
        (true, replyCharge l (bytes + more), s.charged l (bytes + more))
    | some e => (s.charged l bytes).tryExtend (replyCharge l bytes) more =
          (false, replyCharge l bytes, s.charged l bytes) ∧
        (s.charged l bytes).extendError (replyCharge l bytes) more = .error (.channel e) := by
  have hbytes : (s.budgets .replies).bytes + bytes + more =
    (s.budgets .replies).bytes + (bytes + more) := Nat.add_assoc ..
  have hlane : (s.lanes l).replyBytes + bytes + more =
    (s.lanes l).replyBytes + (bytes + more) := Nat.add_assoc ..
  simp only [memory, tryExtend, extendError, tryExtendBytes, charged, replyCharge,
    Function.update_self, hbytes, hlane, ge_iff_le, Nat.not_le.mpr h.requests, false_or]
  by_cases hfull : (s.budgets .replies).bytes + (bytes + more) > (s.budgets .replies).maxBytes
  · simp only [if_pos hfull]
    exact ⟨trivial, rfl⟩
  · simp only [if_neg hfull]
    by_cases hfull : (s.lanes l).replyBytes + (bytes + more) > maxLaneReplyBytes
    · simp only [if_pos hfull]
      refine ⟨?_, rfl⟩
      simp [shrinkBytes, ← hbytes]
    · simp only [if_neg hfull]
      simp [modifyLane, hlane]

/-- Dropping the charge restores the process. -/
theorem dropCharge_charged (s : Process) (l bytes : Nat) :
    (s.charged l bytes).dropCharge (replyCharge l bytes) = s := by
  simp [charged, replyCharge, dropCharge, dropPermit, modifyLane]

end Process

/-! ## The loop -/

/-- The locals and the process while a body arrives: nothing but its charge has changed. -/
inductive Holds (s : Process) (l : Nat) : Receiving → Process → List Bytes → Nat → Prop
  | declared {length received : Nat} {parts : List Bytes} :
    Holds s l ⟨some length, some (replyCharge l length), some parts.flatten, [], received⟩
      (s.charged l length) parts received
  | empty : Holds s l ⟨none, none, none, [], 0⟩ s [] 0
  | chunked {received : Nat} {parts : List Bytes} (hroom : s.HasRoom l received) :
    Holds s l ⟨none, some (replyCharge l received), none, parts, received⟩
      (s.charged l received) parts received

variable {s s' : Process} {l received : Nat} {r : Receiving} {parts : List Bytes}

/-- Giving back the charge leaves the counters as they were. -/
theorem Holds.discard (h : Holds s l r s' parts received) : s'.discard r.charge = s := by
  cases h with
  | declared => exact Process.dropCharge_charged ..
  | empty => rfl
  | chunked => exact Process.dropCharge_charged ..

/-- A chunk is charged, or the refusal leaves all as it was. -/
theorem Holds.chargeChunk (h : Holds s l r s' parts received) (hdeclared : r.declared = none)
    (bytes : Nat) :
    match s.memory l (received + bytes) with
    | none => s'.chargeChunk l { r with received := received + bytes } bytes =
        (none, { r with
            charge := some (replyCharge l (received + bytes))
            received := received + bytes },
          s.charged l (received + bytes))
    | some e => s'.chargeChunk l { r with received := received + bytes } bytes =
        (some (.error (.channel e)), { r with received := received + bytes }, s') := by
  cases h with
  | declared => cases hdeclared
  | empty =>
    have hcharge := Process.chargeReply_eq s l bytes
    rw [Nat.zero_add]
    cases hmemory : s.memory l bytes with
    | none =>
      simp only [hmemory] at hcharge
      simp only [Process.chargeChunk, hcharge]
    | some e =>
      simp only [hmemory] at hcharge
      simp only [Process.chargeChunk, hcharge]
  | chunked hroom =>
    have hcharge := Process.tryExtend_eq hroom bytes
    cases hmemory : s.memory l (received + bytes) with
    | none =>
      simp only [hmemory] at hcharge
      simp only [Process.chargeChunk, hcharge]
    | some e =>
      simp only [hmemory] at hcharge
      simp only [Process.chargeChunk, hcharge]

/-- A turn of the loop does what a turn of `collect` does, and keeps the account. -/
def TurnAgrees (s s' : Process) (l : Nat) (r : Receiving) (parts : List Bytes) (received : Nat)
    (chunk : Bytes) : Prop :=
  (∃ e r', s'.receiveChunk l r chunk = (some (.error e), r', s') ∧ s'.discard r'.charge = s ∧
    ∀ data, collect r.declared (s.memory l) (.ok chunk :: data) parts received = .error e) ∨
  ∃ r' s'' parts' received', s'.receiveChunk l r chunk = (none, r', s'') ∧
    Holds s l r' s'' parts' received' ∧ r'.declared = r.declared ∧
    ∀ data, collect r.declared (s.memory l) (.ok chunk :: data) parts received =
      collect r.declared (s.memory l) data parts' received'

/-- A chunk of a response of announced length. -/
theorem turnAgrees_declared (length : Nat) (chunk : Bytes) :
    TurnAgrees s (s.charged l length) l
      ⟨some length, some (replyCharge l length), some parts.flatten, [], received⟩ parts received
      chunk := by
  have hdrop := Process.dropCharge_charged s l length
  by_cases hlong : received + chunk.length > maxPacket
  · refine .inl ⟨.route (invalid "H2 response exceeds MTProto packet bound"),
      ⟨some length, some (replyCharge l length), some parts.flatten, [], received⟩, ?_, hdrop,
      fun data => ?_⟩
    · simp only [Process.receiveChunk, if_pos hlong]
      rfl
    · simp only [collect, if_pos hlong]
  by_cases hmore : received + chunk.length > length
  · refine .inl ⟨.route (invalid "H2 response exceeded Content-Length"),
      ⟨some length, some (replyCharge l length), some parts.flatten, [], received + chunk.length⟩,
      ?_, hdrop, fun data => ?_⟩
    · simp only [Process.receiveChunk, if_neg hlong, if_pos hmore]
      rfl
    · simp only [collect, if_neg hlong, if_pos hmore]
  · refine .inr ⟨⟨some length, some (replyCharge l length), some (parts ++ [chunk]).flatten, [],
      received + chunk.length⟩, s.charged l length, parts ++ [chunk], received + chunk.length, ?_,
      .declared, rfl, fun data => ?_⟩
    · simp only [Process.receiveChunk, if_neg hlong, if_neg hmore, List.flatten_append,
        List.flatten_singleton]
    · simp only [collect, if_neg hlong, if_neg hmore]

/-- A chunk of a response without one. -/
theorem turnAgrees_chunked {charge : Option ReplyCharge}
    (h : Holds s l ⟨none, charge, none, parts, received⟩ s' parts received) (chunk : Bytes) :
    TurnAgrees s s' l ⟨none, charge, none, parts, received⟩ parts received chunk := by
  by_cases hlong : received + chunk.length > maxPacket
  · refine .inl ⟨.route (invalid "H2 response exceeds MTProto packet bound"), _, ?_, h.discard,
      fun data => ?_⟩
    · simp only [Process.receiveChunk, if_pos hlong]
      rfl
    · simp only [collect, if_pos hlong]
  by_cases hempty : chunk = []
  · subst hempty
    refine .inr ⟨_, s', parts, received, ?_, h, rfl, fun data => ?_⟩
    · rw [Process.receiveChunk, if_neg hlong]
      rfl
    · simp only [collect, if_neg hlong, if_true]
  by_cases hmany : parts.length ≥ maxResponseChunks
  · refine .inl ⟨.route (invalid "H2 response is excessively fragmented"),
      ⟨none, charge, none, parts, received + chunk.length⟩, ?_, h.discard, fun data => ?_⟩
    · simp only [Process.receiveChunk, if_neg hlong, if_neg hempty, if_pos hmany]
      rfl
    · simp only [collect, if_neg hlong, if_neg hempty, if_pos hmany]
  have hcharge := h.chargeChunk rfl chunk.length
  cases hmemory : s.memory l (received + chunk.length) with
  | some e =>
    simp only [hmemory] at hcharge
    refine .inl ⟨.channel e, ⟨none, charge, none, parts, received + chunk.length⟩, ?_, h.discard,
      fun data => ?_⟩
    · simp only [Process.receiveChunk, if_neg hlong, if_neg hempty, if_neg hmany, hcharge]
    · simp only [collect, if_neg hlong, if_neg hempty, if_neg hmany, hmemory]
  | none =>
    simp only [hmemory] at hcharge
    refine .inr ⟨_, s.charged l (received + chunk.length), parts ++ [chunk],
      received + chunk.length, ?_, .chunked (Process.memory_eq_none.mp hmemory), rfl,
      fun data => ?_⟩
    · simp only [Process.receiveChunk, if_neg hlong, if_neg hempty, if_neg hmany, hcharge]
    · simp only [collect, if_neg hlong, if_neg hempty, if_neg hmany, hmemory]

/-- Each chunk is taken as the specification says. -/
theorem Holds.turnAgrees (h : Holds s l r s' parts received) (chunk : Bytes) :
    TurnAgrees s s' l r parts received chunk := by
  cases h with
  | declared => exact turnAgrees_declared _ chunk
  | empty => exact turnAgrees_chunked .empty chunk
  | chunked hroom => exact turnAgrees_chunked (.chunked hroom) chunk

/-- The loop does what `collect` does, and keeps the account. -/
theorem Holds.receiveChunks (h : Holds s l r s' parts received)
    (data : List (Except String Bytes)) :
    (∃ e r' s'', s'.receiveChunks l r data = (some (.error e), r', s'') ∧
      s''.discard r'.charge = s ∧ collect r.declared (s.memory l) data parts received = .error e) ∨
    ∃ r' s'' parts' received', s'.receiveChunks l r data = (none, r', s'') ∧
      Holds s l r' s'' parts' received' ∧ r'.declared = r.declared ∧
      collect r.declared (s.memory l) data parts received = .ok (parts', received') := by
  induction data generalizing r s' parts received with
  | nil => exact .inr ⟨r, s', parts, received, rfl, h, rfl, rfl⟩
  | cons item data ih =>
    cases item with
    | error e => exact .inl ⟨.route (other e), r, s', rfl, h.discard, rfl⟩
    | ok chunk =>
      rcases h.turnAgrees chunk with ⟨e, r', hturn, hdrop, hcollect⟩ |
        ⟨r₁, s₁, parts₁, received₁, hturn, h₁, hdeclared, hcollect⟩
      · refine .inl ⟨e, r', s', ?_, hdrop, hcollect data⟩
        simp only [Process.receiveChunks, hturn]
      · have hloop : s'.receiveChunks l r (.ok chunk :: data) = s₁.receiveChunks l r₁ data := by
          simp only [Process.receiveChunks, hturn]
        rw [hloop, hcollect, ← hdeclared]
        exact ih h₁

end TgWsProxy.H2
