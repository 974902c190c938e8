import TgWsProxy.H2.Receiving

/-!
# Reassembling a response

A call of `post` returns the bytes of its body in one piece exactly for the responses that it
accepts, and whatever it returns leaves the counters as they were.
-/

namespace TgWsProxy.H2

open TgWsProxy.Core

variable {s s' : Process} {l received : Nat} {r : Receiving} {parts : List Bytes}

/-! ## The whole call -/

/-- The parts that fit a buffer are copied behind one another. -/
theorem copyParts_eq {parts : List Bytes} {offset : Nat} {buffer : Bytes}
    (h : offset + parts.flatten.length ≤ buffer.length) :
    copyParts parts offset buffer =
      some
        (buffer.take offset ++ parts.flatten ++ buffer.drop (offset + parts.flatten.length)) := by
  induction parts generalizing offset buffer with
  | nil => simp [copyParts]
  | cons part parts ih =>
    rw [List.flatten_cons, List.length_append] at h
    have hbuffer : (buffer.take offset ++ part ++ buffer.drop (offset + part.length)).length =
        buffer.length := by
      simp only [List.length_append, List.length_take, List.length_drop]
      omega
    have hfront : (buffer.take offset ++ part).length = offset + part.length := by
      rw [List.length_append, List.length_take]
      omega
    have hback : (buffer.take offset ++ part ++ buffer.drop (offset + part.length)).drop
        (offset + part.length + parts.flatten.length) =
        buffer.drop (offset + (part.length + parts.flatten.length)) := by
      rw [List.drop_append, hfront, List.drop_of_length_le (by omega), List.nil_append,
        List.drop_drop]
      congr 1
      omega
    rw [copyParts, if_pos (by omega), ih (by omega), List.take_left' hfront, hback,
      List.flatten_cons, List.length_append, List.append_assoc,
      List.append_assoc, List.append_assoc, List.append_assoc]

/-- `finish_body` decides by the length and by a sole negative number. -/
theorem finishBody_eq (parts : List Bytes) (received : Nat) : finishBody parts received =
    if received % 4 ≠ 0 then
      .error (.route (invalid "Cloudflare /api response is not an aligned MTProto packet"))
    else if received = 4 ∧ i32FromLe parts.flatten < 0 then
      .error (.transport (i32FromLe parts.flatten))
    else if received = 0 then .ok none
    else .ok (some parts) := rfl

/-- A complete body is what `finishBody` says; nothing panics, and a reply has its charge. -/
theorem complete_spec (r : Receiving) (l : Nat) (body : List Bytes)
    (hlength : body.flatten.length = r.received)
    (hcharge : r.received ≠ 0 → r.charge = some (replyCharge l r.received)) :
    (∃ e, finishBody body r.received = .error e ∧ r.complete body = .error (.error e)) ∨
    (finishBody body r.received = .ok none ∧ r.complete body = .ok none) ∨
    finishBody body r.received = .ok (some body) ∧ r.received ≠ 0 ∧
      r.complete body = .ok (some ⟨body, r.received, replyCharge l r.received, none⟩) := by
  rw [finishBody_eq, Receiving.complete]
  by_cases haligned : r.received % 4 ≠ 0
  · exact .inl ⟨_, if_pos haligned, if_pos haligned⟩
  rw [if_neg haligned, if_neg haligned]
  by_cases hfour : r.received = 4
  · have hcopy : copyParts body 0 [0, 0, 0, 0] = some body.flatten := by
      rw [copyParts_eq (by simp [hlength, hfour]), hlength, hfour]
      simp
    have hne : r.received ≠ 0 := by omega
    rw [if_pos hfour, hcopy]
    by_cases hcode : i32FromLe body.flatten < 0
    · exact .inl ⟨_, if_pos ⟨hfour, hcode⟩, if_pos hcode⟩
    · rw [if_neg fun h => hcode h.2, if_neg hne]
      exact .inr (.inr ⟨rfl, hne, (if_neg hcode).trans (by rw [Receiving.reply, hcharge hne])⟩)
  · rw [if_neg hfour, if_neg fun h => hfour h.1]
    by_cases hzero : r.received = 0
    · exact .inr (.inl ⟨if_pos hzero, if_pos hzero⟩)
    · rw [if_neg hzero, if_neg hzero, Receiving.reply, hcharge hzero]
      exact .inr (.inr ⟨rfl, hzero, rfl⟩)

/-- What `post` returns for a complete body, without the memory. -/
def bodyResult (declared : Option Nat) (parts : List Bytes) (received : Nat) :
    Except PostError (Option (List Bytes)) :=
  match declared with
  | some length =>
    if length ≠ received then .error (.route ⟨.unexpectedEof, "incomplete H2 response body"⟩)
    else finishBody [parts.flatten] received
  | none => finishBody parts received

/-- The end of `post` is that of a complete body, and a reply is all that is charged. -/
theorem Holds.finish (h : Holds s l r s' parts received)
    (hlength : parts.flatten.length = received) :
    (∃ e, bodyResult r.declared parts received = .error e ∧ r.finish = .error (.error e)) ∨
    (bodyResult r.declared parts received = .ok none ∧ r.finish = .ok none) ∨
    ∃ body, bodyResult r.declared parts received = .ok (some body) ∧
      r.finish = .ok (some ⟨body, received, replyCharge l received, none⟩) ∧
      s' = s.charged l received ∧ body.flatten = parts.flatten := by
  cases h with
  | @declared length =>
    by_cases hmiss : length ≠ received
    · refine .inl ⟨_, if_pos hmiss, ?_⟩
      rw [Receiving.finish, if_pos (by simpa using hmiss)]
    · obtain rfl := not_not.mp hmiss
      set r : Receiving :=
        ⟨some length, some (replyCharge l length), some parts.flatten, [], length⟩
      have hfinish : r.finish = r.complete [parts.flatten] := if_neg (by simp [r])
      rw [hfinish, bodyResult, if_neg hmiss]
      rcases complete_spec r l [parts.flatten] (by rwa [List.flatten_singleton]) (fun _ => rfl) with
        h | h | ⟨hbody, -, hreply⟩
      · exact .inl h
      · exact .inr (.inl h)
      · exact .inr (.inr ⟨_, hbody, hreply, rfl, List.flatten_singleton⟩)
  | empty => exact .inr (.inl ⟨rfl, rfl⟩)
  | chunked hroom =>
    set r : Receiving := ⟨none, some (replyCharge l received), none, parts, received⟩
    have hfinish : r.finish = r.complete parts := if_neg (by simp [r])
    rw [hfinish, bodyResult]
    rcases complete_spec r l parts hlength (fun _ => rfl) with
      h | h | ⟨hbody, -, hreply⟩
    · exact .inl h
    · exact .inr (.inl h)
    · exact .inr (.inr ⟨_, hbody, hreply, rfl, rfl⟩)

/-- A result of `post`, and what it leaves charged: the reply that it returns, if any. -/
inductive Settles (s : Process) (l : Nat) : Except PostError (Option (List Bytes)) →
    Except PostFailure (Option BufferedReply) × Process → Prop
  | error (e : PostError) : Settles s l (.error e) (.error (.error e), s)
  | nothing : Settles s l (.ok none) (.ok none, s)
  | reply (body : List Bytes) : Settles s l (.ok (some body))
    (.ok (some ⟨body, body.flatten.length, replyCharge l body.flatten.length, none⟩),
      s.charged l body.flatten.length)

/-- What is left of a body is collected as its specification says. -/
theorem Holds.receiveBody (h : Holds s l r s' parts received)
    (hlength : parts.flatten.length = received) (hbound : received ≤ maxPacket)
    (data : List (Except String Bytes)) :
    Settles s l (collect r.declared (s.memory l) data parts received >>= fun out =>
      bodyResult r.declared out.1 out.2) (s'.receiveBody l r data) := by
  rcases h.receiveChunks data with ⟨e, r', s'', hloop, hdrop, hcollect⟩ |
    ⟨r', s'', parts', received', hloop, h', hdeclared, hcollect⟩
  · rw [Process.receiveBody, hloop, hcollect]
    dsimp only
    rw [hdrop]
    exact .error e
  · obtain ⟨hlength', -⟩ := collect_spec hcollect hlength hbound
    rw [Process.receiveBody, hloop, hcollect]
    have hdrop := h'.discard
    rcases h'.finish hlength' with ⟨e, hbody, hfinish⟩ | ⟨hbody, hfinish⟩ |
      ⟨body, hbody, hfinish, rfl, hflatten⟩
    · rw [hdeclared] at hbody
      simp only [bind, Except.bind, hbody, hfinish, hdrop]
      exact .error e
    · rw [hdeclared] at hbody
      simp only [bind, Except.bind, hbody, hfinish, hdrop]
      exact .nothing
    · rw [hdeclared] at hbody
      obtain rfl := hflatten ▸ hlength'
      simp only [bind, Except.bind, hbody, hfinish]
      exact .reply body

/-- A body with a declared length is charged before it is read. -/
theorem collect_declared (length : Nat) (memory memory' : Nat → Option IoError)
    (data : List (Except String Bytes)) (parts : List Bytes) (received : Nat) :
    collect (some length) memory data parts received =
      collect (some length) memory' data parts received := by
  induction data generalizing parts received with
  | nil => rfl
  | cons item data ih =>
    cases item with
    | error e => rfl
    | ok chunk => simp only [collect, ih]

/-- `post` without the memory, by its checks, its loop and its end. -/
theorem post_eq_check (response : Response) (memory : Nat → Option IoError) :
    post response memory = response.check >>= fun declared =>
      match declared.bind memory with
      | some e => .error (.channel e)
      | none => collect declared memory response.data [] 0 >>= fun out =>
          bodyResult declared out.1 out.2 := by
  rw [post, Response.check]
  split
  · rfl
  split
  · rfl
  split
  · rfl
  cases response.declared with
  | error e => rfl
  | ok declared =>
    dsimp only
    split
    · rfl
    cases response.checkEncoding with
    | error e => rfl
    | ok =>
      cases declared with
      | none => rfl
      | some length => rfl

/-- The refusals of memory for a response: of the accounts, and of the allocation of a body
with a declared length. -/
def Process.refusals (s : Process) (l : Nat) (response : Response)
    (allocate : Nat → Option IoError) (bytes : Nat) : Option IoError :=
  (s.memory l bytes).or (if response.contentLength.isSome then allocate bytes else none)

/-- Only a response with the header declares a length. -/
theorem Response.isSome_of_declared {response : Response} {declared : Option Nat}
    (h : response.declared = .ok declared) : response.contentLength.isSome = declared.isSome := by
  rw [Response.declared] at h
  cases hlength : response.contentLength with
  | none =>
    simp only [hlength] at h
    rw [← Except.ok.inj h]
    rfl
  | some value =>
    simp only [hlength, bind_eq_ok] at h
    obtain ⟨text, -, length, -, hsome⟩ := h
    rw [← Except.ok.inj hsome]
    rfl

private theorem Response.declared_of_check {response : Response} {declared : Option Nat}
    (h : response.check = .ok declared) : response.declared = .ok declared := by
  rw [Response.check] at h
  split at h
  · cases h
  split at h
  · cases h
  split at h
  · cases h
  cases hdeclared : response.declared with
  | error e => simp [hdeclared] at h
  | ok declared' =>
    simp only [hdeclared] at h
    split at h
    · cases h
    split at h
    · cases h
    · exact congrArg _ (Except.ok.inj h)

/-- With these refusals `post` returns what it returns without the memory, it charges just the
reply that it returns, and nothing panics. -/
theorem Process.post_settles (s : Process) (l : Nat) (response : Response)
    (allocate : Nat → Option IoError) :
    Settles s l (H2.post response (s.refusals l response allocate))
    (s.post l response allocate) := by
  cases hcheck : response.check with
  | error e =>
    rw [post_eq_check, Process.post, hcheck]
    exact .error e
  | ok declared =>
    have hsome := Response.isSome_of_declared (Response.declared_of_check hcheck)
    rw [post_eq_check, Process.post, hcheck]
    cases declared with
    | none =>
      have hmemory : s.refusals l response allocate = s.memory l := by
        funext bytes
        rw [refusals, hsome]
        exact Option.or_none
      have hstart : Holds s l ⟨none, none, none, [], 0⟩ s [] 0 := .empty
      have hbody := hstart.receiveBody rfl (Nat.zero_le _) response.data
      simpa only [bind, Except.bind, hmemory, Option.bind_none] using hbody
    | some length =>
      have hcharge := s.chargeReply_eq l length
      cases hmemory : s.memory l length with
      | some e =>
        simp only [hmemory] at hcharge
        simp only [bind, Except.bind, Option.bind_some, refusals, hmemory, Option.some_or, hcharge]
        exact .error _
      | none =>
        simp only [hmemory] at hcharge
        cases hallocate : allocate length with
        | some e =>
          simp only [bind, Except.bind, Option.bind_some, refusals, hmemory, Option.none_or,
            hcharge, hsome, Option.isSome_some, if_true, hallocate, discard, dropCharge_charged]
          exact .error _
        | none =>
          have hstart : Holds s l ⟨some length, some (replyCharge l length), some [], [], 0⟩
            (s.charged l length) [] 0 := @Holds.declared s l length 0 []
          have hbody := hstart.receiveBody rfl (Nat.zero_le _) response.data
          simp only [bind, Except.bind, Option.bind_some, refusals, hmemory, Option.none_or,
            hcharge, hsome, Option.isSome_some, if_true, hallocate]
          simpa only [bind, Except.bind,
            collect_declared length (s.memory l) (s.refusals l response allocate)] using hbody

/-! ## What is accepted -/

/-- The chunks that the loop keeps. -/
def kept (declared : Option Nat) (chunks : List Bytes) : List Bytes :=
  if declared.isSome then chunks else chunks.filter (· ≠ [])

/-- With memory for all of it, the loop takes a body just within its bounds. -/
theorem collect_chunks {declared : Option Nat} {memory : Nat → Option IoError}
    {chunks parts : List Bytes} {received : Nat} (out : List Bytes × Nat)
    (hmemory : ∀ bytes ≤ received + chunks.flatten.length, bytes ≤ maxPacket → declared = none →
      memory bytes = none)
    (hbound : received ≤ maxPacket) (hdeclared : ∀ length ∈ declared, received ≤ length)
    (hparts : declared = none → parts.length ≤ maxResponseChunks) :
    collect declared memory (chunks.map .ok) parts received = .ok out ↔
      received + chunks.flatten.length ≤ maxPacket ∧
        (∀ length ∈ declared, received + chunks.flatten.length ≤ length) ∧
        (declared = none → (parts ++ kept declared chunks).length ≤ maxResponseChunks) ∧
        out = (parts ++ kept declared chunks, received + chunks.flatten.length) := by
  induction chunks generalizing parts received with
  | nil =>
    have hkept : kept declared [] = [] := by cases declared <;> rfl
    rw [List.map_nil, collect, hkept, List.append_nil, List.flatten_nil, List.length_nil,
      Nat.add_zero, Except.ok.injEq, eq_comm]
    exact ⟨fun h => ⟨hbound, hdeclared, hparts, h⟩, fun h => h.2.2.2⟩
  | cons chunk chunks ih =>
    rw [List.flatten_cons, List.length_append, ← Nat.add_assoc] at hmemory ⊢
    rw [List.map_cons, collect.eq_def]
    dsimp only
    by_cases hlong : received + chunk.length > maxPacket
    · rw [if_pos hlong]
      exact iff_of_false (by simp) fun h => by omega
    rw [if_neg hlong]
    cases declared with
    | some length =>
      dsimp only
      by_cases hmore : received + chunk.length > length
      · rw [if_pos hmore]
        refine iff_of_false (by simp) fun h => ?_
        have := h.2.1 length rfl
        omega
      · rw [if_neg hmore, ih hmemory (Nat.le_of_not_lt hlong) (by simpa using hmore) (by simp)]
        simp [kept]
    | none =>
      dsimp only
      by_cases hempty : chunk = []
      · subst hempty
        rw [List.length_nil, Nat.add_zero] at hmemory ⊢
        rw [if_pos rfl, ih hmemory hbound (by simp) hparts]
        simp [kept]
      · rw [if_neg hempty]
        by_cases hmany : parts.length ≥ maxResponseChunks
        · rw [if_pos hmany]
          refine iff_of_false (by simp) fun h => ?_
          have hfew := h.2.2.1 rfl
          have hkept : kept none (chunk :: chunks) = chunk :: kept none chunks := by
            simp [kept, hempty]
          rw [hkept, List.length_append, List.length_cons] at hfew
          omega
        · rw [if_neg hmany, hmemory _ (Nat.le_add_right ..) (Nat.le_of_not_lt hlong) rfl]
          dsimp only
          rw [ih hmemory (Nat.le_of_not_lt hlong) (by simp) fun _ => by simp; omega]
          simp [kept, hempty]

/-- A response with nothing against it but its body: its status, its headers, the length that
it declares and its chunks, without an error of the stream. -/
structure Response.Carries (response : Response) (declared : Option Nat) (chunks : List Bytes) :
    Prop where
  status : response.status = 200
  html : response.isHtml = false
  encoding : response.checkEncoding = .ok ()
  declared : response.declared = .ok declared
  data : response.data = chunks.map .ok

/-- A body that is a reply. -/
structure Acceptable (declared : Option Nat) (chunks : List Bytes) : Prop where
  pos : 0 < chunks.flatten.length
  bound : chunks.flatten.length ≤ maxPacket
  aligned : chunks.flatten.length % 4 = 0
  length : ∀ length ∈ declared, length = chunks.flatten.length
  few : declared = none → (chunks.filter (· ≠ [])).length ≤ maxResponseChunks
  code : ¬(chunks.flatten.length = 4 ∧ i32FromLe chunks.flatten < 0)

/-- The parts of a body: one copy where its length is declared, else the chunks. -/
def bodyParts (declared : Option Nat) (chunks : List Bytes) : List Bytes :=
  if declared.isSome then [chunks.flatten] else chunks.filter (· ≠ [])

private theorem flatten_bodyParts (declared : Option Nat) (chunks : List Bytes) :
    (bodyParts declared chunks).flatten = chunks.flatten := by
  rw [bodyParts]
  split
  · exact List.flatten_singleton
  · exact List.flatten_filter_ne_nil

private theorem flatten_kept (declared : Option Nat) (chunks : List Bytes) :
    (kept declared chunks).flatten = chunks.flatten := by
  rw [kept]
  split
  · rfl
  · exact List.flatten_filter_ne_nil

/-- A response that carries its chunks passes the checks, when it announces no more than a
packet. -/
theorem Response.Carries.check {response : Response} {declared : Option Nat} {chunks : List Bytes}
    (h : response.Carries declared chunks) (hdeclared : ∀ length ∈ declared, length ≤ maxPacket) :
    response.check = .ok declared := by
  have hany : ¬declared.any (· > maxPacket) := by
    cases declared with
    | none => exact Bool.false_ne_true
    | some length => simpa using hdeclared length rfl
  rw [Response.check, h.status, h.html, h.declared, h.encoding, if_neg (by decide),
    if_neg (by decide), if_neg Bool.false_ne_true]
  exact if_neg hany

private theorem Response.Carries.check_error {response : Response} {declared : Option Nat}
    {chunks : List Bytes} (h : response.Carries declared chunks)
    (hdeclared : ¬∀ length ∈ declared, length ≤ maxPacket) : ∃ e, response.check = .error e := by
  have hany : declared.any (· > maxPacket) := by
    cases declared with
    | none => exact absurd nofun hdeclared
    | some length => simpa using hdeclared
  refine ⟨.route (invalid "H2 response Content-Length exceeds MTProto packet bound"), ?_⟩
  rw [Response.check, h.status, h.html, h.declared, if_neg (by decide), if_neg (by decide),
    if_neg Bool.false_ne_true]
  exact if_pos hany

/-- What `finish_body` accepts, it keeps. -/
theorem finishBody_eq_some {parts body : List Bytes} {received : Nat} :
    finishBody parts received = .ok (some body) ↔ received % 4 = 0 ∧ received ≠ 0 ∧
      ¬(received = 4 ∧ i32FromLe parts.flatten < 0) ∧ body = parts := by
  rw [finishBody_eq]
  split
  · next haligned => exact iff_of_false nofun fun h => haligned h.1
  · next haligned =>
    split
    · next hcode => exact iff_of_false nofun fun h => h.2.2.1 hcode
    · next hcode =>
      split
      · next hzero => exact iff_of_false nofun fun h => h.2.1 hzero
      · next hzero =>
        rw [Except.ok.injEq, Option.some.injEq, eq_comm]
        exact ⟨fun h => ⟨not_not.mp haligned, hzero, hcode, h⟩, fun h => h.2.2.2⟩

section

variable {response : Response} {declared : Option Nat} {chunks : List Bytes}
  {memory : Nat → Option IoError}

/-- A body with a declared length is a reply just where all of it has arrived. -/
theorem bodyResult_eq_some {parts body : List Bytes} {received : Nat} :
    bodyResult declared parts received = .ok (some body) ↔
      (∀ length ∈ declared, length = received) ∧ received % 4 = 0 ∧ received ≠ 0 ∧
        ¬(received = 4 ∧ i32FromLe parts.flatten < 0) ∧
        body = if declared.isSome then [parts.flatten] else parts := by
  cases declared with
  | none =>
    rw [bodyResult, finishBody_eq_some]
    simp
  | some length =>
    rw [bodyResult]
    by_cases hmiss : length ≠ received
    · rw [if_pos hmiss]
      exact iff_of_false nofun fun h => hmiss (h.1 length rfl)
    · rw [if_neg hmiss, finishBody_eq_some, List.flatten_singleton]
      simp [not_not.mp hmiss]

/-- A response that carries a body goes through the loop, where it does not declare too much. -/
theorem Response.Carries.post_eq (h : response.Carries declared chunks)
    (hmemory : ∀ length ∈ declared, memory length = none)
    (hdeclared : ∀ length ∈ declared, length ≤ maxPacket) :
    post response memory = collect declared memory (chunks.map .ok) [] 0 >>= fun out =>
      bodyResult declared out.1 out.2 := by
  have hbind : declared.bind memory = none := Option.bind_eq_none_iff.mpr hmemory
  rw [post_eq_check, h.check hdeclared, h.data]
  simp only [bind, Except.bind, hbind]

/-- There is memory for a body: at once for a declared one, else at every length on the way. -/
structure Grants (memory : Nat → Option IoError) (declared : Option Nat) (total : Nat) : Prop where
  whole : ∀ length ∈ declared, length ≤ maxPacket → memory length = none
  pieces : declared = none → ∀ bytes ≤ maxPacket, bytes ≤ total → memory bytes = none

/-- The loop over a whole body. -/
theorem collect_body (hmemory : declared = none → ∀ bytes ≤ maxPacket,
      bytes ≤ chunks.flatten.length → memory bytes = none) (out : List Bytes × Nat) :
    collect declared memory (chunks.map .ok) [] 0 = .ok out ↔
      chunks.flatten.length ≤ maxPacket ∧ (∀ length ∈ declared, chunks.flatten.length ≤ length) ∧
        (declared = none → (kept declared chunks).length ≤ maxResponseChunks) ∧
        out = (kept declared chunks, chunks.flatten.length) := by
  have hloop : collect declared memory (chunks.map .ok) [] 0 = .ok out ↔ _ :=
    collect_chunks out (fun bytes hle hbound hnone => hmemory hnone bytes hbound
      (Nat.zero_add chunks.flatten.length ▸ hle)) (Nat.zero_le maxPacket)
      (fun length _ => Nat.zero_le length) fun _ => Nat.zero_le maxResponseChunks
  rwa [Nat.zero_add, List.nil_append] at hloop

/-- A body that is whole and within the bounds is looked at. -/
theorem Response.Carries.post_complete (h : response.Carries declared chunks)
    (hmemory : Grants memory declared chunks.flatten.length)
    (hlength : ∀ length ∈ declared, length = chunks.flatten.length)
    (hbound : chunks.flatten.length ≤ maxPacket)
    (hfew : declared = none → (chunks.filter (· ≠ [])).length ≤ maxResponseChunks) :
    post response memory = finishBody (bodyParts declared chunks) chunks.flatten.length := by
  have hbody := (collect_body hmemory.pieces (kept declared chunks, chunks.flatten.length)).mpr
    ⟨hbound, fun length hmem => (hlength length hmem).ge,
      fun hnone => by simpa [kept, hnone] using hfew hnone, rfl⟩
  have hfits (length : Nat) (hmem : length ∈ declared) : length ≤ maxPacket :=
    (hlength length hmem).le.trans hbound
  rw [h.post_eq (fun length hmem => hmemory.whole length hmem (hfits length hmem)) hfits, hbody]
  cases declared with
  | none => rfl
  | some length =>
    have hwhole : ¬length ≠ chunks.flatten.length := not_not.mpr (hlength length rfl)
    refine (if_neg hwhole).trans ?_
    rw [flatten_kept]
    rfl

/-- With memory for it, a body becomes a reply just where it is acceptable. -/
theorem Response.Carries.post_eq_some (h : response.Carries declared chunks)
    (hmemory : Grants memory declared chunks.flatten.length) (body : List Bytes) :
    post response memory = .ok (some body) ↔
      Acceptable declared chunks ∧ body = bodyParts declared chunks := by
  constructor
  · intro hpost
    have hdeclared : ∀ length ∈ declared, length ≤ maxPacket := by
      by_contra hlong
      obtain ⟨e, hcheck⟩ := h.check_error hlong
      rw [post_eq_check, hcheck] at hpost
      cases hpost
    rw [h.post_eq (fun length hmem => hmemory.whole length hmem (hdeclared length hmem)) hdeclared,
      bind_eq_ok] at hpost
    obtain ⟨out, hcollect, hresult⟩ := hpost
    obtain ⟨hbound, hmore, hfew, rfl⟩ := (collect_body hmemory.pieces out).mp hcollect
    obtain ⟨hall, haligned, hpos, hcode, hparts⟩ := bodyResult_eq_some.mp hresult
    rw [flatten_kept] at hcode hparts
    refine ⟨⟨Nat.pos_of_ne_zero hpos, hbound, haligned, hall, fun hnone => ?_, hcode⟩, ?_⟩
    · simpa [kept, hnone] using hfew hnone
    · rw [hparts]
      cases declared <;> rfl
  · rintro ⟨hok, rfl⟩
    rw [h.post_complete hmemory hok.length hok.bound hok.few, finishBody_eq_some]
    refine ⟨hok.aligned, hok.pos.ne', ?_, rfl⟩
    rw [flatten_bodyParts]
    exact hok.code

end

/-- A body has no more chunks with bytes in them than bytes. -/
theorem length_filter_le (chunks : List Bytes) :
    (chunks.filter (· ≠ [])).length ≤ chunks.flatten.length := by
  induction chunks with
  | nil => exact Nat.le_refl _
  | cons chunk chunks ih =>
    rw [List.flatten_cons, List.length_append]
    by_cases hempty : chunk = []
    · simpa [hempty] using ih
    · have hpos := List.length_pos_iff.mpr hempty
      rw [List.filter_cons_of_pos (by simpa using hempty), List.length_cons]
      omega

/-- What `post` makes of a response that carries a body, and what it leaves charged. -/
structure Reassembles (s : Process) (l : Nat) (declared : Option Nat) (chunks : List Bytes)
    (result : Except PostFailure (Option BufferedReply) × Process) : Prop where
  /-- There is a reply just for an acceptable body. -/
  reply_iff : (∃ reply, result.1 = .ok (some reply)) ↔ Acceptable declared chunks
  /-- The reply has all bytes and its length, and holds one slot of the process and its bytes of
  the process and of the lane. -/
  reply : ∀ reply, result.1 = .ok (some reply) →
    reply.parts.flatten = chunks.flatten ∧ reply.length = chunks.flatten.length ∧
      reply.laneCharge = replyCharge l chunks.flatten.length ∧
      result.2 = s.charged l chunks.flatten.length
  nothing : chunks.flatten.length = 0 → (∀ length ∈ declared, length = 0) →
    result = (.ok none, s)
  transport : chunks.flatten.length = 4 → i32FromLe chunks.flatten < 0 →
    (∀ length ∈ declared, length = 4) →
    result = (.error (.error (.transport (i32FromLe chunks.flatten))), s)

/-- Capacity for the declared length, or for the body, grants the memory for it. -/
theorem Response.Carries.grants {response : Response} {declared : Option Nat} {chunks : List Bytes}
    (h : response.Carries declared chunks) {allocate : Nat → Option IoError}
    (hroom : s.HasRoom l (min (declared.getD chunks.flatten.length) maxPacket))
    (hallocate : ∀ length ∈ declared, allocate length = none) :
    Grants (s.refusals l response allocate) declared chunks.flatten.length := by
  have hsome := response.isSome_of_declared h.declared
  refine ⟨fun length hmem hbound => ?_, fun hnone bytes hbound hle => ?_⟩
  · rw [Option.mem_def.mp hmem, Option.getD_some] at hroom
    rw [Process.refusals, Process.memory_eq_none.mpr (hroom.mono (Nat.le_min.mpr ⟨le_rfl, hbound⟩)),
      hallocate length hmem, ite_self, Option.or_none]
  · rw [hnone, Option.getD_none] at hroom
    rw [hnone, Option.isSome_none] at hsome
    rw [Process.refusals, Process.memory_eq_none.mpr (hroom.mono (Nat.le_min.mpr ⟨hle, hbound⟩)),
      hsome]
    rfl

/-- A result that settles as the specification does is the reassembled body. -/
theorem reassembles_of_settles {response : Response} {declared : Option Nat}
    {chunks : List Bytes} {memory : Nat → Option IoError}
    {result : Except PostFailure (Option BufferedReply) × Process}
    (h : response.Carries declared chunks)
    (hmemory : Grants memory declared chunks.flatten.length)
    (hsettles : Settles s l (post response memory) result) :
    Reassembles s l declared chunks result := by
  have hsome := h.post_eq_some hmemory
  have hwhole (n : Nat) (htotal : chunks.flatten.length = n) (hn : n ≤ 4)
      (hlength : ∀ length ∈ declared, length = n) :
      post response memory = finishBody (bodyParts declared chunks) n := by
    rw [← htotal] at hlength hn ⊢
    exact h.post_complete hmemory hlength (hn.trans (by decide)) fun _ =>
      (length_filter_le chunks).trans (hn.trans (by decide))
  refine ⟨⟨?_, fun hok => ?_⟩, fun reply hreply => ?_, fun htotal hlength => ?_,
    fun htotal hcode hlength => ?_⟩
  · rintro ⟨reply, hreply⟩
    generalize hpost : post response memory = outcome at hsettles
    cases hsettles with
    | error e => cases hreply
    | nothing => cases hreply
    | reply body => exact ((hsome body).mp hpost).1
  · rw [(hsome _).mpr ⟨hok, rfl⟩] at hsettles
    cases hsettles with
    | reply body => exact ⟨_, rfl⟩
  · generalize hpost : post response memory = outcome at hsettles
    cases hsettles with
    | error e => cases hreply
    | nothing => cases hreply
    | reply body =>
      obtain rfl := Option.some.inj (Except.ok.inj hreply)
      obtain ⟨-, rfl⟩ := (hsome body).mp hpost
      rw [flatten_bodyParts]
      exact ⟨rfl, rfl, rfl, rfl⟩
  · rw [hwhole 0 htotal (by decide) hlength, finishBody_eq] at hsettles
    cases hsettles
    rfl
  · have hbody : i32FromLe (bodyParts declared chunks).flatten < 0 := by rwa [flatten_bodyParts]
    rw [hwhole 4 htotal (by decide) hlength, finishBody_eq, if_neg (by decide),
      if_pos ⟨rfl, hbody⟩, flatten_bodyParts] at hsettles
    cases hsettles
    rfl

/-- In every outcome but a reply all counters are what they were, and nothing panics; a body
that is carried whole is reassembled, where there is capacity for it. -/
theorem responseReassembled (s : Process) (l : Nat) (response : Response)
    (allocate : Nat → Option IoError) :
    (∀ result s', s.post l response allocate = (result, s') →
      result ≠ .error .panicked ∧ ((∀ reply, result ≠ .ok (some reply)) → s' = s)) ∧
    ∀ declared chunks, response.Carries declared chunks →
      s.HasRoom l (min (declared.getD chunks.flatten.length) maxPacket) →
      (∀ length ∈ declared, allocate length = none) →
      Reassembles s l declared chunks (s.post l response allocate) := by
  have hsettles := s.post_settles l response allocate
  constructor
  · intro result s' hpost
    rw [hpost] at hsettles
    generalize H2.post response _ = outcome at hsettles
    cases hsettles with
    | error e => exact ⟨nofun, fun _ => rfl⟩
    | nothing => exact ⟨nofun, fun _ => rfl⟩
    | reply body => exact ⟨nofun, fun h => absurd rfl (h _)⟩
  · intro declared chunks hcarries hroom hallocate
    exact reassembles_of_settles hcarries (hcarries.grants hroom hallocate) hsettles

/-- A response in three DATA chunks, one of them empty. -/
def chunkedResponse : Response where
  status := 200
  data := [.ok [97, 97, 97, 97], .ok [], .ok [98, 98, 98, 98]]

/-- The reply in two parts is charged on the first lane. -/
theorem responseReassembled_chunked :
    ∃ reply, (Process.initial.post 0 chunkedResponse fun _ => none).1 = .ok (some reply) ∧
      reply.length = 8 ∧
      (Process.initial.post 0 chunkedResponse fun _ => none).2 = Process.initial.charged 0 8 := by
  have hcarries : chunkedResponse.Carries none [[97, 97, 97, 97], [], [98, 98, 98, 98]] :=
    ⟨rfl, rfl, rfl, rfl, rfl⟩
  have hreassembles :=
    (responseReassembled Process.initial 0 chunkedResponse fun _ => none).2 none _
    hcarries ⟨by decide, by decide, by decide⟩ nofun
  obtain ⟨reply, hreply⟩ := hreassembles.reply_iff.mpr
    ⟨by decide, by decide, by decide, nofun, fun _ => by decide, by decide⟩
  obtain ⟨-, hlength, -, hcharged⟩ := hreassembles.reply reply hreply
  exact ⟨reply, hreply, hlength, hcharged⟩

end TgWsProxy.H2
