import TgWsProxy.FakeTlsStream

/-!
# What a Fake TLS stream says

`Records` is the meaning of a whole stream by its grammar, with the error that ends
a malformed one. `Expects` says what a reader in the middle of a stream still owes;
one round of `poll_read` pays a part of it, and from that the calls on a fresh reader
return just what the stream says.
-/

namespace TgWsProxy

open TgWsProxy.Core

/-! ## The grammar of a stream -/

/-- The stream does not go on with an acceptable record header, or with the byte of a
ChangeCipherSpec. -/
inductive MalformedRecord : Bytes → IoError → Prop
  /-- The stream ends inside a header. -/
  | headerCut {wire : Bytes} (hne : wire ≠ []) (h : wire.length < 5) :
    MalformedRecord wire ⟨.unexpectedEof, "truncated TLS record header"⟩
  | version {kind v w a b : UInt8} {rest : Bytes} (h : [v, w] ≠ [3, 3]) :
    MalformedRecord (kind :: v :: w :: a :: b :: rest) (invalid "invalid TLS record version")
  | kind {kind a b : UInt8} {rest : Bytes} (h : kind ∉ [0x14, 0x15, 0x17]) :
    MalformedRecord (kind :: 3 :: 3 :: a :: b :: rest) (invalid "unexpected TLS record")
  /-- An application record longer than TLS 1.3 allows. -/
  | oversize {a b : UInt8} {rest : Bytes} (h : 16640 < ofBe [a, b]) :
    MalformedRecord (0x17 :: 3 :: 3 :: a :: b :: rest) (invalid "unexpected TLS record")
  | ccsLength {a b : UInt8} {rest : Bytes} (h : ofBe [a, b] ≠ 1) :
    MalformedRecord (0x14 :: 3 :: 3 :: a :: b :: rest) (invalid "unexpected TLS record")
  | ccsCut : MalformedRecord [0x14, 3, 3, 0, 1]
      ⟨.unexpectedEof, "truncated TLS ChangeCipherSpec"⟩
  | ccsValue {value : UInt8} {rest : Bytes} (h : value ≠ 1) :
    MalformedRecord (0x14 :: 3 :: 3 :: 0 :: 1 :: value :: rest)
      (invalid "invalid TLS ChangeCipherSpec")

/-- From a record boundary, `wire` carries `data` up to its end: an end of file, or an error. -/
inductive Records : Bytes → Bytes → Except IoError Unit → Prop
  | ended : Records [] [] (.ok ())
  | alert (a b : UInt8) (rest : Bytes) : Records (0x15 :: 3 :: 3 :: a :: b :: rest) [] (.ok ())
  | application {a b : UInt8} {body rest data : Bytes} {ending : Except IoError Unit}
    (hlength : body.length = ofBe [a, b]) (hle : body.length ≤ 16640)
    (next : Records rest data ending) :
    Records (0x17 :: 3 :: 3 :: a :: b :: (body ++ rest)) (body ++ data) ending
  | changeCipherSpec {rest data : Bytes} {ending : Except IoError Unit}
    (next : Records rest data ending) :
    Records (0x14 :: 3 :: 3 :: 0 :: 1 :: 1 :: rest) data ending
  | malformed {wire : Bytes} {e : IoError} (h : MalformedRecord wire e) :
    Records wire [] (.error e)
  /-- The stream ends inside a body, whose front is still returned. -/
  | cut {a b : UInt8} {front : Bytes} (hle : ofBe [a, b] ≤ 16640)
    (hcut : front.length < ofBe [a, b]) :
    Records (0x17 :: 3 :: 3 :: a :: b :: front) front
      (.error ⟨.unexpectedEof, "truncated TLS application record"⟩)

/-- Two bytes that announce one byte. -/
theorem ofBe_eq_one {a b : UInt8} (h : ofBe [a, b] = 1) : a = 0 ∧ b = 1 := by
  have hb := b.toNat_lt
  simp only [ofBe, List.foldl_cons, List.foldl_nil] at h
  constructor
  · apply UInt8.toNat_inj.mp
    change a.toNat = 0
    omega
  · apply UInt8.toNat_inj.mp
    change b.toNat = 1
    omega

/-- The five header bytes at the front of a stream. -/
theorem exists_header {wire : Bytes} (h : 5 ≤ wire.length) :
    ∃ kind v w a b rest, wire = kind :: v :: w :: a :: b :: rest := by
  match wire, h with
  | kind :: v :: w :: a :: b :: rest, _ => exact ⟨kind, v, w, a, b, rest, rfl⟩

/-- Only the empty stream and one cut inside its first header are shorter than a header. -/
theorem Records.of_short {wire data : Bytes} {ending : Except IoError Unit}
    (h : Records wire data ending) (hshort : wire.length < 5) :
    data = [] ∧ ending = if wire = [] then .ok ()
      else .error ⟨.unexpectedEof, "truncated TLS record header"⟩ := by
  cases h with
  | ended => exact ⟨rfl, rfl⟩
  | malformed h =>
    cases h with
    | headerCut hne => exact ⟨rfl, (if_neg hne).symm⟩
    | _ =>
      simp only [List.length_cons] at hshort
      omega
  | _ =>
    simp only [List.length_cons] at hshort
    omega

/-- Behind the header of a ChangeCipherSpec stands its byte. -/
theorem Records.of_ccs {rest data : Bytes} {ending : Except IoError Unit}
    (h : Records (0x14 :: 3 :: 3 :: 0 :: 1 :: rest) data ending) :
    (rest = [] ∧ data = [] ∧
        ending = .error ⟨.unexpectedEof, "truncated TLS ChangeCipherSpec"⟩) ∨
      (∃ value more, rest = value :: more ∧ value ≠ 1 ∧ data = [] ∧
        ending = .error (invalid "invalid TLS ChangeCipherSpec")) ∨
      ∃ more, rest = 1 :: more ∧ Records more data ending := by
  generalize hwire : 0x14 :: 3 :: 3 :: 0 :: 1 :: rest = wire at h
  cases h with
  | changeCipherSpec next => exact .inr (.inr ⟨_, by simpa using hwire, next⟩)
  | malformed h =>
    cases h with
    | ccsCut => exact .inl ⟨by simpa using hwire, rfl, rfl⟩
    | ccsValue hne => exact .inr (.inl ⟨_, _, by simpa using hwire, hne, rfl, rfl⟩)
    | headerCut hne hshort =>
      simp only [← hwire, List.length_cons] at hshort
      omega
    | version hversion =>
      obtain ⟨-, rfl, rfl, -⟩ := by simpa using hwire
      exact absurd rfl hversion
    | kind hkind =>
      obtain ⟨rfl, -⟩ := by simpa using hwire
      exact absurd (by decide) hkind
    | ccsLength hlength =>
      obtain ⟨rfl, rfl, -⟩ := by simpa using hwire
      exact absurd (by decide) hlength
    | oversize => simp at hwire
  | _ => simp at hwire

/-- Every stream has a reading. -/
theorem records_total (wire : Bytes) : ∃ data ending, Records wire data ending := by
  induction hn : wire.length using Nat.strongRecOn generalizing wire with
  | ind n ih =>
    subst hn
    by_cases hshort : wire.length < 5
    · by_cases hnil : wire = []
      · subst hnil
        exact ⟨[], _, .ended⟩
      · exact ⟨[], _, .malformed (.headerCut hnil hshort)⟩
    · obtain ⟨kind, v, w, a, b, rest, rfl⟩ := exists_header (Nat.not_lt.mp hshort)
      have hrest (back : Bytes) (hle : back.length ≤ rest.length) :
          ∃ data ending, Records back data ending := by
        apply ih back.length _ back rfl
        simp only [List.length_cons]
        omega
      by_cases hversion : [v, w] = [3, 3]
      · obtain ⟨rfl, rfl⟩ : v = 3 ∧ w = 3 := by simpa using hversion
        by_cases hkind : kind ∈ [0x14, 0x15, 0x17]
        · simp only [List.mem_cons, List.not_mem_nil, or_false] at hkind
          obtain rfl | rfl | rfl := hkind
          · by_cases hone : ofBe [a, b] = 1
            · obtain ⟨rfl, rfl⟩ := ofBe_eq_one hone
              cases rest with
              | nil => exact ⟨[], _, .malformed .ccsCut⟩
              | cons value rest =>
                by_cases hvalue : value = 1
                · subst hvalue
                  obtain ⟨data, ending, h⟩ := hrest rest (by simp)
                  exact ⟨data, ending, .changeCipherSpec h⟩
                · exact ⟨[], _, .malformed (.ccsValue hvalue)⟩
            · exact ⟨[], _, .malformed (.ccsLength hone)⟩
          · exact ⟨[], _, .alert a b rest⟩
          · by_cases hsize : ofBe [a, b] ≤ 16640
            · by_cases hcut : rest.length < ofBe [a, b]
              · exact ⟨rest, _, .cut hsize hcut⟩
              · obtain ⟨data, ending, h⟩ := hrest (rest.drop (ofBe [a, b])) (by simp)
                have hlength : (rest.take (ofBe [a, b])).length = ofBe [a, b] := by
                  rw [List.length_take]
                  omega
                have happ := Records.application hlength (hlength.trans_le hsize) h
                rw [List.take_append_drop] at happ
                exact ⟨_, ending, happ⟩
            · exact ⟨[], _, .malformed (.oversize (Nat.not_le.mp hsize))⟩
        · exact ⟨[], _, .malformed (.kind hkind)⟩
      · exact ⟨[], _, .malformed (.version hversion)⟩

/-- The records of some chunks carry those chunks. -/
theorem records_encode {chunks : List Bytes} (h : ∀ chunk ∈ chunks, chunk.length ≤ tlsAppDataMax) :
    Records (encodeRecords chunks) chunks.flatten (.ok ()) := by
  induction chunks with
  | nil => exact .ended
  | cons chunk chunks ih =>
    have hmax : chunk.length ≤ 16384 := h chunk (List.mem_cons_self ..)
    have hnext := ih fun chunk' hchunk' => h chunk' (List.mem_cons_of_mem _ hchunk')
    have hsplit : toBe 2 chunk.length =
        [UInt8.ofNat (chunk.length / 256), UInt8.ofNat chunk.length] := by
      simp [toBe]
    have hlength : chunk.length = ofBe (toBe 2 chunk.length) := by
      rw [ofBe_toBe (by omega)]
    rw [hsplit] at hlength
    have happ := Records.application hlength (by omega) hnext
    simpa [tlsRecord, hsplit] using happ

namespace PollStream

/-- How much the inner stream can still answer with. -/
def size (s : PollStream) : Nat := s.incoming.length + s.grants.length

/-- The inner stream yields, has ended, or returns some bytes that fit. -/
theorem pollRead_cases (s : PollStream) {room : Nat} (hroom : 0 < room) :
    (∃ inner, s.pollRead room = (.pending, inner) ∧ inner.incoming = s.incoming ∧
        inner.size < s.size) ∨
      (∃ inner, s.pollRead room = (.ready [], inner) ∧ s.incoming = []) ∨
      ∃ b bs inner, s.pollRead room = (.ready (b :: bs), inner) ∧
        s.incoming = b :: bs ++ inner.incoming ∧ (b :: bs).length ≤ room ∧
        inner.size < s.size := by
  -- a read of at least one byte
  have hready (k : Nat) (grants : List (Option Nat)) (hk : 0 < k) (hle : k ≤ room)
      (hgrants : grants.length ≤ s.grants.length)
      (hread : s.pollRead room =
        (.ready (s.incoming.take k), { s with incoming := s.incoming.drop k, grants })) :
      (∃ inner, s.pollRead room = (.ready [], inner) ∧ s.incoming = []) ∨
        ∃ b bs inner, s.pollRead room = (.ready (b :: bs), inner) ∧
          s.incoming = b :: bs ++ inner.incoming ∧ (b :: bs).length ≤ room ∧
          inner.size < s.size := by
    cases hincoming : s.incoming with
    | nil => exact .inl ⟨_, by simpa [hincoming] using hread, rfl⟩
    | cons b bs =>
      obtain ⟨k, rfl⟩ := Nat.exists_eq_succ_of_ne_zero (Nat.pos_iff_ne_zero.mp hk)
      rw [hincoming, List.take_succ_cons, List.drop_succ_cons] at hread
      refine .inr ⟨b, bs.take k, _, hread, by simp, ?_, ?_⟩
      · rw [List.length_cons, List.length_take]
        omega
      · simp only [size, hincoming, List.length_drop, List.length_cons]
        omega
  cases hgrants : s.grants with
  | nil => exact .inr (hready room s.grants hroom (Nat.le_refl _) (Nat.le_refl _)
      (by simp [pollRead, hgrants]))
  | cons grant grants =>
    cases grant with
    | none =>
      refine .inl ⟨{ s with grants }, by simp [pollRead, hgrants], rfl, ?_⟩
      simp [size, hgrants]
    | some n => exact .inr (hready (min room (max 1 n)) grants (by omega) (by omega)
        (by simp [hgrants]) (by simp [pollRead, hgrants]))

end PollStream

namespace FakeTlsStream

/-! ## What a reader still owes -/

/-- In this state the reader has `data` and then `ending` to return. -/
inductive Expects (s : FakeTlsStream) : Bytes → Except IoError Unit → Prop
  /-- Before a record, or inside its header. -/
  | boundary {data : Bytes} {ending : Except IoError Unit} (heof : s.readEof = false)
    (hccs : s.readCcs = false) (hremaining : s.readRemaining = 0)
    (hheader : s.readHeader.length < 5)
    (h : Records (s.readHeader ++ s.inner.incoming) data ending) : Expects s data ending
  | body {body rest data : Bytes} {ending : Except IoError Unit} (heof : s.readEof = false)
    (hccs : s.readCcs = false) (hheader : s.readHeader = [])
    (hremaining : body.length = s.readRemaining) (hpos : 0 < body.length)
    (hincoming : s.inner.incoming = body ++ rest) (next : Records rest data ending) :
    Expects s (body ++ data) ending
  /-- Inside a body that does not arrive in full. -/
  | cut (heof : s.readEof = false) (hccs : s.readCcs = false)
    (hremaining : s.inner.incoming.length < s.readRemaining) :
    Expects s s.inner.incoming (.error ⟨.unexpectedEof, "truncated TLS application record"⟩)
  /-- Behind the header of a ChangeCipherSpec. -/
  | ccs {data : Bytes} {ending : Except IoError Unit} (heof : s.readEof = false)
    (hccs : s.readCcs = true) (hheader : s.readHeader = []) (hremaining : s.readRemaining = 1)
    (h : Records (0x14 :: 3 :: 3 :: 0 :: 1 :: s.inner.incoming) data ending) :
    Expects s data ending

/-- The outcome of a call by a reader that owes `data` and `ending`; a call that does not end
the stream leaves the inner one with less than `bound` to answer. -/
inductive Pays (bound : Nat) : Bytes → Except IoError Unit →
    Poll (Except IoError Bytes) × FakeTlsStream → Prop
  | pending {data : Bytes} {ending : Except IoError Unit} {t : FakeTlsStream}
    (h : t.Expects data ending) (hsize : t.inner.size < bound) :
    Pays bound data ending (.pending, t)
  | data {b : UInt8} {bs data : Bytes} {ending : Except IoError Unit} {t : FakeTlsStream}
    (h : t.Expects data ending) (hsize : t.inner.size < bound) :
    Pays bound (b :: bs ++ data) ending (.ready (.ok (b :: bs)), t)
  | eof {t : FakeTlsStream} (h : t.readEof = true) :
    Pays bound [] (.ok ()) (.ready (.ok []), t)
  | failed {e : IoError} {t : FakeTlsStream} :
    Pays bound [] (.error e) (.ready (.error e), t)

variable {s : FakeTlsStream} {data : Bytes} {ending : Except IoError Unit}

/-- What is paid within a bound is paid within a larger one. -/
theorem Pays.mono {bound bound' : Nat} {result : Poll (Except IoError Bytes) × FakeTlsStream}
    (h : Pays bound data ending result) (hle : bound ≤ bound') :
    Pays bound' data ending result := by
  cases h with
  | pending h hsize => exact .pending h (by omega)
  | data h hsize => exact .data h (by omega)
  | eof h => exact .eof h
  | failed => exact .failed

/-- Inside a body that arrives in full, also where nothing is left of it. -/
theorem Expects.rest {body rest : Bytes} (heof : s.readEof = false) (hccs : s.readCcs = false)
    (hheader : s.readHeader = []) (hremaining : body.length = s.readRemaining)
    (hincoming : s.inner.incoming = body ++ rest) (next : Records rest data ending) :
    s.Expects (body ++ data) ending := by
  by_cases hbody : body = []
  · subst hbody
    exact .boundary heof hccs hremaining.symm (by simp [hheader]) (by simpa [hheader, hincoming])
  · exact .body heof hccs hheader hremaining (List.length_pos_iff.mpr hbody) hincoming next

/-! ## One round -/

/-- One round either returns or goes on to the next with the same debt. -/
def Round (s : FakeTlsStream) (room : Nat) (data : Bytes) (ending : Except IoError Unit) : Prop :=
  (∀ rounds, Pays s.inner.size data ending (pollReadLoop (rounds + 1) room s)) ∨
    ∃ t, t.Expects data ending ∧ t.inner.size < s.inner.size ∧
      ∀ rounds, pollReadLoop (rounds + 1) room s = pollReadLoop rounds room t

/-- A round that returns. -/
theorem Round.returns {room : Nat} {result : Poll (Except IoError Bytes) × FakeTlsStream}
    (h : Pays s.inner.size data ending result)
    (hloop : ∀ rounds, pollReadLoop (rounds + 1) room s = result) : Round s room data ending :=
  .inl fun rounds => (hloop rounds).symm ▸ h

/-- A round in a ChangeCipherSpec. -/
theorem pollReadLoop_ccs (hremaining : s.readRemaining ≠ 0) (hccs : s.readCcs = true)
    (rounds room : Nat) :
    pollReadLoop (rounds + 1) room s =
      match s.inner.pollRead 1 with
      | (.pending, inner) => (.pending, { s with inner })
      | (.ready [], inner) =>
        (.ready (.error ⟨.unexpectedEof, "truncated TLS ChangeCipherSpec"⟩), { s with inner })
      | (.ready (ccs :: _), inner) =>
        if ccs ≠ 1 then
          (.ready (.error (invalid "invalid TLS ChangeCipherSpec")), { s with inner })
        else pollReadLoop rounds room { s with inner, readRemaining := 0, readCcs := false } := by
  rw [pollReadLoop.eq_def]
  exact (if_pos hremaining).trans (if_pos hccs)

/-- A round in an application record. -/
theorem pollReadLoop_body (hremaining : s.readRemaining ≠ 0) (hccs : s.readCcs = false)
    (rounds room : Nat) :
    pollReadLoop (rounds + 1) room s =
      match s.inner.pollRead (min room s.readRemaining) with
      | (.pending, inner) => (.pending, { s with inner })
      | (.ready [], inner) =>
        (.ready (.error ⟨.unexpectedEof, "truncated TLS application record"⟩), { s with inner })
      | (.ready (b :: bs), inner) =>
        (.ready (.ok (b :: bs)),
          { s with inner, readRemaining := s.readRemaining - (b :: bs).length }) := by
  rw [pollReadLoop.eq_def]
  exact (if_pos hremaining).trans (if_neg (Bool.eq_false_iff.mp hccs))

/-- A round in a header. -/
theorem pollReadLoop_header (hremaining : s.readRemaining = 0) (rounds room : Nat) :
    pollReadLoop (rounds + 1) room s =
      match s.inner.pollRead (5 - s.readHeader.length) with
      | (.pending, inner) => (.pending, { s with inner })
      | (.ready [], inner) =>
        if s.readHeader ≠ [] then
          (.ready (.error ⟨.unexpectedEof, "truncated TLS record header"⟩), { s with inner })
        else (.ready (.ok []), { s with inner, readEof := true })
      | (.ready (b :: bs), inner) =>
        if (s.readHeader ++ b :: bs).length ≠ 5 then
          pollReadLoop rounds room { s with inner, readHeader := s.readHeader ++ b :: bs }
        else
          match takeHeader { s with inner, readHeader := [] } (s.readHeader ++ b :: bs) with
          | .error e => (.ready (.error e), { s with inner, readHeader := [] })
          | .ok s => if s.readEof then (.ready (.ok []), s) else pollReadLoop rounds room s := by
  rw [pollReadLoop.eq_def]
  exact if_neg (not_not_intro hremaining)

/-- The byte of a ChangeCipherSpec. -/
theorem round_ccs (room : Nat) (heof : s.readEof = false) (hccs : s.readCcs = true)
    (hheader : s.readHeader = []) (hremaining : s.readRemaining = 1)
    (h : Records (0x14 :: 3 :: 3 :: 0 :: 1 :: s.inner.incoming) data ending) :
    Round s room data ending := by
  have hne : s.readRemaining ≠ 0 := by omega
  rcases s.inner.pollRead_cases Nat.one_pos with
    ⟨inner, hread, hincoming, hsize⟩ | ⟨inner, hread, hnil⟩ |
      ⟨value, bs, inner, hread, hincoming, hle, hsize⟩
  · have howes : Expects { s with inner } data ending := by
      refine .ccs heof hccs hheader hremaining ?_
      rwa [← hincoming] at h
    apply Round.returns (.pending howes hsize)
    intro rounds
    rw [pollReadLoop_ccs hne hccs, hread]
  · rw [hnil] at h
    obtain ⟨-, rfl, rfl⟩ | ⟨_, _, hcons, -⟩ | ⟨_, hcons, -⟩ := h.of_ccs
    · apply Round.returns .failed
      intro rounds
      rw [pollReadLoop_ccs hne hccs, hread]
    · cases hcons
    · cases hcons
  · obtain rfl : bs = [] := by
      rw [List.length_cons] at hle
      exact List.length_eq_zero_iff.mp (by omega)
    rw [hincoming] at h
    obtain ⟨hcons, -⟩ | ⟨_, _, hcons, hvalue, rfl, rfl⟩ | ⟨more, hcons, hmore⟩ := h.of_ccs
    · cases hcons
    · cases hcons
      apply Round.returns .failed
      intro rounds
      rw [pollReadLoop_ccs hne hccs, hread]
      dsimp only
      rw [if_pos hvalue]
    · cases hcons
      refine .inr ⟨{ s with inner, readRemaining := 0, readCcs := false }, ?_, hsize, ?_⟩
      · exact .boundary heof rfl rfl (by simp [hheader]) (by simpa [hheader])
      · intro rounds
        rw [pollReadLoop_ccs hne hccs, hread]
        dsimp only
        rw [if_neg (not_not_intro rfl)]

/-- The body of an application record that arrives in full. -/
theorem round_body {room : Nat} (hroom : 0 < room) {body rest : Bytes} (heof : s.readEof = false)
    (hccs : s.readCcs = false) (hheader : s.readHeader = [])
    (hremaining : body.length = s.readRemaining) (hpos : 0 < body.length)
    (hincoming : s.inner.incoming = body ++ rest) (next : Records rest data ending) :
    Round s room (body ++ data) ending := by
  have hne : s.readRemaining ≠ 0 := by omega
  rcases s.inner.pollRead_cases (show 0 < min room s.readRemaining by omega) with
    ⟨inner, hread, hsame, hsize⟩ | ⟨inner, hread, hnil⟩ | ⟨b, bs, inner, hread, hcons, hle, hsize⟩
  · have howes : Expects { s with inner } (body ++ data) ending :=
      .body heof hccs hheader hremaining hpos (hsame.trans hincoming) next
    apply Round.returns (.pending howes hsize)
    intro rounds
    rw [pollReadLoop_body hne hccs, hread]
  · rw [hincoming, List.append_eq_nil_iff] at hnil
    simp [hnil.1] at hpos
  · -- the bytes that have come are a front of the body
    have hfront : b :: bs <+: body := by
      apply List.prefix_of_prefix_length_le _ (List.prefix_append body rest) (by omega)
      rw [← hincoming, hcons]
      exact List.prefix_append _ _
    obtain ⟨back, rfl⟩ := hfront
    have hback : inner.incoming = back ++ rest := by
      rw [hincoming, List.append_assoc] at hcons
      exact (List.append_cancel_left hcons).symm
    have howes := Expects.rest (s := { s with
      inner, readRemaining := s.readRemaining - (b :: bs).length }) heof hccs hheader
      (by simp [← hremaining]) hback next
    rw [List.append_assoc]
    apply Round.returns (.data howes hsize)
    intro rounds
    rw [pollReadLoop_body hne hccs, hread]

/-- The body of an application record that the end of the stream cuts. -/
theorem round_cut {room : Nat} (hroom : 0 < room) (heof : s.readEof = false)
    (hccs : s.readCcs = false) (hremaining : s.inner.incoming.length < s.readRemaining) :
    Round s room s.inner.incoming
      (.error ⟨.unexpectedEof, "truncated TLS application record"⟩) := by
  have hne : s.readRemaining ≠ 0 := by omega
  rcases s.inner.pollRead_cases (show 0 < min room s.readRemaining by omega) with
    ⟨inner, hread, hsame, hsize⟩ | ⟨inner, hread, hnil⟩ | ⟨b, bs, inner, hread, hcons, hle, hsize⟩
  · have howes : Expects { s with inner } s.inner.incoming
        (.error ⟨.unexpectedEof, "truncated TLS application record"⟩) := by
      rw [← hsame] at hremaining ⊢
      exact .cut heof hccs hremaining
    apply Round.returns (.pending howes hsize)
    intro rounds
    rw [pollReadLoop_body hne hccs, hread]
  · rw [hnil]
    apply Round.returns .failed
    intro rounds
    rw [pollReadLoop_body hne hccs, hread]
  · have hlength : inner.incoming.length < s.readRemaining - (b :: bs).length := by
      rw [hcons, List.length_append] at hremaining
      omega
    have howes := Expects.cut (s := { s with
      inner, readRemaining := s.readRemaining - (b :: bs).length }) heof hccs hlength
    rw [hcons]
    apply Round.returns (.data howes hsize)
    intro rounds
    rw [pollReadLoop_body hne hccs, hread]

/-- A complete header is refused, ends the stream, or leaves the reader behind it. -/
theorem takeHeader_cases {kind v w a b : UInt8}
    (heof : s.readEof = false) (hccs : s.readCcs = false) (hheader : s.readHeader = [])
    (h : Records (kind :: v :: w :: a :: b :: s.inner.incoming) data ending) :
    (∃ e, takeHeader s [kind, v, w, a, b] = .error e ∧ data = [] ∧ ending = .error e) ∨
      (∃ t, takeHeader s [kind, v, w, a, b] = .ok t ∧ t.readEof = true ∧ data = [] ∧
        ending = .ok ()) ∨
      ∃ t, takeHeader s [kind, v, w, a, b] = .ok t ∧ t.readEof = false ∧ t.inner = s.inner ∧
        t.Expects data ending := by
  have hversion : slice [kind, v, w, a, b] 1 3 = [v, w] := rfl
  have hlength : slice [kind, v, w, a, b] 3 5 = [a, b] := rfl
  have hkind : [kind, v, w, a, b].getD 0 0 = kind := rfl
  simp only [takeHeader, hversion, hlength, hkind]
  by_cases hnext : [kind, v, w, a, b] = [0x14, 3, 3, 0, 1]
  · obtain ⟨rfl, rfl, rfl, rfl, rfl⟩ := by simpa using hnext
    refine .inr (.inr ⟨{ s with readCcs := true, readRemaining := 1 }, by simp [ofBe], heof, rfl,
      ?_⟩)
    exact Expects.ccs (s := { s with readCcs := true, readRemaining := 1 }) heof rfl hheader rfl h
  · generalize hwire : kind :: v :: w :: a :: b :: s.inner.incoming = wire at h
    cases h with
    | ended => cases hwire
    | alert =>
      obtain ⟨rfl, rfl, rfl, rfl, rfl, -⟩ := by simpa using hwire
      exact .inr (.inl ⟨{ s with readEof := true }, by simp, rfl, rfl, rfl⟩)
    | @application a b body rest data ending hbody hle next =>
      obtain ⟨rfl, rfl, rfl, rfl, rfl, hrest⟩ := by simpa using hwire
      rw [hbody] at hle
      refine .inr (.inr ⟨{ s with readRemaining := ofBe [a, b] }, by simp [tlsAppDataMax, hle],
        heof, rfl, ?_⟩)
      exact Expects.rest (s := { s with readRemaining := ofBe [a, b] }) heof hccs hheader hbody
        hrest next
    | cut hle hcut =>
      obtain ⟨rfl, rfl, rfl, rfl, rfl, rfl⟩ := by simpa using hwire
      refine .inr (.inr ⟨{ s with readRemaining := ofBe [a, b] }, by simp [tlsAppDataMax, hle],
        heof, rfl, ?_⟩)
      exact Expects.cut (s := { s with readRemaining := ofBe [a, b] }) heof hccs hcut
    | changeCipherSpec =>
      obtain ⟨rfl, rfl, rfl, rfl, rfl, -⟩ := by simpa using hwire
      exact absurd rfl hnext
    | malformed h =>
      cases h with
      | headerCut hne hshort =>
        simp only [← hwire, List.length_cons] at hshort
        omega
      | version h =>
        obtain ⟨rfl, rfl, rfl, rfl, rfl, -⟩ := by simpa using hwire
        exact .inl ⟨_, if_pos h, rfl, rfl⟩
      | kind h =>
        obtain ⟨rfl, rfl, rfl, rfl, rfl, -⟩ := by simpa using hwire
        obtain ⟨h14, h15, h17⟩ := by simpa using h
        exact .inl ⟨_, by simp [h14, h15, h17], rfl, rfl⟩
      | oversize h =>
        obtain ⟨rfl, rfl, rfl, rfl, rfl, -⟩ := by simpa using hwire
        exact .inl ⟨_, by simp [tlsAppDataMax, Nat.not_le.mpr h], rfl, rfl⟩
      | ccsLength h =>
        obtain ⟨rfl, rfl, rfl, rfl, rfl, -⟩ := by simpa using hwire
        exact .inl ⟨_, by simp [h], rfl, rfl⟩
      | ccsCut =>
        obtain ⟨rfl, rfl, rfl, rfl, rfl, -⟩ := by simpa using hwire
        exact absurd rfl hnext
      | ccsValue =>
        obtain ⟨rfl, rfl, rfl, rfl, rfl, -⟩ := by simpa using hwire
        exact absurd rfl hnext

/-- A header, or a part of it. -/
theorem round_header (room : Nat) (heof : s.readEof = false) (hccs : s.readCcs = false)
    (hremaining : s.readRemaining = 0) (hheader : s.readHeader.length < 5)
    (h : Records (s.readHeader ++ s.inner.incoming) data ending) :
    Round s room data ending := by
  rcases s.inner.pollRead_cases (show 0 < 5 - s.readHeader.length by omega) with
    ⟨inner, hread, hsame, hsize⟩ | ⟨inner, hread, hnil⟩ | ⟨b, bs, inner, hread, hcons, hle, hsize⟩
  · have howes : Expects { s with inner } data ending := by
      rw [← hsame] at h
      exact .boundary heof hccs hremaining hheader h
    apply Round.returns (.pending howes hsize)
    intro rounds
    rw [pollReadLoop_header hremaining, hread]
  · rw [hnil, List.append_nil] at h
    obtain ⟨rfl, rfl⟩ := h.of_short hheader
    by_cases hempty : s.readHeader = []
    · rw [if_pos hempty]
      have hpays : Pays s.inner.size [] (.ok ()) (.ready (.ok []),
          { s with inner, readEof := true }) := .eof rfl
      apply Round.returns hpays
      intro rounds
      rw [pollReadLoop_header hremaining, hread]
      exact if_neg (not_not_intro hempty)
    · rw [if_neg hempty]
      apply Round.returns .failed
      intro rounds
      rw [pollReadLoop_header hremaining, hread]
      exact if_pos hempty
  · rw [hcons, ← List.append_assoc] at h
    by_cases hfull : (s.readHeader ++ b :: bs).length = 5
    · obtain ⟨kind, v, w, x, y, more, hsplit⟩ := exists_header (Nat.le_of_eq hfull.symm)
      obtain rfl : more = [] := by
        rw [hsplit] at hfull
        simpa using hfull
      rw [hsplit] at h
      obtain ⟨e, htake, rfl, rfl⟩ | ⟨t, htake, hstop, rfl, rfl⟩ | ⟨t, htake, hgo, hinner, howes⟩ :=
        takeHeader_cases (s := { s with inner, readHeader := [] }) heof hccs rfl h
      · apply Round.returns .failed
        intro rounds
        rw [pollReadLoop_header hremaining, hread]
        dsimp only
        rw [if_neg (not_not_intro hfull), hsplit, htake]
      · apply Round.returns (.eof hstop)
        intro rounds
        rw [pollReadLoop_header hremaining, hread]
        dsimp only
        rw [if_neg (not_not_intro hfull), hsplit, htake]
        exact if_pos hstop
      · refine .inr ⟨t, howes, by rwa [hinner], ?_⟩
        intro rounds
        rw [pollReadLoop_header hremaining, hread]
        dsimp only
        rw [if_neg (not_not_intro hfull), hsplit, htake]
        exact if_neg (by simp [hgo])
    · have hlt : (s.readHeader ++ b :: bs).length < 5 := by
        rw [List.length_append] at hfull ⊢
        omega
      refine .inr ⟨{ s with inner, readHeader := s.readHeader ++ b :: bs }, ?_, hsize, ?_⟩
      · exact Expects.boundary (s := { s with inner, readHeader := s.readHeader ++ b :: bs }) heof
          hccs hremaining hlt h
      · intro rounds
        rw [pollReadLoop_header hremaining, hread]
        exact if_pos hfull

/-- Every round pays. -/
theorem Expects.round (h : s.Expects data ending) {room : Nat} (hroom : 0 < room) :
    Round s room data ending := by
  cases h with
  | boundary heof hccs hremaining hheader h =>
    exact round_header room heof hccs hremaining hheader h
  | body heof hccs hheader hremaining hpos hincoming next =>
    exact round_body hroom heof hccs hheader hremaining hpos hincoming next
  | cut heof hccs hremaining => exact round_cut hroom heof hccs hremaining
  | ccs heof hccs hheader hremaining h => exact round_ccs room heof hccs hheader hremaining h

/-- However many rounds there are. -/
theorem Expects.loop (rounds : Nat) (h : s.Expects data ending) {room : Nat} (hroom : 0 < room)
    {bound : Nat} (hsize : s.inner.size < bound) :
    Pays bound data ending (pollReadLoop rounds room s) := by
  induction rounds generalizing s with
  | zero => exact .pending h hsize
  | succ rounds ih =>
    obtain hreturns | ⟨t, howes, hless, hloop⟩ := h.round hroom
    · exact (hreturns rounds).mono (Nat.le_of_lt hsize)
    · rw [hloop]
      exact ih howes (Nat.lt_trans hless hsize)

private theorem Expects.not_eof (h : s.Expects data ending) : s.readEof = false := by
  cases h <;> assumption

/-- Every call pays, and leaves less to be read. -/
theorem Expects.pays (h : s.Expects data ending) {room : Nat} (hroom : 0 < room) :
    Pays s.inner.size data ending (s.pollRead room) := by
  have hgo : ¬(room = 0 ∨ s.readEof = true) := by
    rw [h.not_eof]
    simp [Nat.pos_iff_ne_zero.mp hroom]
  rw [pollRead, if_neg hgo]
  obtain hreturns | ⟨t, howes, hless, hloop⟩ := h.round hroom
  · exact hreturns 31
  · rw [hloop]
    exact howes.loop 31 hroom hless

/-! ## A session of calls -/

/-- What some calls have come to: the bytes they returned, how the last one ended the stream if
it did, and the stream they leave. -/
structure ReadSession where
  data : Bytes
  ending : Option (Except IoError Unit)
  stream : FakeTlsStream

/-- Call `poll_read` with one buffer after the other, again after `Pending`, until it reports an
end of file or an error. -/
def session (s : FakeTlsStream) : List Nat → ReadSession
  | [] => ⟨[], none, s⟩
  | room :: rooms =>
    match s.pollRead room with
    | (.pending, s) => s.session rooms
    | (.ready (.error e), s) => ⟨[], some (.error e), s⟩
    | (.ready (.ok []), s) => ⟨[], some (.ok ()), s⟩
    | (.ready (.ok (b :: bs)), s) =>
      { s.session rooms with data := b :: bs ++ (s.session rooms).data }

/-- A session of a reader that owes `data` and `ending`, over so many buffers. -/
structure Settles (data : Bytes) (ending : Except IoError Unit) (size buffers : Nat)
    (r : ReadSession) : Prop where
  returns : r.data <+: data
  ends : ∀ e, r.ending = some e → e = ending ∧ r.data = data
  eof : r.ending = some (.ok ()) → r.stream.readEof = true
  finishes : size < buffers → r.ending.isSome

/-- A session with room in every call settles what is owed. -/
theorem Expects.settles {rooms : List Nat} (h : s.Expects data ending)
    (hrooms : ∀ room ∈ rooms, 0 < room) :
    Settles data ending s.inner.size rooms.length (s.session rooms) := by
  induction rooms generalizing s data with
  | nil => exact ⟨List.nil_prefix, by simp [session], by simp [session], by simp⟩
  | cons room rooms ih =>
    have hroom := hrooms room (List.mem_cons_self ..)
    have hrest : ∀ room ∈ rooms, 0 < room := fun room' hmem =>
      hrooms room' (List.mem_cons_of_mem _ hmem)
    have hpays := h.pays hroom
    rw [session]
    generalize s.pollRead room = result at hpays
    cases hpays with
    | pending howes hsize =>
      obtain ⟨hreturns, hends, heof, hfinishes⟩ := ih howes hrest
      refine ⟨hreturns, hends, heof, fun hlt => hfinishes ?_⟩
      rw [List.length_cons] at hlt
      omega
    | @data b bs data ending t howes hsize =>
      obtain ⟨hreturns, hends, heof, hfinishes⟩ := ih howes hrest
      refine ⟨(List.prefix_append_right_inj _).mpr hreturns, fun e he => ?_, heof,
        fun hlt => hfinishes ?_⟩
      · obtain ⟨rfl, hdata⟩ := hends e he
        exact ⟨rfl, congrArg (b :: bs ++ ·) hdata⟩
      · rw [List.length_cons] at hlt
        omega
    | eof hstop => exact ⟨List.nil_prefix, by simp, fun _ => hstop, fun _ => rfl⟩
    | failed => exact ⟨List.nil_prefix, by simp, by simp, fun _ => rfl⟩

/-- A reader owes only one thing. -/
theorem Expects.unique {data' : Bytes} {ending' : Except IoError Unit}
    (h : s.Expects data ending) (h' : s.Expects data' ending') :
    data' = data ∧ ending' = ending := by
  -- calls with enough buffers of one byte show both
  have hrooms : ∀ room ∈ List.replicate (s.inner.size + 1) 1, 0 < room := by
    intro room hmem
    rw [List.eq_of_mem_replicate hmem]
    exact Nat.one_pos
  have hsettles := h.settles hrooms
  have hsettles' := h'.settles hrooms
  obtain ⟨e, he⟩ := Option.isSome_iff_exists.mp (hsettles.finishes (by simp))
  obtain ⟨rfl, hdata⟩ := hsettles.ends e he
  obtain ⟨hending, hdata'⟩ := hsettles'.ends e he
  exact ⟨hdata'.symm.trans hdata, hending.symm⟩

/-- A new stream over an inner one. -/
def fresh (wire : Bytes) (grants : List (Option Nat)) : FakeTlsStream :=
  { inner := { incoming := wire, grants } }

/-- A new stream owes what the grammar says. -/
theorem fresh_expects {wire : Bytes} (h : Records wire data ending)
    (grants : List (Option Nat)) : (fresh wire grants).Expects data ending :=
  .boundary rfl rfl rfl (Nat.zero_lt_succ 4) h

end FakeTlsStream

open FakeTlsStream

/-- What the calls on a new stream come to, whatever their buffers and the answers of the inner
stream: `wire` carries `data` and ends with `ending`. -/
structure ReadsRecords (wire : Bytes) (grants : List (Option Nat)) (data : Bytes)
    (ending : Except IoError Unit) : Prop where
  /-- The stream says this and nothing else. -/
  records : Records wire data ending
  unique : ∀ data' ending', Records wire data' ending' → data' = data ∧ ending' = ending
  /-- Any calls return a front of the data, and all of it before the end is reported. -/
  returns : ∀ rooms : List Nat, (∀ room ∈ rooms, 0 < room) →
    ((fresh wire grants).session rooms).data <+: data
  ends : ∀ rooms : List Nat, (∀ room ∈ rooms, 0 < room) → ∀ e,
    ((fresh wire grants).session rooms).ending = some e →
      e = ending ∧ ((fresh wire grants).session rooms).data = data
  /-- After enough calls the end is reported. -/
  finishes : ∀ rooms : List Nat, (∀ room ∈ rooms, 0 < room) →
    wire.length + grants.length < rooms.length →
      ((fresh wire grants).session rooms).ending = some ending
  /-- An end of file stays reported. -/
  stays : ∀ rooms : List Nat, (∀ room ∈ rooms, 0 < room) →
    ((fresh wire grants).session rooms).ending = some (.ok ()) → ∀ room,
      ((fresh wire grants).session rooms).stream.pollRead room =
        (.ready (.ok []), ((fresh wire grants).session rooms).stream)
  /-- What a writer has emitted, with nothing staged, carries just what it accepted. -/
  emitted : ∀ w, tlsWriterSystem.Within (fun w call => w.writeFails call = false) w →
    w.stream.staged = [] → w.stream.inner.written = wire →
      data = w.accepted.flatten ∧ ending = .ok ()

/-- The calls of `poll_read` return what the stream says. -/
theorem readsRecords (wire : Bytes) (grants : List (Option Nat)) :
    ∃ data ending, ReadsRecords wire grants data ending := by
  obtain ⟨data, ending, hrecords⟩ := records_total wire
  have howes := fresh_expects hrecords grants
  refine ⟨data, ending, ?_⟩
  constructor
  case records => exact hrecords
  case unique =>
    intro data' ending' h
    exact howes.unique (fresh_expects h grants)
  case returns =>
    intro rooms hrooms
    exact (howes.settles hrooms).returns
  case ends =>
    intro rooms hrooms
    exact (howes.settles hrooms).ends
  case finishes =>
    intro rooms hrooms hlt
    have hsettles := howes.settles hrooms
    obtain ⟨e, he⟩ := Option.isSome_iff_exists.mp (hsettles.finishes hlt)
    rw [he, (hsettles.ends e he).1]
  case stays =>
    intro rooms hrooms heof room
    rw [pollRead, if_pos (.inr ((howes.settles hrooms).eof heof))]
  case emitted =>
    rintro w hw hstaged rfl
    have hsound := TlsWriter.sound hw
    have hwire := hsound.wire
    rw [FakeTlsStream.wire, hstaged, List.append_nil] at hwire
    have hencode := records_encode fun chunk hmem => (hsound.sizes chunk hmem).2
    rw [← hwire] at hencode
    obtain ⟨hdata, hending⟩ := howes.unique (fresh_expects hencode grants)
    exact ⟨hdata.symm, hending.symm⟩

/-- An empty record, a ChangeCipherSpec and a cut body, one byte at a time around a `Pending`. -/
example : (fresh [0x17, 3, 3, 0, 0, 0x14, 3, 3, 0, 1, 1, 0x17, 3, 3, 0, 3, 97, 98]
    [some 1, none, some 2]).session [1, 1, 1, 1] =
      ⟨[97, 98], some (.error ⟨.unexpectedEof, "truncated TLS application record"⟩),
        { inner := {}, readRemaining := 1 }⟩ := by
  rfl

end TgWsProxy
