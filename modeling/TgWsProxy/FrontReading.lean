import TgWsProxy.FakeTlsReading
import TgWsProxy.Front

/-!
# What a front reads

A handshake behind records is filled as they say, and what is read first is a record behind its
header or a byte that begins none.
-/

namespace TgWsProxy

open TgWsProxy.Core
open TgWsProxy.AsyncRead

/-! ## Reading a handshake through records -/

/-- A read returns no more than its buffer holds. -/
theorem PollStream.length_pollRead {s inner : PollStream} {room : Nat} {data : Bytes}
    (h : s.pollRead room = (.ready data, inner)) : data.length ≤ room := by
  unfold PollStream.pollRead at h
  split at h
  · cases h
    exact List.length_take_le ..
  · cases h
  · cases h
    exact Nat.le_trans (List.length_take_le ..) (Nat.min_le_left ..)

namespace FakeTlsStream

/-- A call returns no more than its buffer holds. -/
theorem length_pollReadLoop {rounds room : Nat} {s t : FakeTlsStream} {data : Bytes}
    (h : pollReadLoop rounds room s = (.ready (.ok data), t)) : data.length ≤ room := by
  induction rounds generalizing s with
  | zero => cases h
  | succ rounds ih =>
    unfold pollReadLoop at h
    split at h
    · split at h
      · split at h
        · cases h
        · cases h
        · split at h
          · cases h
          · exact ih h
      · split at h
        · cases h
        · cases h
        · next b bs inner hread =>
          cases h
          have hle := PollStream.length_pollRead hread
          omega
    · split at h
      · cases h
      · split at h
        · cases h
        · cases h
          exact Nat.zero_le _
      · split at h
        · exact ih h
        · split at h
          · cases h
          · split at h
            · cases h
              exact Nat.zero_le _
            · exact ih h

private theorem length_pollRead {room : Nat} {s t : FakeTlsStream} {data : Bytes}
    (h : s.pollRead room = (.ready (.ok data), t)) : data.length ≤ room := by
  unfold pollRead at h
  split at h
  · cases h
    exact Nat.zero_le _
  · exact length_pollReadLoop h

/-- A reader that owes `data` fills a buffer from it, and fails where there is too little. -/
structure Fills (data : Bytes) (ending : Except IoError Unit) (room : Nat)
    (r : Option (Except IoError Bytes × FakeTlsStream)) : Prop where
  full : room ≤ data.length → ∃ t, r = some (.ok (data.take room), t) ∧
    t.Expects (data.drop room) ending
  short : data.length < room → ∃ e t, r = some (.error e, t)

/-- A reader that expects some data fills a request of any size from it. -/
theorem Expects.fills {polls room : Nat} {s : FakeTlsStream} {data : Bytes}
    {ending : Except IoError Unit} (h : s.Expects data ending) (hpolls : s.inner.size < polls) :
    Fills data ending room (readExact polls room s) := by
  induction polls generalizing s data room with
  | zero => exact absurd hpolls (Nat.not_lt_zero _)
  | succ polls ih =>
    cases room with
    | zero => exact ⟨fun _ => ⟨s, rfl, h⟩, fun hlt => absurd hlt (Nat.not_lt_zero _)⟩
    | succ room =>
      have hpays := h.pays (Nat.succ_pos room)
      have hlength {bytes : Bytes} {t : FakeTlsStream} :
          s.pollRead (room + 1) = (.ready (.ok bytes), t) → bytes.length ≤ room + 1 :=
            length_pollRead
      rw [readExact]
      generalize s.pollRead (room + 1) = result at hpays hlength
      cases hpays with
      | pending howes hsize => exact ih howes (by omega)
      | @data b bs data ending t howes hsize =>
        have hle := hlength rfl
        obtain ⟨hfull, hshort⟩ : Fills data ending (room + 1 - (b :: bs).length)
            (readExact polls (room + 1 - (b :: bs).length) t) := ih howes (by omega)
        refine ⟨fun hroom => ?_, fun hroom => ?_⟩
        · rw [List.length_append] at hroom
          obtain ⟨u, hread, hu⟩ := hfull (by omega)
          refine ⟨u, ?_, ?_⟩
          · dsimp only
            rw [hread, List.take_append, List.take_of_length_le hle]
            rfl
          · rwa [List.drop_append, List.drop_eq_nil_of_le hle, List.nil_append]
        · rw [List.length_append] at hroom
          obtain ⟨e, u, hread⟩ := hshort (by omega)
          refine ⟨e, u, ?_⟩
          dsimp only
          rw [hread]
          rfl
      | eof hstop =>
        exact ⟨fun hroom => absurd hroom (Nat.not_succ_le_zero room), fun _ => ⟨_, _, rfl⟩⟩
      | failed =>
        exact ⟨fun hroom => absurd hroom (Nat.not_succ_le_zero room), fun _ => ⟨_, _, rfl⟩⟩

end FakeTlsStream

/-- The bytes of a handshake, out of a stream that says `data`. -/
theorem handshake_fills {wire data : Bytes} {ending : Except IoError Unit}
    (h : Records wire data ending) (grants : List (Option Nat)) :
    FakeTlsStream.Fills data ending 64 (FakeTlsStream.readExact (wire.length + grants.length + 1) 64
      (FakeTlsStream.fresh wire grants)) :=
  (FakeTlsStream.fresh_expects h grants).fills (Nat.lt_succ_self _)

/-! ## The first bytes -/

/-- A PROXY header, where there has to be one. -/
structure Announced (cfg : Config) (header : Bytes) : Prop where
  isHeader : cfg.proxyProtocol = true → ProxyHeader.IsHeader ProxyHeader.IsPort header
  isNone : cfg.proxyProtocol = false → header = []

variable {cfg : Config}

private theorem firstByte_ok {input rest : Stream} {first : UInt8}
    (h : ProxyHeader.firstByte cfg.proxyProtocol input = .ok (first, rest)) :
    ∃ header, Announced cfg header ∧ bytes input = header ++ first :: bytes rest := by
  unfold ProxyHeader.firstByte at h
  cases hproxy : cfg.proxyProtocol with
  | false =>
    rw [hproxy, if_neg Bool.false_ne_true] at h
    exact ⟨[], ⟨(fun h => by cases hproxy.symm.trans h), fun _ => rfl⟩, bytes_of_readU8 h⟩
  | true =>
    rw [hproxy, if_pos rfl] at h
    split at h
    · cases h
    · next reader hconsume =>
      obtain ⟨header, hheader, hbytes⟩ := ProxyHeader.consumeProxy_eq_ok.mp
        ⟨congrArg Prod.fst hconsume, congrArg (fun r => bytes r.2) hconsume⟩
      refine ⟨header, ⟨fun _ => hheader, (fun h => by cases hproxy.symm.trans h)⟩, ?_⟩
      rw [hbytes, ← bytes_of_readU8 h]

/-- A record that is taken for a ClientHello. -/
structure IsHelloRecord (cfg : Config) (record : Bytes) : Prop where
  domain : cfg.fakeTlsDomain ≠ ""
  first : record.head? = some 0x16
  long : 43 ≤ record.length
  short : record.length ≤ 16389

/-- What is read first is a record, or a byte that begins none. -/
theorem opening_ok {input rest : Stream} {first : UInt8} {hello : Option Bytes}
    (h : opening cfg input = .ok ((first, hello), rest)) :
    ∃ header, Announced cfg header ∧ bytes input = header ++ (hello.getD [first] ++ bytes rest) ∧
      (∀ record, hello = some record → IsHelloRecord cfg record) ∧
      (hello = none → first ≠ 0x16 ∨ cfg.fakeTlsDomain = "") := by
  unfold opening at h
  obtain ⟨⟨b, input₁⟩, hfirst, h⟩ := bind_eq_ok.mp h
  obtain ⟨header, hheader, hbytes⟩ := firstByte_ok hfirst
  dsimp only at h
  split at h
  · next hrecord =>
    obtain ⟨⟨front, input₂⟩, hfront, h⟩ := bind_eq_ok.mp h
    dsimp only at h
    split at h
    · cases h
    · next hlength =>
      obtain ⟨⟨body, input₃⟩, hbody, h⟩ := bind_eq_ok.mp h
      cases h
      have hfrontlength := length_of_readExact hfront
      have hbodylength := length_of_readExact hbody
      refine ⟨header, hheader, ?_, fun record hsome => ?_, fun hnone => by cases hnone⟩
      · rw [hbytes, bytes_of_readExact hfront, bytes_of_readExact hbody]
        simp
      · cases hsome
        refine ⟨hrecord.2, by rw [hrecord.1]; rfl, ?_, ?_⟩ <;>
          simp only [List.length_cons, List.length_append] <;> omega
  · next hrecord =>
    cases h
    refine ⟨header, hheader, hbytes, (fun record hsome => by cases hsome), fun _ => ?_⟩
    exact (not_and_or.mp hrecord).imp_right not_not.mp

end TgWsProxy
