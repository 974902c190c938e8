import Mathlib.Algebra.Group.Nat.Defs
import Mathlib.Data.Bool.AllAny
import TgWsProxy.AsyncRead
import TgWsProxy.Core.Utf8
import TgWsProxy.IpAddr

/-!
# The PROXY header

`consume_proxy` of `proxy.rs`: one line in front of the handshake, read byte by byte into a buffer
of 107 bytes, and the fields that it must have. A line is accepted for its form alone, and no byte
behind it is touched.
-/

namespace TgWsProxy

open TgWsProxy.Core

/-- `is_ipv4`. -/
def IpAddr.isIpv4 : IpAddr → Bool
  | .v4 .. => true
  | .v6 _ => false

namespace ProxyHeader

/-- The size of the line buffer. -/
def maxLine : Nat := 107

/-- `\r\n`. -/
def crlf : Bytes := [13, 10]

/-! ## The fields -/

/-- An address, which must be of the family that the header names. -/
def checkHost (tcp4 : Bool) (host : List Char) : Except IoError Unit :=
  match IpAddr.parse (String.ofList host) with
  | none => .error (invalid "invalid PROXY v1 address")
  | some ip =>
    if ip.isIpv4 ≠ tcp4 then .error (invalid "PROXY address family mismatch") else .ok ()

/-- A port. -/
def checkPort (port : List Char) : Except IoError Unit :=
  match parseUnsigned (2 ^ 16) (String.ofList port) with
  | .error _ => .error (invalid "invalid PROXY v1 port")
  | .ok _ => .ok ()

/-- The fields between the spaces of the line. -/
def checkFields (fields : List (List Char)) : Except IoError Unit :=
  if 2 ≤ fields.length ∧ fields[0]? = some "PROXY".toList ∧ fields[1]? = some "UNKNOWN".toList then
    .ok ()
  else if fields.length ≠ 6 ∨ fields[0]? ≠ some "PROXY".toList ∨
      ¬(fields[1]? = some "TCP4".toList ∨ fields[1]? = some "TCP6".toList) then
    .error (invalid "invalid PROXY v1 header")
  else do
    ((fields.drop 2).take 2).forM (checkHost (fields[1]? = some "TCP4".toList))
    ((fields.drop 4).take 2).forM checkPort

/-- What is done with a line, its line feed included. -/
def checkLine (line : Bytes) : Except IoError Unit :=
  if ¬crlf <:+ line then .error (invalid "invalid PROXY v1 terminator")
  else
    match decodeUtf8 (line.take (line.length - 2)) with
    | none => .error (invalid "invalid PROXY v1 encoding")
    | some text => checkFields (text.splitOn ' ')

/-! ## The line -/

variable {R : Type} [AsyncRead R]

/-- The loop of `consume_proxy`, with so much of the buffer left, and the reader after it. -/
def consumeLine : Nat → R → Bytes → Except IoError Unit × R
  | 0, reader, _ => (.error (invalid "PROXY v1 header exceeds 107 bytes"), reader)
  | room + 1, reader, line =>
    match AsyncRead.readU8 reader with
    | .error e => (.error e, reader)
    | .ok (b, reader) =>
      if b = 10 then (checkLine (line ++ [b]), reader) else consumeLine room reader (line ++ [b])

/-- `consume_proxy`. -/
def consumeProxy (reader : R) : Except IoError Unit × R := consumeLine maxLine reader []

/-- The first byte of the handshake, as `initial` reads it. -/
def firstByte (proxyProtocol : Bool) (reader : R) : Except IoError (UInt8 × R) :=
  if proxyProtocol then
    match consumeProxy reader with
    | (.error e, _) => .error e
    | (.ok (), reader) => AsyncRead.readU8 reader
  else AsyncRead.readU8 reader

/-! ## What is accepted -/

/-- An address of the family. -/
def IsHost (tcp4 : Bool) (host : List Char) : Prop :=
  ∃ ip, IpAddr.parse (String.ofList host) = some ip ∧ ip.isIpv4 = tcp4

/-- A port in decimal digits. -/
def IsDigits (port : List Char) : Prop := IsDecimal (2 ^ 16) port

/-- A port as the number parser of the library takes it: behind a plus sign or not. -/
def IsPort (port : List Char) : Prop :=
  IsDigits port ∨ ∃ digits, port = '+' :: digits ∧ IsDigits digits

/-- The name of the family. -/
def family (tcp4 : Bool) : List Char := if tcp4 then "TCP4".toList else "TCP6".toList

/-- The text of a header, up to its line end; what a port looks like is a parameter. -/
inductive IsText (isPort : List Char → Prop) : List Char → Prop
  | unknown : IsText isPort "PROXY UNKNOWN".toList
  | unknownMore (more : List Char) : IsText isPort ("PROXY UNKNOWN ".toList ++ more)
  | tcp (tcp4 : Bool) {source destination sourcePort destinationPort : List Char}
    (hsource : IsHost tcp4 source) (hdestination : IsHost tcp4 destination)
    (hsourcePort : isPort sourcePort) (hdestinationPort : isPort destinationPort) :
    IsText isPort ([' '].intercalate
      ["PROXY".toList, family tcp4, source, destination, sourcePort, destinationPort])

/-- A header line: its first line feed is its last byte and comes behind a carriage return. -/
structure IsHeader (isPort : List Char → Prop) (line : Bytes) : Prop where
  short : line.length ≤ maxLine
  exists_text : ∃ text, line = encodeUtf8 text ++ crlf ∧ '\n' ∉ text ∧ IsText isPort text

/-! ## The fields of a header -/

private theorem checkHost_eq_ok {tcp4 : Bool} {host : List Char} :
    checkHost tcp4 host = .ok () ↔ IsHost tcp4 host := by
  rw [checkHost, IsHost]
  cases IpAddr.parse (String.ofList host) with
  | none => simp
  | some ip => simp

private theorem checkPort_eq_ok {port : List Char} : checkPort port = .ok () ↔ IsPort port := by
  have hparse : (∃ n, parseUnsigned (2 ^ 16) (String.ofList port) = .ok n) ↔ IsPort port := by
    rw [parseUnsigned_eq_ok (by decide), String.toList_ofList]
    rfl
  rw [checkPort]
  refine Iff.trans ?_ hparse
  cases parseUnsigned (2 ^ 16) (String.ofList port) with
  | error e => simp
  | ok n => simp

private theorem family_injective : Function.Injective family := by
  intro tcp4 tcp4' h
  cases tcp4 <;> cases tcp4' <;> first | rfl | cases h

private theorem then_eq_ok {x y : Except IoError Unit} :
    (x >>= fun _ => y) = .ok () ↔ x = .ok () ∧ y = .ok () := by
  rw [bind_eq_ok]
  exact ⟨fun ⟨_, hx, hy⟩ => ⟨hx, hy⟩, fun ⟨hx, hy⟩ => ⟨(), hx, hy⟩⟩

private theorem forM_pair_eq_ok {f : List Char → Except IoError Unit} {a b : List Char} :
    [a, b].forM f = .ok () ↔ f a = .ok () ∧ f b = .ok () := by
  rw [forM_eq_ok, List.forall_mem_cons, List.forall_mem_singleton]

private theorem exists_six {fields : List (List Char)} (h : fields.length = 6) :
    ∃ a b c d e f, fields = [a, b, c, d, e, f] := by
  match fields, h with
  | [a, b, c, d, e, f], _ => exact ⟨a, b, c, d, e, f, rfl⟩

/-- The fields that are accepted. -/
theorem checkFields_eq_ok {fields : List (List Char)} :
    checkFields fields = .ok () ↔
      (∃ more, fields = "PROXY".toList :: "UNKNOWN".toList :: more) ∨
      ∃ tcp4 source destination sourcePort destinationPort,
        fields = ["PROXY".toList, family tcp4, source, destination, sourcePort, destinationPort] ∧
        IsHost tcp4 source ∧ IsHost tcp4 destination ∧ IsPort sourcePort ∧
        IsPort destinationPort := by
  rw [checkFields]
  split
  · next hunknown =>
    refine iff_of_true rfl (.inl ?_)
    obtain ⟨hlength, hproxy, hname⟩ := hunknown
    rcases fields with _ | ⟨a, _ | ⟨b, more⟩⟩
    · cases hproxy
    · cases hname
    · obtain rfl := Option.some.inj hproxy
      obtain rfl := Option.some.inj hname
      exact ⟨more, rfl⟩
  · next hknown =>
    split
    · next hbad =>
      refine iff_of_false nofun ?_
      rintro (⟨more, rfl⟩ | ⟨tcp4, source, destination, sourcePort, destinationPort, rfl, -⟩)
      · exact hknown ⟨Nat.le_add_left .., rfl, rfl⟩
      · cases tcp4
        · exact hbad.elim (absurd rfl) fun h => h.elim (absurd rfl) fun h => h (.inr rfl)
        · exact hbad.elim (absurd rfl) fun h => h.elim (absurd rfl) fun h => h (.inl rfl)
    · next hgood =>
      obtain ⟨hlength, hrest⟩ := not_or.mp hgood
      obtain ⟨hproxy, hfamily⟩ := not_or.mp hrest
      obtain ⟨a, name, source, destination, sourcePort, destinationPort, rfl⟩ :=
        exists_six (not_not.mp hlength)
      obtain rfl := Option.some.inj (not_not.mp hproxy)
      obtain ⟨tcp4, rfl, htcp4⟩ : ∃ tcp4, name = family tcp4 ∧
          decide (some name = some "TCP4".toList) = tcp4 := by
        rcases not_not.mp hfamily with h | h
        · exact ⟨true, Option.some.inj h, decide_eq_true h⟩
        · obtain rfl := Option.some.inj h
          exact ⟨false, rfl, by decide⟩
      change ([source, destination].forM
        (checkHost (decide (some (family tcp4) = some "TCP4".toList))) >>= fun _ =>
          [sourcePort, destinationPort].forM checkPort) = .ok () ↔ _
      simp only [htcp4, then_eq_ok, forM_pair_eq_ok, checkHost_eq_ok, checkPort_eq_ok]
      constructor
      · rintro ⟨⟨hsource, hdestination⟩, hsourcePort, hdestinationPort⟩
        exact .inr ⟨tcp4, _, _, _, _, rfl, hsource, hdestination, hsourcePort, hdestinationPort⟩
      · rintro (⟨more, hfields⟩ | ⟨tcp4', _, _, _, _, hfields, hsource, hdestination, hsourcePort,
          hdestinationPort⟩)
        · rw [hfields] at hknown
          exact absurd ⟨Nat.le_add_left .., rfl, rfl⟩ hknown
        · simp only [List.cons.injEq, and_true, true_and] at hfields
          obtain ⟨hname, rfl, rfl, rfl, rfl⟩ := hfields
          obtain rfl := family_injective hname
          exact ⟨⟨hsource, hdestination⟩, hsourcePort, hdestinationPort⟩

private theorem IsHost.notMem_space {tcp4 : Bool} {host : List Char} (h : IsHost tcp4 host) :
    ' ' ∉ host := by
  obtain ⟨ip, hip, -⟩ := h
  intro hmem
  rw [← String.toList_ofList (l := host)] at hmem
  have hchar := IpAddr.isAddressChar_of_parse hip ' ' hmem
  exact absurd hchar (by simp [IpAddr.IsAddressChar]; decide)

private theorem IsPort.notMem_space {port : List Char} (h : IsPort port) : ' ' ∉ port := by
  have hdigits {digits : List Char} (h : IsDigits digits) : ' ' ∉ digits := fun hmem =>
    absurd (h.digit ' ' hmem) (by decide)
  rcases h with h | ⟨digits, rfl, h⟩
  · exact hdigits h
  · rw [List.mem_cons, not_or]
    exact ⟨by decide, hdigits h⟩

/-- Fields without a space are split again. -/
theorem splitOn_fields {tcp4 : Bool} {source destination sourcePort destinationPort : List Char}
    (hsource : IsHost tcp4 source) (hdestination : IsHost tcp4 destination)
    (hsourcePort : ' ' ∉ sourcePort) (hdestinationPort : ' ' ∉ destinationPort) :
    ([' '].intercalate ["PROXY".toList, family tcp4, source, destination, sourcePort,
      destinationPort]).splitOn ' ' =
        ["PROXY".toList, family tcp4, source, destination, sourcePort, destinationPort] := by
  have hfamily : ' ' ∉ family tcp4 := by
    cases tcp4 <;> decide
  refine List.splitOn_intercalate ' ' ?_ (List.cons_ne_nil _ _)
  simp only [List.forall_mem_cons, List.not_mem_nil, false_imp_iff, implies_true, and_true]
  exact ⟨by decide, hfamily, hsource.notMem_space, hdestination.notMem_space, hsourcePort,
    hdestinationPort⟩

/-- The texts that are accepted. -/
theorem checkFields_splitOn {text : List Char} :
    checkFields (text.splitOn ' ') = .ok () ↔ IsText IsPort text := by
  rw [checkFields_eq_ok]
  constructor
  · have htext : [' '].intercalate (text.splitOn ' ') = text := List.intercalate_splitOn ' '
    rintro (⟨more, hfields⟩ | ⟨tcp4, source, destination, sourcePort, destinationPort, hfields,
      hsource, hdestination, hsourcePort, hdestinationPort⟩)
    · rw [← htext, hfields]
      cases more with
      | nil => exact .unknown
      | cons field more => exact .unknownMore ([' '].intercalate (field :: more))
    · rw [← htext, hfields]
      exact .tcp tcp4 hsource hdestination hsourcePort hdestinationPort
  · rintro (_ | more | ⟨tcp4, hsource, hdestination, hsourcePort, hdestinationPort⟩)
    · exact .inl ⟨[], by decide⟩
    · refine .inl ⟨more.splitOn ' ', ?_⟩
      have hproxy : ("PROXY".toList ++ ' ' :: ("UNKNOWN".toList ++ ' ' :: more)).splitOn ' ' =
          "PROXY".toList :: ("UNKNOWN".toList ++ ' ' :: more).splitOn ' ' :=
        List.splitOn_append_cons_self_of_not_mem (by decide) _
      rwa [List.splitOn_append_cons_self_of_not_mem (by decide)] at hproxy
    · refine .inr ⟨tcp4, _, _, _, _, ?_, hsource, hdestination, hsourcePort, hdestinationPort⟩
      exact splitOn_fields hsource hdestination hsourcePort.notMem_space
        hdestinationPort.notMem_space

/-! ## The line of a header -/

/-- A line up to its first line feed is accepted where it is a header line. -/
theorem checkLine_eq_ok {front : Bytes} (hfront : 10 ∉ front) :
    checkLine (front ++ [10]) = .ok () ↔
      ∃ text, front ++ [10] = encodeUtf8 text ++ crlf ∧ '\n' ∉ text ∧ IsText IsPort text := by
  rw [checkLine]
  split
  · next hends =>
    refine iff_of_false nofun ?_
    rintro ⟨text, hline, -⟩
    exact hends (hline ▸ List.suffix_append ..)
  · next hends =>
    obtain ⟨body, hbody⟩ := not_not.mp hends
    have htake : (front ++ [10]).take ((front ++ [10]).length - 2) = body := by
      rw [← hbody, List.length_append]
      exact List.take_left
    have hfeed : 10 ∉ body := by
      have hline : body ++ [13] ++ [10] = front ++ [10] := (List.append_assoc ..).trans hbody
      rw [List.append_left_inj] at hline
      exact fun hmem => hfront (hline ▸ List.mem_append_left _ hmem)
    rw [htake]
    cases htext : decodeUtf8 body with
    | none =>
      refine iff_of_false nofun ?_
      rintro ⟨text, hline, -⟩
      rw [← hbody, List.append_left_inj] at hline
      rw [hline, decodeUtf8_encodeUtf8] at htext
      cases htext
    | some text =>
      obtain rfl := decodeUtf8_eq_some.mp htext
      rw [mem_encodeUtf8 (by decide)] at hfeed
      change checkFields (text.splitOn ' ') = .ok () ↔ _
      rw [checkFields_splitOn]
      constructor
      · exact fun h => ⟨text, hbody.symm, hfeed, h⟩
      · rintro ⟨text', hline, -, h⟩
        rw [← hbody, List.append_left_inj] at hline
        rwa [encodeUtf8_injective hline]

/-- What the loop takes off the front of the stream: a line, or no line feed at all. -/
theorem consumeLine_spec (room : Nat) (reader : R) (line : Bytes) :
    ∃ taken, AsyncRead.bytes reader = taken ++ AsyncRead.bytes (consumeLine room reader line).2 ∧
      taken.length ≤ room ∧
      ((∃ front, taken = front ++ [10] ∧ 10 ∉ front ∧
        (consumeLine room reader line).1 = checkLine (line ++ taken)) ∨
      (10 ∉ taken ∧ (taken.length = room ∨ AsyncRead.bytes reader = taken) ∧
        ∃ e, (consumeLine room reader line).1 = .error e)) := by
  induction room generalizing reader line with
  | zero => exact ⟨[], rfl, Nat.le_refl _, .inr ⟨List.not_mem_nil, .inl rfl, _, rfl⟩⟩
  | succ room ih =>
    rw [consumeLine]
    cases hbytes : AsyncRead.bytes reader with
    | nil =>
      rw [AsyncRead.readU8_of_nil hbytes]
      exact ⟨[], hbytes.symm, Nat.zero_le _, .inr ⟨List.not_mem_nil, .inr rfl, _, rfl⟩⟩
    | cons b rest =>
      obtain ⟨reader', hread, hrest, -⟩ := AsyncRead.readU8_of_cons hbytes
      rw [hread]
      dsimp only
      split
      · next hfeed =>
        subst hfeed
        refine ⟨[10], ?_, Nat.le_add_left .., .inl ⟨[], rfl, List.not_mem_nil, rfl⟩⟩
        rw [hrest]
        rfl
      · next hfeed =>
        obtain ⟨taken, htaken, hle, hcases⟩ := ih reader' (line ++ [b])
        refine ⟨b :: taken, ?_, Nat.succ_le_succ hle, ?_⟩
        · rw [List.cons_append, ← htaken, hrest]
        · rcases hcases with ⟨front, rfl, hfront, hout⟩ | ⟨hnone, hend, hout⟩
          · refine .inl ⟨b :: front, rfl, ?_, ?_⟩
            · exact List.not_mem_cons_of_ne_of_not_mem (Ne.symm hfeed) hfront
            · rw [hout, ← List.append_cons]
          · refine .inr ⟨List.not_mem_cons_of_ne_of_not_mem (Ne.symm hfeed) hnone, ?_, hout⟩
            rw [← hrest]
            exact hend.imp (congrArg Nat.succ) (congrArg (b :: ·))

private theorem notMem_body {text : List Char} (h : '\n' ∉ text) : 10 ∉ encodeUtf8 text ++
    [13] := by
  rw [List.mem_append, mem_encodeUtf8 (by decide), not_or]
  exact ⟨h, by decide⟩

/-- A stream has one first line feed. -/
theorem cut_unique {front front' rest rest' : Bytes} (hfront : 10 ∉ front) (hfront' : 10 ∉ front')
    (h : front ++ 10 :: rest = front' ++ 10 :: rest') : front = front' ∧ rest = rest' := by
  induction front generalizing front' with
  | nil =>
    cases front' with
    | nil => exact ⟨rfl, (List.cons.inj h).2⟩
    | cons b front' =>
      obtain rfl := (List.cons.inj h).1
      exact absurd (List.mem_cons_self ..) hfront'
  | cons b front ih =>
    cases front' with
    | nil =>
      obtain rfl := (List.cons.inj h).1
      exact absurd (List.mem_cons_self ..) hfront
    | cons b' front' =>
      obtain ⟨rfl, htail⟩ := List.cons.inj h
      obtain ⟨rfl, hrest⟩ := ih (List.not_mem_of_not_mem_cons hfront)
        (List.not_mem_of_not_mem_cons hfront') htail
      exact ⟨rfl, hrest⟩

/-- The header is consumed where the stream begins with one, and nothing behind it is. -/
theorem consumeProxy_eq_ok {reader : R} {rest : Bytes} :
    (consumeProxy reader).1 = .ok () ∧ AsyncRead.bytes (consumeProxy reader).2 = rest ↔
      ∃ line, IsHeader IsPort line ∧ AsyncRead.bytes reader = line ++ rest := by
  obtain ⟨taken, htaken, hle, hcases⟩ := consumeLine_spec maxLine reader []
  constructor
  · rintro ⟨hok, rfl⟩
    rcases hcases with ⟨front, rfl, hfront, hout⟩ | ⟨-, -, e, hout⟩
    · exact ⟨front ++ [10], ⟨hle, (checkLine_eq_ok hfront).mp (hout.symm.trans hok)⟩, htaken⟩
    · cases hout.symm.trans hok
  · rintro ⟨line, ⟨hshort, text, rfl, hfeed, htext⟩, hbytes⟩
    have hline : encodeUtf8 text ++ crlf = encodeUtf8 text ++ [13] ++ [10] :=
      List.append_cons ..
    rcases hcases with ⟨front, rfl, hfront, hout⟩ | ⟨hnone, hend, -⟩
    · rw [hbytes, hline, List.append_assoc, List.append_assoc front] at htaken
      obtain ⟨rfl, hrest⟩ := cut_unique (notMem_body hfeed) hfront htaken
      exact ⟨hout.trans ((checkLine_eq_ok hfront).mpr ⟨text, hline.symm, hfeed, htext⟩), hrest.symm⟩
    · have hfirst : encodeUtf8 text ++ crlf <+: taken := by
        refine List.prefix_of_prefix_length_le ⟨rest, hbytes.symm⟩ ⟨_, htaken.symm⟩ ?_
        rcases hend with hfull | hall
        · exact hfull ▸ hshort
        · rw [← hall, hbytes]
          exact (List.prefix_append ..).length_le
      exact absurd (hfirst.subset (List.mem_append_right _ (by decide))) hnone

/-- A header is consumed exactly where the stream begins with one of at most 107 bytes; no byte of
the handshake goes with it, and on no stream are more than 107 bytes read. -/
theorem headerConsumed (reader : R) :
    (∀ rest, (consumeProxy reader).1 = .ok () ∧ AsyncRead.bytes (consumeProxy reader).2 = rest ↔
      ∃ line, IsHeader IsPort line ∧ AsyncRead.bytes reader = line ++ rest) ∧
    (∃ taken, AsyncRead.bytes reader = taken ++ AsyncRead.bytes (consumeProxy reader).2 ∧
      taken.length ≤ maxLine) ∧
    ∀ line b rest, IsHeader IsPort line → AsyncRead.bytes reader = line ++ b :: rest →
      ∃ reader', firstByte true reader = .ok (b, reader') ∧ AsyncRead.bytes reader' = rest := by
  refine ⟨fun rest => consumeProxy_eq_ok, ?_, fun line b rest hline hbytes => ?_⟩
  · obtain ⟨taken, htaken, hle, -⟩ := consumeLine_spec maxLine reader []
    exact ⟨taken, htaken, hle⟩
  · obtain ⟨hok, hrest⟩ := consumeProxy_eq_ok.mpr ⟨line, hline, hbytes⟩
    obtain ⟨reader', hread, hbytes', -⟩ := AsyncRead.readU8_of_cons hrest
    refine ⟨reader', ?_, hbytes'⟩
    rw [firstByte, if_pos rfl]
    cases hout : consumeProxy reader with
    | mk result reader₁ =>
      rw [hout] at hok hread
      obtain rfl : result = .ok () := hok
      exact hread

/-- The text of a header between two hosts. -/
def hostsText (sourcePort : String) : List Char :=
  [' '].intercalate ["PROXY".toList, "TCP4".toList, "192.0.2.1".toList, "192.0.2.2".toList,
    sourcePort.toList, "443".toList]

/-- A header of two hosts with a source port of one's own. -/
theorem isHeader_hosts {sourcePort : String} (hport : IsPort sourcePort.toList)
    (hshort : (encodeUtf8 (hostsText sourcePort) ++ crlf).length ≤ maxLine)
    (hfeed : '\n' ∉ hostsText sourcePort) :
    IsHeader IsPort (encodeUtf8 (hostsText sourcePort) ++ crlf) where
  short := hshort
  exists_text := by
    refine ⟨_, rfl, hfeed, .tcp true ⟨.v4 192 0 2 1, by decide, rfl⟩ ⟨.v4 192 0 2 2, by decide, rfl⟩
      hport (.inl ⟨by decide, List.all_iff_forall_prop.mp (by decide), by decide⟩)⟩

/-- A header of two hosts is consumed. -/
theorem headerConsumed_hosts :
    let reader : Stream := ⟨⟨encodeUtf8 (hostsText "4000") ++ crlf ++ [7, 8], [1, 20, 3]⟩, none⟩
    ∃ reader', firstByte true reader = .ok (7, reader') ∧ AsyncRead.bytes reader' = [8] :=
  (headerConsumed _).2.2 _ 7 [8]
    (isHeader_hosts (.inl ⟨by decide, List.all_iff_forall_prop.mp (by decide), by decide⟩)
      (by decide) (by decide)) rfl

/-- A port with a plus is no number of digits. -/
theorem not_isText_plus : ¬IsText IsDigits (hostsText "+4000") := by
  intro htext
  generalize hplus : hostsText "+4000" = text at htext
  cases htext with
  | unknown => exact absurd hplus (by decide)
  | unknownMore more =>
    have hname : some 'T' = some 'U' := congrArg (·[6]?) hplus
    exact absurd hname (by decide)
  | tcp tcp4 hsource hdestination hsourcePort hdestinationPort =>
    have hsplit := splitOn_fields hsource hdestination (IsPort.notMem_space (.inl hsourcePort))
      (IsPort.notMem_space (.inl hdestinationPort))
    rw [← hplus] at hsplit
    have hport := congrArg (·[4]?) hsplit
    obtain rfl : "+4000".toList = _ := Option.some.inj hport
    exact absurd (hsourcePort.digit '+' (by decide)) (by decide)

/-- A port behind a plus sign is accepted, and is no port in decimal digits. -/
theorem consumeProxy_plus :
    ¬∀ reader : Stream, (consumeProxy reader).1 = .ok () ↔
      ∃ line rest, IsHeader IsDigits line ∧ AsyncRead.bytes reader = line ++ rest := by
  intro h
  have hheader : IsHeader IsPort (encodeUtf8 (hostsText "+4000") ++ crlf) :=
    isHeader_hosts (.inr ⟨_, rfl, by decide, List.all_iff_forall_prop.mp (by decide), by decide⟩)
      (by decide) (by decide)
  let reader : Stream := ⟨⟨encodeUtf8 (hostsText "+4000") ++ crlf, []⟩, none⟩
  have hreader : AsyncRead.bytes reader = encodeUtf8 (hostsText "+4000") ++ [13] ++ 10 :: [] :=
    List.append_cons ..
  have hok : (consumeProxy reader).1 = .ok () :=
    (consumeProxy_eq_ok.mpr ⟨_, hheader, (List.append_nil _).symm⟩).1
  obtain ⟨line, rest, ⟨-, text, rfl, hfeed, htext⟩, hbytes⟩ := (h reader).mp hok
  rw [hreader, List.append_assoc (encodeUtf8 text)] at hbytes
  obtain ⟨hfront, -⟩ :=
    cut_unique (by decide) (notMem_body hfeed) (hbytes.trans (List.append_cons ..))
  rw [List.append_left_inj] at hfront
  exact not_isText_plus (encodeUtf8_injective hfront ▸ htext)

end ProxyHeader

end TgWsProxy
