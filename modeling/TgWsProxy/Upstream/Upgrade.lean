import TgWsProxy.Upstream.Routing
import TgWsProxy.Web.RequestWriting

/-!
# The upgrade to a WebSocket

`connect_port` of `websocket.rs` behind its sockets: the request that is written, and
`read_http_headers` and `validate_upgrade` on the answer. SHA-1 and Base64 are parameters. A field
that is repeated is joined by commas, so what is accepted is said here of the lines.
-/

namespace TgWsProxy.Upgrade

open TgWsProxy.Core
open TgWsProxy.AsyncRead
open TgWsProxy.Web (blankLine fromUtf8 splitLines splitOnce lowercase Headers joinLines headerLine
  lineEnd)

/-! ## The code -/

/-- `HEADER_LIMIT`. -/
def headerLimit : Nat := 16 * 1024

section

variable {R : Type} [AsyncRead R]

/-- The first loop of `read_http_headers`, with so much of the limit left. -/
def readHead (r : R) (head : Bytes) : Nat → Except IoError (Bytes × R)
  | 0 =>
    if blankLine <:+ head then .ok (head, r)
    else .error (invalid "HTTP headers exceed 16 KiB")
  | room + 1 =>
    if blankLine <:+ head then .ok (head, r)
    else
      match readU8 r with
      | .error e => .error e
      | .ok (b, r) => readHead r (head ++ [b]) room

end

/-- `and_modify` and `or_insert_with`. -/
def appended : Option String → String → String
  | none, value => value
  | some old, value => old ++ "," ++ value

/-- The field of a header line. -/
def headerField (line : List Char) : Option (String × String) :=
  (splitOnce ':' line).map fun (key, value) =>
    (lowercase (trim key), String.ofList (trim value))

def addField (headers : Headers) (field : String × String) : Headers :=
  headers.insert field.1 (appended headers[field.1]? field.2)

/-- The loop over the header lines. -/
def addHeaders : List (List Char) → Headers → Except IoError Headers
  | [], headers => .ok headers
  | line :: lines, headers =>
    match headerField line with
    | none => .error (invalid "invalid HTTP header")
    | some field => addHeaders lines (addField headers field)

/-- The version and the code of a status line. -/
def parseStatus (status : List Char) : Except IoError Nat :=
  let parts := status.splitOn ' '
  if ¬(parts[0]? = some "HTTP/1.1".toList ∨ parts[0]? = some "HTTP/1.0".toList) then
    .error (invalid "invalid HTTP version")
  else
    match parts[1]?.map fun code => parseUnsigned (2 ^ 16) (String.ofList code) with
    | some (.ok code) => .ok code
    | _ => .error (invalid "invalid HTTP status")

/-- What `read_http_headers` makes of a head. -/
def parseHead (head : Bytes) : Except IoError (Nat × Headers) :=
  match fromUtf8 head with
  | none => .error (invalid "invalid HTTP headers")
  | some text => do
    let lines := splitLines text.toList
    let code ← parseStatus (lines.headD [])
    let headers ← addHeaders (lines.tail.filter (· ≠ [])) ∅
    return (code, headers)

/-- `read_http_headers`. -/
def readHttpHeaders {R : Type} [AsyncRead R] (r : R) : Except IoError ((Nat × Headers) × R) := do
  let (head, r) ← readHead r [] headerLimit
  return (← parseHead head, r)

/-- Whether a field has a token, in any case of its letters. -/
def hasToken (headers : Headers) (name expected : String) : Bool :=
  headers[name]?.any fun value =>
    (value.toList.splitOn ',').any fun token => lowercase (trim token) = lowercase expected.toList

/-- SHA-1 and Base64. -/
structure Crates where
  sha1 : Bytes → Bytes
  encode : Bytes → String

/-- The proof of an upgrade under a key. -/
def Crates.accept (crates : Crates) (key : String) : String :=
  crates.encode (crates.sha1
    (encodeUtf8 (key.toList ++ "258EAFA5-E914-47DA-95CA-C5AB0DC85B11".toList)))

/-- `HttpError`. -/
def httpError (code : Nat) : WsError :=
  { kind := .other, message := "HTTP " ++ toString code, status := some code }

/-- `validate_upgrade`. -/
def validateUpgrade (crates : Crates) (code : Nat) (headers : Headers) (key : String) :
    Except WsError Unit :=
  if code ≠ 101 then .error (httpError code)
  else if !hasToken headers "upgrade" "websocket" || !hasToken headers "connection" "upgrade" ||
      headers["sec-websocket-accept"]? ≠ some (crates.accept key) then
    .error { toIoError := invalid "invalid WebSocket upgrade proof" }
  else if headers.contains "sec-websocket-extensions" then
    .error { toIoError := invalid "unsolicited WebSocket extension" }
  else if headers["sec-websocket-protocol"]?.any (· ≠ "binary") then
    .error { toIoError := invalid "invalid WebSocket subprotocol" }
  else .ok ()

/-- The request. -/
def requestText (path domain key : String) : List Char :=
  "GET ".toList ++ path.toList ++ " HTTP/1.1\r\nHost: ".toList ++ domain.toList ++
    "\r\nUpgrade: websocket\r\nConnection: Upgrade\r\nSec-WebSocket-Key: ".toList ++ key.toList ++
    "\r\nSec-WebSocket-Version: 13\r\nSec-WebSocket-Protocol: binary\r\n\r\n".toList

/-- Whether a target has a blank or a control character. -/
def badTarget (target : String) : Bool := (encodeUtf8 target.toList).any fun b => b ≤ 32 || b = 127

/-- `connect_port` with what its peer answers: what is written, and the reader behind the answer. -/
def connectPort {R : Type} [AsyncRead R] (crates : Crates) (request : WsRequest)
    (random : Block 16) (wire : R) : Bytes × Except WsError R :=
  if [request.host, request.domain, request.sni, request.path].any badTarget then
    ([], .error { toIoError := invalid "invalid WebSocket request target" })
  else
    let key := crates.encode random.val
    (encodeUtf8 (requestText request.path request.domain key),
      match readHttpHeaders wire with
      | .error e => .error { toIoError := e }
      | .ok ((code, headers), wire) => (validateUpgrade crates code headers key).map fun _ => wire)

/-- Targets are refused when one of them is. -/
theorem any_badTarget {targets : List String} :
    targets.any badTarget = false ↔ ∀ target ∈ targets, badTarget target = false := by
  simp only [List.any_eq_false, Bool.not_eq_true]

/-! ## The head -/

/-- A head ends with its first blank line. -/
structure IsHead (head : Bytes) : Prop where
  blank : blankLine <:+ head
  first : ∀ front, front <+: head → front ≠ head → ¬blankLine <:+ front

section

variable {R : Type} [AsyncRead R] {r r' : R} {acc head front rest : Bytes} {room : Nat}

private theorem prefix_concat {b : UInt8} (h : front <+: acc ++ [b]) (hne : front ≠ acc ++ [b]) :
    front <+: acc := (List.prefix_concat_iff.mp h).resolve_left hne

/-- An empty front ends no head. -/
theorem not_blankLine_nil (front : Bytes) (h : front <+: []) (hne : front ≠ []) :
    ¬blankLine <:+ front := absurd (List.prefix_nil.mp h) hne

/-- What is read ends with the first blank line and keeps its limit. -/
theorem readHead_ok (h : readHead r acc room = .ok (head, r'))
    (hacc : ∀ front, front <+: acc → front ≠ acc → ¬blankLine <:+ front) :
    IsHead head ∧ ∃ front, head = acc ++ front ∧ front.length ≤ room ∧
      bytes r = front ++ bytes r' := by
  induction room generalizing r acc with
  | zero =>
    rw [readHead] at h
    split at h
    · next hblank =>
      cases h
      exact ⟨⟨hblank, hacc⟩, [], (List.append_nil _).symm, Nat.le_refl _, rfl⟩
    · cases h
  | succ room ih =>
    rw [readHead] at h
    split at h
    · next hblank =>
      cases h
      exact ⟨⟨hblank, hacc⟩, [], (List.append_nil _).symm, Nat.zero_le _, rfl⟩
    · next hblank =>
      split at h
      · cases h
      · next b r₁ hread =>
        obtain ⟨hhead, front, rfl, hle, hbytes⟩ := ih h fun front hfront hne => by
          have hprefix := prefix_concat hfront hne
          by_cases heq : front = acc
          · exact heq ▸ hblank
          · exact hacc front hprefix heq
        refine ⟨hhead, b :: front, List.append_cons .. |>.symm, Nat.succ_le_succ hle, ?_⟩
        rw [bytes_of_readU8 hread, hbytes, List.cons_append]

/-- A head within the limit is read, however its bytes come. -/
theorem readHead_of_bytes (hhead : IsHead (acc ++ front)) (hle : front.length ≤ room)
    (h : bytes r = front ++ rest) :
    ∃ r', readHead r acc room = .ok (acc ++ front, r') ∧ bytes r' = rest := by
  induction front generalizing r acc room with
  | nil =>
    rw [List.append_nil] at hhead ⊢
    refine ⟨r, ?_, h⟩
    cases room with
    | zero | succ room => rw [readHead, if_pos hhead.blank]
  | cons b front ih =>
    cases room with
    | zero => exact absurd hle (Nat.not_succ_le_zero _)
    | succ room =>
      have hblank : ¬blankLine <:+ acc := hhead.first acc (List.prefix_append ..) (by simp)
      obtain ⟨r₁, hread, hbytes, -⟩ := readU8_of_cons h
      rw [List.append_cons] at hhead ⊢
      obtain ⟨r', hok, hrest⟩ := ih hhead (Nat.le_of_succ_le_succ hle) hbytes
      refine ⟨r', ?_, hrest⟩
      rw [readHead, if_neg hblank, hread]
      exact hok

end

/-! ## The fields -/

/-- The header lines are added one by one. -/
theorem addHeaders_eq_ok {lines : List (List Char)} {headers headers' : Headers} :
    addHeaders lines headers = .ok headers' ↔
      ∃ fields : List (String × String), lines.map headerField = fields.map some ∧
        headers' = fields.foldl addField headers := by
  induction lines generalizing headers with
  | nil =>
    rw [addHeaders]
    constructor
    · intro h
      exact ⟨[], rfl, (Except.ok.inj h).symm⟩
    · rintro ⟨fields, hfields, rfl⟩
      obtain rfl := List.map_eq_nil_iff.mp hfields.symm
      rfl
  | cons line lines ih =>
    rw [addHeaders]
    cases hline : headerField line with
    | none =>
      refine ⟨nofun, fun ⟨fields, hfields, _⟩ => ?_⟩
      cases fields with
      | nil => cases hfields
      | cons e fields =>
        rw [List.map_cons, hline] at hfields
        cases (List.cons.inj hfields).1
    | some e =>
      constructor
      · intro h
        obtain ⟨fields, hfields, rfl⟩ := ih.mp h
        exact ⟨e :: fields, by rw [List.map_cons, hline, hfields, List.map_cons], rfl⟩
      · rintro ⟨fields, hfields, rfl⟩
        cases fields with
        | nil => cases hfields
        | cons e' fields =>
          rw [List.map_cons, hline] at hfields
          obtain ⟨he, htail⟩ := List.cons.inj hfields
          obtain rfl := Option.some.inj he
          exact ih.mpr ⟨fields, htail, rfl⟩

/-- What the fields of a name say, in their order. -/
def values (name : String) (fields : List (String × String)) : List String :=
  (fields.filter (·.1 = name)).map (·.2)

/-- Values behind one that there is. -/
def joinBehind (old : Option String) (values : List String) : Option String :=
  values.foldl (fun old value => some (appended old value)) old

/-- A header has the values of its name, joined. -/
theorem getElem?_addFields (name : String) (fields : List (String × String)) (headers : Headers) :
    (fields.foldl addField headers)[name]? = joinBehind headers[name]? (values name fields) := by
  induction fields generalizing headers with
  | nil => rfl
  | cons e fields ih =>
    rw [List.foldl_cons, ih, addField, Std.ExtTreeMap.getElem?_insert, values, values]
    by_cases hname : e.1 = name
    · subst hname
      simp [joinBehind]
    · simp [hname]

/-- What stands between the commas of a value. -/
def tokens (value : String) : List (List Char) := value.toList.splitOn ','

private theorem tokens_append (old value : String) :
    tokens (old ++ "," ++ value) = tokens old ++ tokens value := by
  have hlist : (old ++ "," ++ value).toList = old.toList ++ ',' :: value.toList := by
    simp [String.toList_append]
  rw [tokens, hlist, List.splitOn_append_cons_self]
  rfl

/-- Values that are joined behind one add their tokens. -/
theorem joinBehind_some (old : String) (values : List String) :
    ∃ text, joinBehind (some old) values = some text ∧
      tokens text = tokens old ++ values.flatMap tokens := by
  induction values generalizing old with
  | nil => exact ⟨old, rfl, (List.append_nil _).symm⟩
  | cons value values ih =>
    obtain ⟨text, htext, htokens⟩ := ih (old ++ "," ++ value)
    refine ⟨text, htext, ?_⟩
    rw [htokens, tokens_append, List.append_assoc, List.flatMap_cons]

/-- Values that are joined have their tokens together. -/
theorem joinBehind_cons (value : String) (values : List String) :
    ∃ text, joinBehind none (value :: values) = some text ∧
      tokens text = (value :: values).flatMap tokens := joinBehind_some value values

/-- Nothing is joined just where no value is. -/
theorem joinBehind_eq_none (values : List String) :
    joinBehind none values = none ↔ values = [] := by
  cases values with
  | nil => exact ⟨fun _ => rfl, fun _ => rfl⟩
  | cons value values =>
    obtain ⟨text, htext, -⟩ := joinBehind_cons value values
    simp [htext]

private theorem tokens_ne_nil (value : String) : tokens value ≠ [] :=
  List.splitOn_ne_nil ',' value.toList

private theorem length_le_flatMap_tokens (values : List String) :
    values.length ≤ (values.flatMap tokens).length := by
  induction values with
  | nil => exact Nat.le_refl _
  | cons value values ih =>
    have hpos := List.length_pos_iff.mpr (tokens_ne_nil value)
    rw [List.flatMap_cons, List.length_append, List.length_cons]
    omega

/-- A value without commas comes from one field. -/
theorem joinBehind_eq_some (values : List String) {text : String} (hcomma : ',' ∉ text.toList) :
    joinBehind none values = some text ↔ values = [text] := by
  constructor
  · intro h
    cases values with
    | nil => cases h
    | cons value values =>
      obtain ⟨text', htext, htokens⟩ := joinBehind_cons value values
      cases htext.symm.trans h
      have hone : (tokens text).length = 1 := by
        rw [tokens, List.splitOn_eq_singleton hcomma]
        rfl
      have hle := length_le_flatMap_tokens (value :: values)
      rw [← htokens, hone, List.length_cons] at hle
      obtain rfl := List.eq_nil_of_length_eq_zero (show values.length = 0 by omega)
      exact congrArg (· :: []) (Option.some.inj h)
  · rintro rfl
    rfl

/-- Whether a token is the one that is expected. -/
def IsToken (expected : String) (token : List Char) : Prop :=
  lowercase (trim token) = lowercase expected.toList

/-- A token is looked for in every value of its header. -/
theorem hasToken_iff {headers : Headers} {name expected : String} {fields : List (String × String)}
    (h : headers = fields.foldl addField ∅) :
    hasToken headers name expected = true ↔
      ∃ value ∈ values name fields, ∃ token ∈ tokens value, IsToken expected token := by
  have hget := getElem?_addFields name fields ∅
  rw [Std.ExtTreeMap.getElem?_empty, ← h] at hget
  rw [hasToken, hget]
  cases hvalues : values name fields with
  | nil => simp [joinBehind]
  | cons value values =>
    obtain ⟨text, htext, htokens⟩ := joinBehind_cons value values
    rw [htext, Option.any_some, List.any_eq_true]
    have hmem (token : List Char) : token ∈ text.toList.splitOn ',' ↔
        ∃ value' ∈ value :: values, token ∈ tokens value' := by
      rw [← List.mem_flatMap, ← htokens]
      rfl
    simp only [hmem, decide_eq_true_eq, IsToken]
    constructor
    · rintro ⟨token, ⟨value', hvalue, htoken⟩, heq⟩
      exact ⟨value', hvalue, token, htoken, heq⟩
    · rintro ⟨value', hvalue, token, htoken, heq⟩
      exact ⟨token, ⟨value', hvalue, htoken⟩, heq⟩

end TgWsProxy.Upgrade
