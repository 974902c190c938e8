import Mathlib.Algebra.Group.Nat.Defs
import TgWsProxy.SavedConfig

/-!
# Requests to the panel

`read_request` and `hostname` of `web.rs`: a buffered reader, the head of a request up to
its blank line, its header fields with no name twice, and the host that a Host field names.
-/

namespace TgWsProxy.Web

open TgWsProxy.Core TgWsProxy.Config

/-! ## The reader -/

/-- A `BufReader` over a connection: what it holds, the stream behind it, and the error that
the stream ends with, if it does. -/
structure BufReader where
  buffered : Bytes := []
  source : Source
  failure : Option IoError := none

namespace BufReader

/-- The bytes that are still to be read. -/
def unread (r : BufReader) : Bytes := r.buffered ++ r.source.bytes

/-- The capacity of the buffer. -/
def capacity : Nat := 4096

/-- `fill_buf`. -/
def fillBuf (r : BufReader) : Except IoError (Bytes × BufReader) :=
  if r.buffered ≠ [] then .ok (r.buffered, r)
  else
    let (data, source) := r.source.read capacity
    match data, r.failure with
    | [], some e => .error e
    | data, _ => .ok (data, { r with buffered := data, source })

/-- `consume`. -/
def consume (r : BufReader) (count : Nat) : BufReader :=
  { r with buffered := r.buffered.drop count }

/-- `read_exact`: what is buffered, and as much of the stream as is missing. -/
def readExact (r : BufReader) (length : Nat) : Except IoError (Bytes × BufReader) :=
  if length ≤ r.unread.length then
    .ok (r.unread.take length,
      { r with
        buffered := r.buffered.drop length
        source := ⟨r.source.bytes.drop (length - r.buffered.length), r.source.grants⟩ })
  else .error (r.failure.getD ⟨.unexpectedEof, "early eof"⟩)

end BufReader

/-! ## The head -/

/-- The most bytes that a head may have. -/
def maxHead : Nat := 8192

/-- What ends a head. -/
def blankLine : Bytes := [13, 10, 13, 10]

/-- How many of the available bytes belong to the line. -/
def lineLength (available : Bytes) : Nat :=
  ((available.findIdx? (· = 10)).map (· + 1)).getD available.length

/-- A line of something is not empty. -/
theorem lineLength_pos {available : Bytes} (h : available ≠ []) : 0 < lineLength available := by
  rw [lineLength]
  cases available.findIdx? (· = 10) with
  | none => exact List.length_pos_iff.mpr h
  | some i => exact Nat.succ_pos i

/-- A line is no longer than what there is. -/
theorem lineLength_le (available : Bytes) : lineLength available ≤ available.length := by
  rw [lineLength]
  cases hfind : available.findIdx? (· = 10) with
  | none => exact Nat.le_refl _
  | some i => exact (List.findIdx?_eq_some_iff_getElem.mp hfind).1

/-- The loop of `read_request`: append line by line until there is a blank one. -/
def readHead (reader : BufReader) (head : Bytes) : Except IoError (Bytes × BufReader) :=
  match reader.fillBuf with
  | .error e => .error e
  | .ok (available, reader) =>
    if _h : available = [] then .error (Config.invalid "incomplete HTTP headers")
    else
      let take := lineLength available
      if _h : head.length + take > maxHead then .error (Config.invalid "HTTP headers too large")
      else
        let head := head ++ available.take take
        let reader := reader.consume take
        if blankLine <:+ head then .ok (head, reader) else readHead reader head
termination_by maxHead - head.length
decreasing_by
  have hpos := lineLength_pos ‹available ≠ []›
  have hle := lineLength_le available
  rw [List.length_append, List.length_take]
  omega

/-- `std::str::from_utf8`. -/
def fromUtf8 (bytes : Bytes) : Option String := String.fromUTF8? ⟨bytes.toArray⟩

/-- `split("\r\n")`. -/
def splitLines : List Char → List (List Char)
  | [] => [[]]
  | '\r' :: '\n' :: rest => [] :: splitLines rest
  | c :: rest =>
    match splitLines rest with
    | [] => [[c]]
    | line :: lines => (c :: line) :: lines

/-- `split_once`. -/
def splitOnce (separator : Char) (text : List Char) : Option (List Char × List Char) :=
  if separator ∈ text then
    some (text.takeWhile (· ≠ separator), (text.dropWhile (· ≠ separator)).tail)
  else none

/-- `to_ascii_lowercase`. -/
def lowercase (text : List Char) : String := String.ofList (text.map Char.toLower)

/-- Header fields by their names in lower case. -/
abbrev Headers := Std.ExtTreeMap String String

/-- The loop over the header lines. -/
def parseHeaders : List (List Char) → Headers → Except IoError Headers
  | [], headers => .ok headers
  | line :: lines, headers =>
    match splitOnce ':' line with
    | none => .error (Config.invalid "bad header")
    | some (key, value) =>
      if key = [] ∨ ¬key.all fun c => c.isAlphanum || c = '-' then
        .error (Config.invalid "bad header name")
      else if headers.contains (lowercase key) then .error (Config.invalid "duplicate header")
      else parseHeaders lines (headers.insert (lowercase key) (String.ofList (trim value)))

/-- `Request`. -/
structure Request where
  method : String
  path : String
  headers : Headers
  body : Bytes

/-- The length of the body. -/
def contentLength (headers : Headers) : Except IoError Nat :=
  match headers["content-length"]? with
  | none => .ok 0
  | some text =>
    match parseUnsigned (2 ^ 64) text with
    | .error _ => .error (Config.invalid "bad content length")
    | .ok length => .ok length

/-- What `read_request` makes of a head: the method, the path and the header fields. -/
def parseHead (head : Bytes) : Except IoError (String × String × Headers) :=
  match fromUtf8 head with
  | none => .error (Config.invalid "invalid HTTP headers")
  | some text =>
    let lines := splitLines text.toList
    match (lines.headD []).splitOn ' ' with
    | [method, path, version] =>
      if version ≠ "HTTP/1.1".toList then .error (Config.invalid "HTTP/1.1 required")
      else
        match parseHeaders (lines.tail.filter (· ≠ [])) ∅ with
        | .error e => .error e
        | .ok headers => .ok (String.ofList method, String.ofList path, headers)
    | _ => .error (Config.invalid "HTTP/1.1 required")

/-- `read_request`; `usize` is taken at 64 bits. -/
def readRequest (reader : BufReader) : Except IoError (Request × BufReader) := do
  let (head, reader) ← readHead reader []
  let (method, path, headers) ← parseHead head
  if headers.contains "transfer-encoding" then
    .error (Config.invalid "chunked requests are unsupported")
  else
    let length ← contentLength headers
    if length > maxBody then .error (Config.invalid "request body exceeds 32 KiB")
    else
      let (body, reader) ← reader.readExact length
      .ok (⟨method, path, headers, body⟩, reader)

/-! ## What is read -/

/-- A reader returns the front of what is unread, and keeps the rest. -/
theorem BufReader.fillBuf_unread {reader reader' : BufReader} {available : Bytes}
    (h : reader.fillBuf = .ok (available, reader')) :
    reader'.buffered = available ∧ reader'.unread = reader.unread := by
  rw [fillBuf] at h
  split at h
  · obtain ⟨rfl, rfl⟩ := Prod.mk.inj (Except.ok.inj h)
    exact ⟨rfl, rfl⟩
  · next hempty =>
    have hread := reader.source.read_append capacity
    dsimp only at h
    split at h
    · cases h
    · obtain ⟨rfl, rfl⟩ := Prod.mk.inj (Except.ok.inj h)
      refine ⟨rfl, ?_⟩
      rw [unread, unread, not_not.mp hempty, List.nil_append]
      exact hread

/-- What is consumed of the available bytes is a front of the stream. -/
theorem BufReader.fillBuf_consume {reader reader' : BufReader} {available : Bytes}
    (h : reader.fillBuf = .ok (available, reader')) (count : Nat) :
    reader.unread = available.take count ++ (reader'.consume count).unread := by
  obtain ⟨hbuffered, hunread⟩ := fillBuf_unread h
  rw [← hunread, unread, unread, consume, hbuffered, ← List.append_assoc, List.take_append_drop]

/-- A head is taken off the front of the stream, with its blank line. -/
theorem readHead_spec {reader reader' : BufReader} {head head' : Bytes}
    (h : readHead reader head = .ok (head', reader')) :
    blankLine <:+ head' ∧ head'.length ≤ maxHead ∧
      ∃ front, head' = head ++ front ∧ reader.unread = front ++ reader'.unread := by
  fun_induction readHead reader head with
  | case1 reader head e hfill => cases h
  | case2 reader head reader₁ hfill => cases h
  | case3 reader head available reader₁ hfill hsome take hlong => cases h
  | case4 reader head available reader₁ hfill hsome take hfits head₁ reader₂ hblank =>
    obtain ⟨rfl, rfl⟩ := Prod.mk.inj (Except.ok.inj h)
    refine ⟨hblank, ?_, _, rfl, BufReader.fillBuf_consume hfill take⟩
    rw [List.length_append, List.length_take]
    omega
  | case5 reader head available reader₁ hfill hsome take hfits head₁ reader₂ hblank ih =>
    obtain ⟨hsuffix, hlength, front, rfl, hunread⟩ := ih h
    refine ⟨hsuffix, hlength, available.take take ++ front, List.append_assoc .., ?_⟩
    rw [BufReader.fillBuf_consume hfill take, List.append_assoc, ← hunread]

/-- The field of a header line. -/
def field (line : List Char) : Option (String × String) :=
  (splitOnce ':' line).bind fun (key, value) =>
    if key = [] ∨ ¬key.all fun c => c.isAlphanum || c = '-' then none
    else some (lowercase key, String.ofList (trim value))

private theorem parseHeaders_cons {line : List Char} {lines : List (List Char)}
    {headers headers' : Headers} :
    parseHeaders (line :: lines) headers = .ok headers' ↔
      ∃ e, field line = some e ∧ headers[e.1]? = none ∧
        parseHeaders lines (headers.insert e.1 e.2) = .ok headers' := by
  rw [parseHeaders, field]
  cases splitOnce ':' line with
  | none => simp
  | some parts =>
    obtain ⟨key, value⟩ := parts
    dsimp only [Option.bind_some]
    split
    · simp
    · split
      · next hname => simp [Std.ExtTreeMap.contains_iff_mem.mp hname]
      · next hname => simp [Std.ExtTreeMap.contains_iff_mem.not.mp hname]

/-- The header lines are fields of different names, and these are added. -/
theorem parseHeaders_eq_ok {lines : List (List Char)} {headers headers' : Headers} :
    parseHeaders lines headers = .ok headers' ↔
      ∃ fields : List (String × String), lines.map field = fields.map some ∧
        (fields.map (·.1)).Nodup ∧ (∀ e ∈ fields, headers[e.1]? = none) ∧
        headers' = headers.insertMany fields := by
  induction lines generalizing headers with
  | nil =>
    rw [parseHeaders]
    constructor
    · intro h
      refine ⟨[], rfl, .nil, nofun, ?_⟩
      rw [Std.ExtTreeMap.insertMany_nil, Except.ok.inj h]
    · rintro ⟨fields, hfields, -, -, rfl⟩
      obtain rfl := List.map_eq_nil_iff.mp hfields.symm
      rw [Std.ExtTreeMap.insertMany_nil]
  | cons line lines ih =>
    rw [parseHeaders_cons]
    have hinsert (e e' : String × String) : (headers.insert e.1 e.2)[e'.1]? = none ↔
        e.1 ≠ e'.1 ∧ headers[e'.1]? = none := by
      rw [Std.ExtTreeMap.getElem?_insert]
      split
      · next heq => simp [Std.LawfulEqCmp.compare_eq_iff_eq.mp heq]
      · next hne => simp [Std.LawfulEqCmp.compare_eq_iff_eq.not.mp hne]
    constructor
    · rintro ⟨e, he, hnone, hlines⟩
      obtain ⟨fields, hfields, hnodup, hnew, rfl⟩ := ih.mp hlines
      have hfresh (e' : String × String) (he' : e' ∈ fields) := (hinsert e e').mp (hnew e' he')
      refine ⟨e :: fields, ?_, ?_, ?_, ?_⟩
      · rw [List.map_cons, List.map_cons, he, hfields]
      · rw [List.map_cons, List.nodup_cons]
        refine ⟨fun hmem => ?_, hnodup⟩
        obtain ⟨e', he', heq⟩ := List.mem_map.mp hmem
        exact (hfresh e' he').1 heq.symm
      · rw [List.forall_mem_cons]
        exact ⟨hnone, fun e' he' => (hfresh e' he').2⟩
      · rw [Std.ExtTreeMap.insertMany_cons]
    · rintro ⟨fields, hfields, hnodup, hnew, rfl⟩
      cases fields with
      | nil => cases hfields
      | cons e fields =>
        obtain ⟨he, hfields⟩ := List.cons.inj hfields
        obtain ⟨hnotMem, hnodup⟩ := List.nodup_cons.mp hnodup
        obtain ⟨hnone, hnew⟩ := List.forall_mem_cons.mp hnew
        refine ⟨e, he, hnone, ih.mpr ⟨fields, hfields, hnodup, fun e' he' => ?_, ?_⟩⟩
        · refine (hinsert e e').mpr ⟨fun heq => hnotMem ?_, hnew e' he'⟩
          exact List.mem_map.mpr ⟨e', he', heq.symm⟩
        · rw [Std.ExtTreeMap.insertMany_cons]

/-- A request and its header fields as the stream has them: a request line, header lines with
no name twice, a blank line, a body. -/
structure Request.Parses (request : Request) (stream : Bytes)
    (fields : List (String × String)) : Prop where
  exists_head : ∃ head rest text first lines, stream = head ++ request.body ++ rest ∧
    blankLine <:+ head ∧ head.length ≤ maxHead ∧ fromUtf8 head = some text ∧
    splitLines text.toList = first :: lines ∧
    first.splitOn ' ' = [request.method.toList, request.path.toList, "HTTP/1.1".toList] ∧
    (lines.filter (· ≠ [])).map field = fields.map some
  nodup : (fields.map (·.1)).Nodup
  headers : request.headers = .ofList fields

/-- A header of a parsed request is a field of its head. -/
theorem Request.Parses.mem_fields {request : Request} {stream : Bytes}
    {fields : List (String × String)} (h : request.Parses stream fields) {name value : String}
    (hget : request.headers[name]? = some value) : (name, value) ∈ fields := by
  rw [h.headers] at hget
  exact mem_of_getElem?_ofList hget

/-- What a head says that is parsed. -/
theorem parseHead_spec {head : Bytes} {method path : String} {headers : Headers}
    (h : parseHead head = .ok (method, path, headers)) :
    ∃ text first lines, fromUtf8 head = some text ∧ splitLines text.toList = first :: lines ∧
      first.splitOn ' ' = [method.toList, path.toList, "HTTP/1.1".toList] ∧
      parseHeaders (lines.filter (· ≠ [])) ∅ = .ok headers := by
  rw [parseHead] at h
  cases htext : fromUtf8 head with
  | none =>
    rw [htext] at h
    cases h
  | some text =>
    rw [htext] at h
    dsimp only at h
    split at h
    · next method' path' version hfirst =>
      split at h
      · cases h
      · next hversion =>
        cases hlines : splitLines text.toList with
        | nil =>
          rw [hlines] at hfirst
          cases hfirst
        | cons first lines =>
          rw [hlines] at hfirst h
          split at h
          · cases h
          · next headers' hheaders =>
            obtain ⟨rfl, heq⟩ := Prod.mk.inj (Except.ok.inj h)
            obtain ⟨rfl, rfl⟩ := Prod.mk.inj heq
            refine ⟨text, first, lines, rfl, hlines, ?_, hheaders⟩
            rw [String.toList_ofList, String.toList_ofList, ← not_not.mp hversion]
            exact hfirst
    · cases h

private theorem BufReader.readExact_eq_ok {reader reader' : BufReader} {length : Nat} {body : Bytes}
    (h : reader.readExact length = .ok (body, reader')) : ∃ rest, reader.unread = body ++ rest := by
  rw [readExact] at h
  split at h
  · obtain ⟨rfl, -⟩ := Prod.mk.inj (Except.ok.inj h)
    exact ⟨_, (List.take_append_drop length reader.unread).symm⟩
  · cases h

/-- A request that is read is parsed from what was unread. -/
theorem readRequest_spec {reader reader' : BufReader} {request : Request}
    (h : readRequest reader = .ok (request, reader')) :
    ∃ fields, request.Parses reader.unread fields := by
  obtain ⟨⟨head, reader₁⟩, hhead, h⟩ := bind_eq_ok.mp h
  obtain ⟨⟨method, path, headers⟩, hparse, h⟩ := bind_eq_ok.mp h
  dsimp only at h
  split at h
  · cases h
  obtain ⟨length, -, h⟩ := bind_eq_ok.mp h
  split at h
  · cases h
  obtain ⟨⟨body, reader₂⟩, hbody, h⟩ := bind_eq_ok.mp h
  obtain ⟨rfl, -⟩ := Prod.mk.inj (Except.ok.inj h)
  obtain ⟨hblank, hlength, front, hfront, hunread⟩ := readHead_spec hhead
  obtain rfl : head = front := hfront
  obtain ⟨rest, hrest⟩ := BufReader.readExact_eq_ok hbody
  obtain ⟨text, first, lines, htext, hlines, hfirst, hheaders⟩ := parseHead_spec hparse
  obtain ⟨fields, hfields, hnodup, -, rfl⟩ := parseHeaders_eq_ok.mp hheaders
  refine ⟨fields, ⟨head, rest, text, first, lines, ?_, hblank, hlength, htext, hlines, hfirst,
    hfields⟩, hnodup, Std.ExtTreeMap.ofList_eq_insertMany_empty.symm⟩
  rw [hunread, hrest, List.append_assoc]

/-! ## The host -/

/-- Whether a port is behind the colon. -/
def isPort (text : List Char) : Bool := (parseUnsigned (2 ^ 16) (String.ofList text)).isOk

/-- `hostname`. -/
def hostname (host : String) : Option String :=
  match host.toList with
  | '[' :: rest =>
    match rest.dropWhile (· ≠ ']') with
    | [] => none
    | _ :: tail =>
      if tail ≠ [] ∧ (tail.head? ≠ some ':' ∨ ¬isPort tail.tail) then none
      else
        let name := String.ofList (rest.takeWhile (· ≠ ']'))
        (IpAddr.parse name).map fun _ => name
  | text =>
    let (name, port) := ((splitOnce ':' text).map fun (a, b) => (a, some b)).getD (text, none)
    if port.any (¬isPort ·) then none
    else
      let name := String.ofList name
      if name = "localhost" ∨ (IpAddr.parse name).isSome ∨ validDomain name then some name else none

example : hostname "[::1]:1434" = some "::1" := by decide

example : hostname "example.org:bad" = none := by decide

end TgWsProxy.Web
