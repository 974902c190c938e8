import TgWsProxy.Upstream.Upgrade

/-!
# Answers to an upgrade

Which answers are accepted and which are followed elsewhere, said of the lines of the head; and that
the request which is written asks for just such an answer.
-/

namespace TgWsProxy.Upgrade

open TgWsProxy.Core
open TgWsProxy.AsyncRead
open TgWsProxy.Web (blankLine fromUtf8 splitLines splitOnce lowercase Headers joinLines headerLine
  lineEnd)

/-! ## What is accepted -/

/-- A status line with a code. -/
structure IsStatus (status : List Char) (code : Nat) : Prop where
  version : (status.splitOn ' ')[0]? = some "HTTP/1.1".toList ∨
    (status.splitOn ' ')[0]? = some "HTTP/1.0".toList
  code : ∃ text, (status.splitOn ' ')[1]? = some text ∧
    parseUnsigned (2 ^ 16) (String.ofList text) = .ok code

/-- A status line is read as its code. -/
theorem parseStatus_eq_ok {status : List Char} {code : Nat} :
    parseStatus status = .ok code ↔ IsStatus status code := by
  rw [parseStatus]
  split
  · next hversion => exact ⟨nofun, fun h => absurd h.version hversion⟩
  · next hversion =>
    have hversion := not_not.mp hversion
    cases htext : (status.splitOn ' ')[1]? with
    | none =>
      refine ⟨nofun, fun h => ?_⟩
      obtain ⟨text, hsome, -⟩ := h.code
      cases htext.symm.trans hsome
    | some text =>
      rw [Option.map_some]
      constructor
      · intro h
        split at h
        · next code' hparse =>
          cases h
          exact ⟨hversion, text, htext, Option.some.inj hparse⟩
        · cases h
      · rintro ⟨-, text', hsome, hparse⟩
        cases htext.symm.trans hsome
        rw [hparse]

/-- A head whose lines accept an upgrade under a key: two tokens, whichever fields they are in, one
proof, no extension, and no protocol but the one that was asked for. -/
structure Accepts (crates : Crates) (key : String) (head : Bytes)
    (fields : List (String × String)) : Prop where
  isHead : IsHead head
  short : head.length ≤ headerLimit
  lines : ∃ text status lines, fromUtf8 head = some text ∧
    splitLines text.toList = status :: lines ∧ IsStatus status 101 ∧
    (lines.filter (· ≠ [])).map headerField = fields.map some
  upgrade : ∃ value ∈ values "upgrade" fields, ∃ token ∈ tokens value, IsToken "websocket" token
  connection : ∃ value ∈ values "connection" fields, ∃ token ∈ tokens value, IsToken "upgrade" token
  accept : values "sec-websocket-accept" fields = [crates.accept key]
  extensions : values "sec-websocket-extensions" fields = []
  protocol : values "sec-websocket-protocol" fields = [] ∨
    values "sec-websocket-protocol" fields = ["binary"]

variable {crates : Crates} {key : String}

/-- An answer is accepted by its code, its tokens and its key. -/
theorem validateUpgrade_eq_ok {code : Nat} {headers : Headers} {fields : List (String × String)}
    (hcomma : ',' ∉ (crates.accept key).toList) (h : headers = fields.foldl addField ∅) :
    validateUpgrade crates code headers key = .ok () ↔ code = 101 ∧
      (∃ value ∈ values "upgrade" fields, ∃ token ∈ tokens value, IsToken "websocket" token) ∧
      (∃ value ∈ values "connection" fields, ∃ token ∈ tokens value, IsToken "upgrade" token) ∧
      values "sec-websocket-accept" fields = [crates.accept key] ∧
      values "sec-websocket-extensions" fields = [] ∧
      (values "sec-websocket-protocol" fields = [] ∨
        values "sec-websocket-protocol" fields = ["binary"]) := by
  have hget (name : String) : headers[name]? = joinBehind none (values name fields) := by
    rw [h, getElem?_addFields, Std.ExtTreeMap.getElem?_empty]
  have haccept := joinBehind_eq_some (values "sec-websocket-accept" fields) hcomma
  have hextensions := joinBehind_eq_none (values "sec-websocket-extensions" fields)
  have hnone := joinBehind_eq_none (values "sec-websocket-protocol" fields)
  have hbinary := joinBehind_eq_some (values "sec-websocket-protocol" fields)
    (show ',' ∉ "binary".toList by decide)
  rw [← hget] at haccept hextensions hnone hbinary
  rw [← hasToken_iff h, ← hasToken_iff h, ← haccept, ← hextensions, ← hnone, ← hbinary]
  have hcontains : headers.contains "sec-websocket-extensions" = true ↔
      headers["sec-websocket-extensions"]? ≠ none := by
    rw [Std.ExtTreeMap.contains_eq_isSome_getElem?, Option.isSome_iff_ne_none]
  have hprotocol : headers["sec-websocket-protocol"]?.any (· ≠ "binary") = false ↔
      headers["sec-websocket-protocol"]? = none ∨
        headers["sec-websocket-protocol"]? = some "binary" := by
    cases headers["sec-websocket-protocol"]? with
    | none => simp
    | some value => simp
  rw [validateUpgrade]
  split
  · next hcode => exact ⟨nofun, fun h => absurd h.1 hcode⟩
  · next hcode =>
    split
    · next hbad =>
      refine ⟨nofun, fun ⟨_, hupgrade, hconnection, hproof, _⟩ => ?_⟩
      simp [hupgrade, hconnection, hproof] at hbad
    · next hgood =>
      obtain ⟨⟨hupgrade, hconnection⟩, hproof⟩ : (hasToken headers "upgrade" "websocket" = true ∧
          hasToken headers "connection" "upgrade" = true) ∧
            headers["sec-websocket-accept"]? = some (crates.accept key) := by
        simpa using hgood
      split
      · next hsome =>
        exact ⟨nofun, fun h => absurd h.2.2.2.2.1 (hcontains.mp hsome)⟩
      · next hsome =>
        have hextension := not_not.mp (mt hcontains.mpr hsome)
        split
        · next hother =>
          exact ⟨nofun, fun h => absurd (hprotocol.mpr h.2.2.2.2.2)
            (ne_of_eq_of_ne hother Bool.true_eq_false.mp)⟩
        · next hother =>
          exact ⟨fun _ => ⟨not_not.mp hcode, hupgrade, hconnection, hproof, hextension,
            hprotocol.mp (Bool.eq_false_of_not_eq_true hother)⟩, fun _ => rfl⟩

/-- Any other code is an `HttpError`. -/
theorem code_of_validateUpgrade {code : Nat} {headers : Headers}
    (h : validateUpgrade crates code headers key = .ok ()) : code = 101 := by
  by_contra hcode
  rw [validateUpgrade, if_pos hcode] at h
  cases h

/-- A head is read line by line. -/
theorem parseHead_eq_ok {head : Bytes} {code : Nat} {headers : Headers} :
    parseHead head = .ok (code, headers) ↔ ∃ fields : List (String × String),
      (∃ text status lines, fromUtf8 head = some text ∧ splitLines text.toList = status :: lines ∧
        IsStatus status code ∧ (lines.filter (· ≠ [])).map headerField = fields.map some) ∧
      headers = fields.foldl addField ∅ := by
  rw [parseHead]
  cases htext : fromUtf8 head with
  | none =>
    refine ⟨nofun, fun ⟨fields, ⟨text, _, _, hsome, _⟩, _⟩ => ?_⟩
    cases hsome
  | some text =>
    constructor
    · intro h
      obtain ⟨code', hcode, h⟩ := bind_eq_ok.mp h
      obtain ⟨headers', hheaders, h⟩ := bind_eq_ok.mp h
      cases h
      obtain ⟨fields, hfields, rfl⟩ := addHeaders_eq_ok.mp hheaders
      cases hlines : splitLines text.toList with
      | nil =>
        rw [hlines] at hcode
        cases hcode
      | cons status lines =>
        rw [hlines] at hcode hfields
        exact ⟨fields, ⟨text, status, lines, rfl, hlines, parseStatus_eq_ok.mp hcode, hfields⟩, rfl⟩
    · rintro ⟨fields, ⟨text', status, lines, hsome, hlines, hstatus, hfields⟩, rfl⟩
      obtain rfl := Option.some.inj hsome
      refine bind_eq_ok.mpr ⟨code, ?_, bind_eq_ok.mpr ⟨fields.foldl addField ∅, ?_, rfl⟩⟩
      · rw [hlines]
        exact parseStatus_eq_ok.mpr hstatus
      · rw [hlines]
        exact addHeaders_eq_ok.mpr ⟨fields, hfields, rfl⟩

/-- What `validate_upgrade` is called for. -/
theorem readHttpHeaders_eq_ok {R : Type} [AsyncRead R] {r r' : R} {code : Nat} {headers : Headers} :
    readHttpHeaders r = .ok ((code, headers), r') ↔ ∃ head,
      readHead r [] headerLimit = .ok (head, r') ∧ parseHead head = .ok (code, headers) := by
  constructor
  · intro h
    obtain ⟨⟨head, r₁⟩, hhead, h⟩ := bind_eq_ok.mp h
    obtain ⟨parsed, hparsed, h⟩ := bind_eq_ok.mp h
    cases h
    exact ⟨head, hhead, hparsed⟩
  · rintro ⟨head, hhead, hparsed⟩
    exact bind_eq_ok.mpr ⟨(head, r'), hhead, bind_eq_ok.mpr ⟨(code, headers), hparsed, rfl⟩⟩

private theorem eq_ok_of_toOption {ε α : Type} {x : Except ε α} {a : α} (h : x.toOption = some a) :
    x = .ok a := by
  cases x with
  | error e => cases h
  | ok a' => exact congrArg _ (Option.some.inj h)

/-- An upgrade succeeds exactly where the targets are clean and the stream begins with a head that
accepts it; the reader is left at the byte behind that head, however the bytes arrive. -/
theorem upgradeAccepted {R : Type} [AsyncRead R] (request : WsRequest) (random : Block 16)
    (wire : R) (hcomma : ∀ data, ',' ∉ (crates.encode data).toList) (rest : Bytes) :
    (∃ wire', (connectPort crates request random wire).2 = .ok wire' ∧ bytes wire' = rest) ↔
      (∀ target ∈ [request.host, request.domain, request.sni, request.path],
        badTarget target = false) ∧
      ∃ head fields, Accepts crates (crates.encode random.val) head fields ∧
        bytes wire = head ++ rest := by
  rw [connectPort, ← any_badTarget]
  constructor
  · rintro ⟨wire', h, rfl⟩
    split at h
    · cases h
    · next hclean =>
      refine ⟨Bool.eq_false_of_not_eq_true hclean, ?_⟩
      cases hread : readHttpHeaders wire with
      | error e =>
        rw [hread] at h
        cases h
      | ok parsed =>
        obtain ⟨⟨code, headers⟩, wire₁⟩ := parsed
        rw [hread] at h
        obtain ⟨⟨⟩, hvalid, rfl⟩ := map_eq_ok.mp h
        obtain ⟨head, hhead, hparsed⟩ := readHttpHeaders_eq_ok.mp hread
        obtain rfl := code_of_validateUpgrade hvalid
        obtain ⟨fields, hlines, hfields⟩ := parseHead_eq_ok.mp hparsed
        obtain ⟨-, hupgrade, hconnection, haccept, hextensions, hprotocol⟩ :=
          (validateUpgrade_eq_ok (hcomma _) hfields).mp hvalid
        obtain ⟨hfirst, front, rfl, hle, hbytes⟩ := readHead_ok hhead not_blankLine_nil
        exact ⟨head, fields, ⟨hfirst, hle, hlines, hupgrade, hconnection, haccept, hextensions,
          hprotocol⟩, hbytes⟩
  · rintro ⟨hclean, head, fields, haccepts, hbytes⟩
    obtain ⟨wire', hhead, hrest⟩ := readHead_of_bytes
      (show IsHead ([] ++ head) from haccepts.isHead) haccepts.short hbytes
    have hread := readHttpHeaders_eq_ok.mpr
      ⟨head, hhead, parseHead_eq_ok.mpr ⟨fields, haccepts.lines, rfl⟩⟩
    have hvalid : validateUpgrade crates 101 (fields.foldl addField ∅) (crates.encode random.val) =
        .ok () :=
      (validateUpgrade_eq_ok (hcomma _) rfl).mpr ⟨rfl, haccepts.upgrade, haccepts.connection,
        haccepts.accept, haccepts.extensions, haccepts.protocol⟩
    refine ⟨wire', ?_, hrest⟩
    rw [if_neg (by rw [hclean]; exact Bool.false_ne_true)]
    dsimp only
    rw [hread]
    dsimp only
    rw [hvalid]
    rfl

/-- SHA-1 and Base64 on the sample of the tests. -/
def sampleCrates : Crates where
  sha1 _ :=
    [179, 122, 79, 44, 192, 98, 79, 22, 144, 246, 70, 6, 207, 56, 89, 69, 178, 190, 196, 234]
  encode data :=
    if data.length = 16 then "dGhlIHNhbXBsZSBub25jZQ==" else "s3pPLMBiTxaQ9kYGzzhZRbK+xOo="

/-- "the sample nonce". -/
def sampleNonce : Block 16 :=
  ⟨[116, 104, 101, 32, 115, 97, 109, 112, 108, 101, 32, 110, 111, 110, 99, 101], rfl⟩

def sampleRequest : WsRequest where
  host := "149.154.167.220"
  domain := "kws2.web.telegram.org"
  sni := "kws2.web.telegram.org"
  path := "/apiws"
  direct := true
  secure := true

/-- An answer whose `Connection` fields are two, and the first frame behind it. -/
def sampleWire : Bytes :=
  encodeUtf8 (joinLines ["HTTP/1.1 101".toList, "Upgrade: WebSocket".toList,
    "Connection: TE".toList, "Connection: Upgrade".toList,
    "Sec-WebSocket-Accept: s3pPLMBiTxaQ9kYGzzhZRbK+xOo=".toList] ++ lineEnd) ++ [130, 0]

private theorem notMem_encode_sample (data : Bytes) :
    ',' ∉ (sampleCrates.encode data).toList ∧ '\r' ∉ (sampleCrates.encode data).toList := by
  simp only [sampleCrates]
  split
  · decide
  · decide

/-- The sample answer is accepted. -/
theorem upgradeAccepted_sample :
    ∃ head fields, Accepts sampleCrates "dGhlIHNhbXBsZSBub25jZQ==" head fields ∧
      sampleWire = head ++ [130, 0] := by
  have hcomma (data : Bytes) := (notMem_encode_sample data).1
  have hok : ((connectPort sampleCrates sampleRequest sampleNonce
      (⟨⟨sampleWire, []⟩, none⟩ : Stream)).2.toOption.map bytes) = some [130, 0] := by
    decide +kernel
  obtain ⟨wire', hwire, hrest⟩ := Option.map_eq_some_iff.mp hok
  exact ((upgradeAccepted sampleRequest sampleNonce (⟨⟨sampleWire, []⟩, none⟩ : Stream) hcomma
    [130, 0]).mp ⟨wire', eq_ok_of_toOption hwire, hrest⟩).2

/-! ## What redirects -/

/-- A head that answers with a code, whatever its fields are. -/
structure Answers (head : Bytes) (code : Nat) : Prop where
  isHead : IsHead head
  short : head.length ≤ headerLimit
  lines : ∃ fields : List (String × String), ∃ text status lines, fromUtf8 head = some text ∧
    splitLines text.toList = status :: lines ∧ IsStatus status code ∧
    (lines.filter (· ≠ [])).map headerField = fields.map some

/-- The codes of `is_redirect`. -/
def redirects : List Nat := [301, 302, 303, 307, 308]

/-- An answer that is refused redirects by its code only. -/
theorem isRedirect_of_validateUpgrade {code : Nat} {headers : Headers} {e : WsError}
    (h : validateUpgrade crates code headers key = .error e) :
    isRedirect e = true ↔ code ∈ redirects := by
  rw [validateUpgrade] at h
  split at h
  · cases h
    exact decide_eq_true_iff
  · next hcode =>
    have hnone : code ∉ redirects := by
      rw [not_not.mp hcode]
      decide
    have hstatus {e' : IoError} (he : e = { toIoError := e' }) : ¬isRedirect e = true := by
      rw [he]
      exact Bool.false_ne_true
    split at h
    · exact iff_of_false (hstatus (Except.error.inj h).symm) hnone
    · split at h
      · exact iff_of_false (hstatus (Except.error.inj h).symm) hnone
      · split at h
        · exact iff_of_false (hstatus (Except.error.inj h).symm) hnone
        · cases h

/-- A code of a redirect is refused whatever the headers say. -/
theorem validateUpgrade_of_redirects {code : Nat} (h : code ∈ redirects) (headers : Headers) :
    validateUpgrade crates code headers key = .error (httpError code) := by
  rw [validateUpgrade, if_pos]
  rintro rfl
  exact absurd h (by decide)

/-- An upgrade fails with a redirect exactly where its peer answers with one: no failure of the
transport, no head that is refused and no proof that is wrong is taken for it. -/
theorem upgradeRedirected {R : Type} [AsyncRead R] (request : WsRequest) (random : Block 16)
    (wire : R) :
    (∃ e, (connectPort crates request random wire).2 = .error e ∧ isRedirect e = true) ↔
      (∀ target ∈ [request.host, request.domain, request.sni, request.path],
        badTarget target = false) ∧
      ∃ head code rest, Answers head code ∧ code ∈ redirects ∧ bytes wire = head ++ rest := by
  rw [connectPort, ← any_badTarget]
  constructor
  · rintro ⟨e, h, hredirect⟩
    split at h
    · cases h
      cases hredirect
    · next hclean =>
      refine ⟨Bool.eq_false_of_not_eq_true hclean, ?_⟩
      cases hread : readHttpHeaders wire with
      | error e' =>
        rw [hread] at h
        cases h
        cases hredirect
      | ok parsed =>
        obtain ⟨⟨code, headers⟩, wire₁⟩ := parsed
        rw [hread] at h
        obtain ⟨head, hhead, hparsed⟩ := readHttpHeaders_eq_ok.mp hread
        obtain ⟨fields, hlines, -⟩ := parseHead_eq_ok.mp hparsed
        obtain ⟨hfirst, front, rfl, hle, hbytes⟩ := readHead_ok hhead not_blankLine_nil
        refine ⟨head, code, bytes wire₁, ⟨hfirst, hle, fields, hlines⟩, ?_, hbytes⟩
        dsimp only at h
        cases hvalid : validateUpgrade crates code headers (crates.encode random.val) with
        | error e' =>
          rw [hvalid] at h
          cases h
          exact (isRedirect_of_validateUpgrade hvalid).mp hredirect
        | ok =>
          rw [hvalid] at h
          cases h
  · rintro ⟨hclean, head, code, rest, hanswers, hcode, hbytes⟩
    obtain ⟨fields, hlines⟩ := hanswers.lines
    obtain ⟨wire', hhead, -⟩ := readHead_of_bytes
      (show IsHead ([] ++ head) from hanswers.isHead) hanswers.short hbytes
    have hread := readHttpHeaders_eq_ok.mpr
      ⟨head, hhead, parseHead_eq_ok.mpr ⟨fields, hlines, rfl⟩⟩
    refine ⟨httpError code, ?_, decide_eq_true hcode⟩
    rw [if_neg (by rw [hclean]; exact Bool.false_ne_true)]
    dsimp only
    rw [hread]
    dsimp only
    rw [validateUpgrade_of_redirects hcode]
    rfl

/-! ## What is asked for -/

/-- The fields of the request. -/
def requestFields (domain key : String) : List (List Char × List Char) :=
  [("Host".toList, ' ' :: domain.toList), ("Upgrade".toList, " websocket".toList),
    ("Connection".toList, " Upgrade".toList), ("Sec-WebSocket-Key".toList, ' ' :: key.toList),
    ("Sec-WebSocket-Version".toList, " 13".toList),
    ("Sec-WebSocket-Protocol".toList, " binary".toList)]

/-- Its first line. -/
def requestLine (path : String) : List Char :=
  [' '].intercalate ["GET".toList, path.toList, "HTTP/1.1".toList]

section

variable {get http host upgrade websocket connection name version protocol binary : List Char}
  {a b c d upgrade' thirteen : List Char}

/-- The pieces of the request are those of its lines, whatever the texts are. -/
theorem pieces_eq_lines (hget : a = get ++ [' '])
    (hhost : b = ' ' :: (http ++ (lineEnd ++ (host ++ [':', ' ']))))
    (hupgrade : c = lineEnd ++ (upgrade ++ (':' :: (websocket ++ (lineEnd ++
      (connection ++ (':' :: (upgrade' ++ (lineEnd ++ (name ++ [':', ' ']))))))))))
    (hversion : d = lineEnd ++ (version ++ (':' :: (thirteen ++ (lineEnd ++
      (protocol ++ (':' :: (binary ++ (lineEnd ++ lineEnd)))))))))
    (path domain key : List Char) :
    a ++ path ++ b ++ domain ++ c ++ key ++ d = joinLines ([' '].intercalate [get, path, http] ::
      [(host, ' ' :: domain), (upgrade, websocket), (connection, upgrade'), (name, ' ' :: key),
        (version, thirteen), (protocol, binary)].map fun f => headerLine f.1 f.2) ++ lineEnd := by
  subst hget hhost hupgrade hversion
  simp only [joinLines, headerLine, List.intercalate, List.intersperse, List.map_cons, List.map_nil,
    List.flatMap_cons, List.flatMap_nil, List.flatten_cons, List.flatten_nil, List.append_assoc,
    List.cons_append, List.nil_append, List.append_nil]

end

/-- The request by its lines. -/
theorem requestText_eq (path domain key : String) :
    requestText path domain key = joinLines (requestLine path ::
      (requestFields domain key).map fun f => headerLine f.1 f.2) ++ lineEnd :=
  pieces_eq_lines (by decide +kernel) (by decide +kernel) (by decide +kernel) (by decide +kernel) ..

private theorem notMem_of_clean {target : String} (h : badTarget target = false) {b : UInt8}
    (hb : b ≤ 32) : asciiChar b ∉ target.toList := by
  intro hmem
  have hascii : b.toNat < 128 :=
    Nat.lt_of_le_of_lt (UInt8.le_iff_toNat_le.mp hb) (by decide)
  have hclean := List.any_eq_false.mp h b ((mem_encodeUtf8 hascii).mpr hmem)
  simp [hb] at hclean

/-- The names are tokens. -/
theorem names_requestFields (domain key : String) : ∀ f ∈ requestFields domain key,
    f.1 ≠ [] ∧ (f.1.all fun c => c.isAlphanum || c = '-') ∧ '\r' ∉ f.1 := by
  simp only [requestFields, List.forall_mem_cons, List.not_mem_nil, false_imp_iff, implies_true,
    and_true]
  decide

private theorem values_requestFields {domain key : String} (hdomain : '\r' ∉ domain.toList)
    (hkey : '\r' ∉ key.toList) : ∀ f ∈ requestFields domain key, '\r' ∉ f.2 := by
  have hblank {text : List Char} (h : '\r' ∉ text) : '\r' ∉ ' ' :: text :=
    List.not_mem_cons_of_ne_of_not_mem (by decide) h
  simp only [requestFields, List.forall_mem_cons, List.not_mem_nil, false_imp_iff, implies_true,
    and_true]
  exact ⟨hblank hdomain, by decide, by decide, hblank hkey, by decide, by decide⟩

/-- No line of the request is broken. -/
theorem lines_request {path domain key : String} (hpath : '\r' ∉ path.toList)
    (hdomain : '\r' ∉ domain.toList) (hkey : '\r' ∉ key.toList) :
    ∀ line ∈ requestLine path :: (requestFields domain key).map (fun f => headerLine f.1 f.2),
      '\r' ∉ line := by
  rw [List.forall_mem_cons]
  constructor
  · simp only [requestLine, List.intercalate, List.intersperse, List.flatten_cons,
      List.flatten_nil, List.append_nil, List.mem_append, not_or]
    exact ⟨by decide, by decide, hpath, by decide, by decide⟩
  · intro line hline
    obtain ⟨f, hf, rfl⟩ := List.mem_map.mp hline
    rw [headerLine, List.mem_append, List.mem_cons, not_or, not_or]
    exact ⟨(names_requestFields domain key f hf).2.2, by decide,
      values_requestFields hdomain hkey f hf⟩

/-- A peer that reads lines and fields reads a `GET` of the path with these six fields and no other:
neither the domain nor the path breaks out of its line. -/
theorem requestRead {R : Type} [AsyncRead R] (request : WsRequest) (random : Block 16) (wire : R)
    (hkey : ∀ data, '\r' ∉ (crates.encode data).toList)
    (hclean : ∀ target ∈ [request.host, request.domain, request.sni, request.path],
      badTarget target = false) :
    Web.parseHead (connectPort crates request random wire).1 = .ok ("GET", request.path, .ofList
      ((requestFields request.domain (crates.encode random.val)).map fun f =>
        (lowercase f.1, String.ofList (trim f.2)))) := by
  have hany := any_badTarget.mpr hclean
  have hpath : badTarget request.path = false := hclean _ (by simp)
  have hdomain : badTarget request.domain = false := hclean _ (by simp)
  have hsent : (connectPort crates request random wire).1 =
      encodeUtf8 (requestText request.path request.domain (crates.encode random.val)) := by
    rw [connectPort, if_neg (by rw [hany]; exact Bool.false_ne_true)]
  have hfeed : (13 : UInt8) ≤ 32 := by decide
  have hlines := lines_request (notMem_of_clean hpath hfeed) (notMem_of_clean hdomain hfeed)
    (hkey random.val)
  rw [hsent]
  generalize crates.encode random.val = key at hlines ⊢
  refine Web.parseHead_eq_ok.mpr ⟨_, ⟨String.ofList (requestText request.path request.domain key),
    requestLine request.path, (requestFields request.domain key).map
      (fun f => headerLine f.1 f.2) ++ [[], []], ?_, ?_, ?_, ?_⟩, ?_, rfl⟩
  · obtain ⟨text, htext, hchars⟩ := Option.map_eq_some_iff.mp
      (decodeUtf8_encodeUtf8 (requestText request.path request.domain key))
    rw [fromUtf8, htext, ← hchars, String.ofList_toList]
  · rw [String.toList_ofList, requestText_eq, Web.splitLines_joinLines hlines]
    rfl
  · refine List.splitOn_intercalate ' ' ?_ (List.cons_ne_nil _ _)
    simp only [List.forall_mem_cons, List.not_mem_nil, false_imp_iff, implies_true, and_true]
    exact ⟨by decide, notMem_of_clean hpath (show (32 : UInt8) ≤ 32 by decide), by decide⟩
  · rw [List.filter_append, List.filter_eq_self.mpr,
      show [[], []].filter (· ≠ ([] : List Char)) = []
      from rfl, List.append_nil, List.map_map, List.map_map]
    rotate_left
    · intro line hline
      obtain ⟨f, -, rfl⟩ := List.mem_map.mp hline
      exact decide_eq_true (List.append_ne_nil_of_right_ne_nil _ (List.cons_ne_nil _ _))
    refine List.map_congr_left fun f hf => ?_
    obtain ⟨hne, hname, -⟩ := names_requestFields request.domain key f hf
    exact Web.field_headerLine hne hname f.2
  · have hnames : (((requestFields request.domain key).map fun f =>
        (lowercase f.1, String.ofList (trim f.2))).map (·.1)) =
          ["host", "upgrade", "connection", "sec-websocket-key", "sec-websocket-version",
            "sec-websocket-protocol"] := rfl
    rw [hnames]
    decide

/-- The sample request is read as a `GET` with its fields. -/
theorem requestRead_sample :
    Web.parseHead (connectPort sampleCrates sampleRequest sampleNonce
      (⟨⟨sampleWire, []⟩, none⟩ : Stream)).1 = .ok ("GET", "/apiws", .ofList
        ((requestFields "kws2.web.telegram.org" "dGhlIHNhbXBsZSBub25jZQ==").map fun f =>
          (lowercase f.1, String.ofList (trim f.2)))) :=
  requestRead sampleRequest sampleNonce _ (fun data => (notMem_encode_sample data).2)
    (by decide +kernel)

end TgWsProxy.Upgrade
