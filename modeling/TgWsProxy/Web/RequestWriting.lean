import TgWsProxy.Web.RequestParsing

/-!
# Requests that are written out

A request that is written out, header names in any case and blanks around the values, is read back
as it was.
-/

namespace TgWsProxy.Web

open TgWsProxy.Core TgWsProxy.Config

/-! ## What is written out -/

/-- A request as it is written out: its header names in any case, its values with the blanks
around them. -/
structure Message where
  method : List Char
  path : List Char
  fields : List (List Char × List Char)
  body : Bytes

/-- A header line. -/
def headerLine (name value : List Char) : List Char := name ++ ':' :: value

/-- The end of a line. -/
def lineEnd : List Char := ['\r', '\n']

/-- Lines, each one ended. -/
def joinLines (lines : List (List Char)) : List Char := lines.flatMap (· ++ lineEnd)

namespace Message

variable (m : Message)

/-- The request line. -/
def requestLine : List Char := [' '].intercalate [m.method, m.path, "HTTP/1.1".toList]

def headerLines : List (List Char) := m.fields.map fun f => headerLine f.1 f.2

/-- The lines of the head and a blank one. -/
def head : List Char := joinLines (m.requestLine :: m.headerLines) ++ lineEnd

/-- The bytes of a message. -/
def render : Bytes := encodeUtf8 m.head ++ m.body

/-- The request that it stands for. -/
def request : Request where
  method := String.ofList m.method
  path := String.ofList m.path
  headers := .ofList (m.fields.map fun f => (lowercase f.1, String.ofList (trim f.2)))
  body := m.body

/-- A message that keeps to the form and the limits of a request. -/
structure WellFormed : Prop where
  method : ∀ c ∈ m.method, c ≠ ' ' ∧ c ≠ '\r' ∧ c ≠ '\n'
  path : ∀ c ∈ m.path, c ≠ ' ' ∧ c ≠ '\r' ∧ c ≠ '\n'
  names : ∀ f ∈ m.fields, f.1 ≠ [] ∧ f.1.all fun c => c.isAlphanum || c = '-'
  values : ∀ f ∈ m.fields, ∀ c ∈ f.2, c ≠ '\r' ∧ c ≠ '\n'
  nodup : (m.fields.map fun f => lowercase f.1).Nodup
  transferEncoding : m.request.headers["transfer-encoding"]? = none
  head_le : (encodeUtf8 m.head).length ≤ maxHead
  body : contentLength m.request.headers = .ok m.body.length
  body_le : m.body.length ≤ maxBody

end Message

/-- The first line of a text. -/
theorem splitLines_append {line : List Char} (h : '\r' ∉ line) (rest : List Char) :
    splitLines (line ++ lineEnd ++ rest) = line :: splitLines rest := by
  induction line with
  | nil => rfl
  | cons c line ih =>
    rw [List.mem_cons, not_or] at h
    rw [List.cons_append, List.cons_append, splitLines, ih h.2]
    exact fun _ hcr => absurd hcr.symm h.1

/-- Lines that were joined are split again. -/
theorem splitLines_joinLines {lines : List (List Char)} (h : ∀ line ∈ lines, '\r' ∉ line)
    (rest : List Char) : splitLines (joinLines lines ++ rest) = lines ++ splitLines rest := by
  induction lines with
  | nil => rfl
  | cons line lines ih =>
    obtain ⟨hline, hlines⟩ := List.forall_mem_cons.mp h
    rw [joinLines, List.flatMap_cons, List.append_assoc, splitLines_append hline]
    exact congrArg (line :: ·) (ih hlines)

private theorem splitOnce_append {key : List Char} {separator : Char} (h : separator ∉ key)
    (value : List Char) : splitOnce separator (key ++ separator :: value) = some (key, value) := by
  have hkey : ∀ c ∈ key, decide (c ≠ separator) = true := fun c hc =>
    decide_eq_true fun heq => h (heq ▸ hc)
  rw [splitOnce, if_pos (by simp), List.takeWhile_append_of_pos hkey,
    List.dropWhile_append_of_pos hkey]
  simp

/-- A header line is read as its field. -/
theorem field_headerLine {name : List Char} (hne : name ≠ [])
    (hname : name.all fun c => c.isAlphanum || c = '-') (value : List Char) :
    field (headerLine name value) = some (lowercase name, String.ofList (trim value)) := by
  have hcolon : ':' ∉ name := fun hmem => by
    have := List.all_eq_true.mp hname ':' hmem
    simp at this
  rw [field, headerLine, splitOnce_append hcolon, Option.bind_some]
  exact if_neg (not_or.mpr ⟨hne, not_not.mpr hname⟩)

/-! ## Lines as bytes -/

/-- `\r\n`. -/
def crlf : Bytes := [13, 10]

/-- A line that is not blank goes into the head whole. -/
theorem cutHead_line (failure : Option IoError) (acc rest : Bytes) {line : Bytes} (hne : line ≠ [])
    (hline : 10 ∉ line) (hle : (acc ++ (line ++ crlf)).length ≤ maxHead) :
    cutHead failure acc (line ++ crlf ++ rest) = cutHead failure (acc ++ (line ++ crlf)) rest := by
  have hfront : ∀ b ∈ (line ++ crlf).dropLast, b ≠ 10 := by
    intro b hb
    rw [List.dropLast_append_of_ne_nil (by decide), List.mem_append] at hb
    rcases hb with hb | hb
    · exact fun heq => hline (heq ▸ hb)
    · rw [List.mem_singleton.mp hb]
      decide
  have hblank : ¬blankLine <:+ acc ++ (line ++ crlf) := by
    intro hsuffix
    rw [← List.append_assoc] at hsuffix
    have hends : crlf <:+ acc ++ line := List.suffix_append_self_iff.mp hsuffix
    have hlast := hends.getLast (List.cons_ne_nil _ _)
    rw [List.getLast_append_of_ne_nil _ hne] at hlast
    have hmem := List.getLast_mem hne
    rw [← hlast] at hmem
    exact hline hmem
  rw [cutHead_append failure acc _ rest (by simp [crlf]) hfront, if_neg, if_neg hblank]
  rw [List.length_append] at hle
  exact Nat.not_lt.mpr hle

/-- So do all the lines up to the blank one, which ends the head. -/
theorem cutHead_lines (failure : Option IoError) (acc rest : Bytes) {lines : List Bytes}
    (hlines : ∀ line ∈ lines, line ≠ [] ∧ 10 ∉ line) (hacc : crlf <:+ acc)
    (hle : (acc ++ (lines.flatMap (· ++ crlf) ++ crlf)).length ≤ maxHead) :
    cutHead failure acc (lines.flatMap (· ++ crlf) ++ crlf ++ rest) =
      .ok (acc ++ (lines.flatMap (· ++ crlf) ++ crlf), rest) := by
  induction lines generalizing acc with
  | nil =>
    have hblank : crlf ++ crlf <:+ acc ++ crlf := List.suffix_append_self_iff.mpr hacc
    change blankLine <:+ acc ++ crlf at hblank
    rw [List.flatMap_nil, List.nil_append] at hle ⊢
    have hreturn : ∀ b ∈ crlf.dropLast, b ≠ 10 := List.all_iff_forall_prop.mp (by decide)
    rw [cutHead_append failure acc crlf rest (List.cons_ne_nil _ _) hreturn, if_neg, if_pos hblank]
    rw [List.length_append] at hle
    exact Nat.not_lt.mpr hle
  | cons line lines ih =>
    obtain ⟨⟨hne, hline⟩, hlines⟩ := List.forall_mem_cons.mp hlines
    have hfits : (acc ++ (line ++ crlf)).length ≤ maxHead := by
      rw [List.flatMap_cons, List.append_assoc, ← List.append_assoc, List.length_append] at hle
      exact Nat.le_of_add_right_le hle
    rw [List.flatMap_cons, List.append_assoc (line ++ crlf)] at hle ⊢
    rw [List.append_assoc (line ++ crlf), cutHead_line failure acc _ hne hline hfits, ih _ hlines]
    · rw [List.append_assoc acc]
    · rw [← List.append_assoc]
      exact List.suffix_append ..
    · rwa [List.append_assoc]

/-- Lines are encoded one by one. -/
theorem encodeUtf8_joinLines (lines : List (List Char)) :
    encodeUtf8 (joinLines lines) = (lines.map encodeUtf8).flatMap (· ++ crlf) := by
  induction lines with
  | nil => rfl
  | cons line lines ih =>
    rw [joinLines, List.flatMap_cons, encodeUtf8_append, encodeUtf8_append, List.map_cons,
      List.flatMap_cons, ← ih]
    rfl

/-! ## The round trip -/

namespace Message

variable {m : Message}

private theorem requestLine_eq :
    m.requestLine = m.method ++ ' ' :: (m.path ++ ' ' :: "HTTP/1.1".toList) := by
  simp [requestLine, List.intercalate]

/-- A request line is split at its two blanks. -/
theorem WellFormed.splitOn_requestLine (h : m.WellFormed) :
    m.requestLine.splitOn ' ' = [m.method, m.path, "HTTP/1.1".toList] := by
  refine List.splitOn_intercalate ' ' ?_ (List.cons_ne_nil _ _)
  simp only [List.forall_mem_cons, List.not_mem_nil, false_imp_iff, implies_true, and_true]
  exact ⟨fun hmem => (h.method _ hmem).1 rfl, fun hmem => (h.path _ hmem).1 rfl, by decide⟩

/-- No line of a message is blank or broken. -/
theorem WellFormed.lines (h : m.WellFormed) :
    ∀ line ∈ m.requestLine :: m.headerLines, line ≠ [] ∧ '\r' ∉ line ∧ '\n' ∉ line := by
  rw [List.forall_mem_cons]
  constructor
  · have hmem (c : Char) (hc : c = '\r' ∨ c = '\n') : c ∉ m.requestLine := by
      have hversion : c ∉ ' ' :: "HTTP/1.1".toList := by
        rcases hc with rfl | rfl
        · decide
        · decide
      have hmethod : c ∉ m.method := fun hc' => by
        have := h.method c hc'
        grind
      have hpath : c ∉ m.path := fun hc' => by
        have := h.path c hc'
        grind
      rw [requestLine_eq, List.mem_append, List.mem_cons, List.mem_append]
      rintro (hc' | rfl | hc' | hc')
      · exact hmethod hc'
      · exact hversion (List.mem_cons_self ..)
      · exact hpath hc'
      · exact hversion hc'
    refine ⟨?_, hmem _ (.inl rfl), hmem _ (.inr rfl)⟩
    rw [requestLine_eq]
    exact List.append_ne_nil_of_right_ne_nil _ (List.cons_ne_nil _ _)
  · intro line hline
    obtain ⟨f, hf, rfl⟩ := List.mem_map.mp hline
    obtain ⟨hne, hname⟩ := h.names f hf
    have hmem (c : Char) (hc : c = '\r' ∨ c = '\n') : c ∉ headerLine f.1 f.2 := by
      rw [headerLine, List.mem_append, List.mem_cons]
      rintro (hc' | rfl | hc')
      · have hchar := List.all_eq_true.mp hname c hc'
        rcases hc with rfl | rfl
        · exact absurd hchar (by decide)
        · exact absurd hchar (by decide)
      · exact absurd hc (by decide)
      · have := h.values f hf c hc'
        grind
    exact ⟨List.append_ne_nil_of_left_ne_nil hne _, hmem _ (.inl rfl), hmem _ (.inr rfl)⟩

/-- The text of the head is taken apart again. -/
theorem WellFormed.parseHead (h : m.WellFormed) :
    Web.parseHead (encodeUtf8 m.head) =
      .ok (m.request.method, m.request.path, m.request.headers) := by
  have hlines := h.lines
  refine parseHead_eq_ok.mpr ⟨m.fields.map fun f => (lowercase f.1, String.ofList (trim f.2)),
    ⟨String.ofList m.head, m.requestLine, m.headerLines ++ [[], []], ?_, ?_, ?_, ?_⟩, ?_, rfl⟩
  · obtain ⟨text, htext, hchars⟩ := Option.map_eq_some_iff.mp (decodeUtf8_encodeUtf8 m.head)
    rw [fromUtf8, htext, ← hchars, String.ofList_toList]
  · rw [String.toList_ofList, Message.head, splitLines_joinLines fun line hline =>
      (hlines line hline).2.1]
    rfl
  · simp only [h.splitOn_requestLine, request, String.toList_ofList]
  · have hkept : (m.headerLines ++ [[], []]).filter (· ≠ []) = m.headerLines := by
      rw [List.filter_append, List.filter_eq_self.mpr]
      · simp
      · exact fun line hline => decide_eq_true (hlines line (List.mem_cons_of_mem _ hline)).1
    rw [hkept, headerLines, List.map_map, List.map_map]
    refine List.map_congr_left fun f hf => ?_
    obtain ⟨hne, hname⟩ := h.names f hf
    exact field_headerLine hne hname f.2
  · rw [List.map_map]
    exact h.nodup

/-- The head is cut off the front of the message. -/
theorem WellFormed.cutHead (h : m.WellFormed) (failure : Option IoError) (rest : Bytes) :
    Web.cutHead failure [] (m.render ++ rest) = .ok (encodeUtf8 m.head, m.body ++ rest) := by
  have hbytes (line : List Char) (hline : line ∈ m.requestLine :: m.headerLines) :
      encodeUtf8 line ≠ [] ∧ 10 ∉ encodeUtf8 line := by
    obtain ⟨hne, -, hfeed⟩ := h.lines line hline
    refine ⟨fun hnil => hne (encodeUtf8_injective hnil), ?_⟩
    rwa [mem_encodeUtf8 (by decide)]
  obtain ⟨hne, hfeed⟩ := hbytes m.requestLine (List.mem_cons_self ..)
  have hlines : ∀ line ∈ m.headerLines.map encodeUtf8, line ≠ [] ∧ 10 ∉ line := by
    intro line hline
    obtain ⟨text, htext, rfl⟩ := List.mem_map.mp hline
    exact hbytes text (List.mem_cons_of_mem _ htext)
  have hhead : encodeUtf8 m.head = encodeUtf8 m.requestLine ++ crlf ++
      ((m.headerLines.map encodeUtf8).flatMap (· ++ crlf) ++ crlf) := by
    rw [Message.head, encodeUtf8_append, encodeUtf8_joinLines, List.map_cons, List.flatMap_cons,
      List.append_assoc (_ ++ crlf)]
    rfl
  have hle := h.head_le
  rw [hhead] at hle
  have hfirst : (encodeUtf8 m.requestLine ++ crlf).length ≤ maxHead := by
    rw [List.length_append] at hle
    exact Nat.le_of_add_right_le hle
  rw [render, List.append_assoc, hhead, List.append_assoc (_ ++ crlf),
    cutHead_line failure [] _ hne hfeed hfirst, List.nil_append,
    cutHead_lines failure _ _ hlines (List.suffix_append ..) hle]

/-- What is written out is read back, and what follows stays unread. -/
theorem WellFormed.parseRequest_render (h : m.WellFormed) (failure : Option IoError)
    (rest : Bytes) :
    parseRequest failure (m.render ++ rest) = .ok (m.request, rest) := by
  obtain ⟨front, hne, hfront, hstream, hblank, hle, hfirst⟩ :=
    cutHead_eq_ok.mp (h.cutHead failure rest)
  obtain rfl : encodeUtf8 m.head = front := hfront
  obtain ⟨fields, hlines, hnodup, hheaders⟩ := parseHead_eq_ok.mp h.parseHead
  refine parseRequest_eq_ok.mpr ⟨_, fields, ?_, hblank, fun early hearly hends => ?_, hle, hlines,
    hnodup, hheaders, h.transferEncoding, h.body, h.body_le⟩
  · rw [hstream, List.append_assoc]
    rfl
  · exact hfirst early (hends.ne_nil (List.cons_ne_nil _ _)) hearly hends

end Message

/-! ## Requests -/

namespace Request

variable {request : Request}

/-- A request as a message: its names as they are, and a blank before each value. -/
def message (request : Request) : Message where
  method := request.method.toList
  path := request.path.toList
  fields := request.headers.toList.map fun e => (e.1.toList, ' ' :: e.2.toList)
  body := request.body

/-- A request that can be written out, within the limits. -/
structure WellFormed (request : Request) : Prop where
  method : ∀ c ∈ request.method.toList, c ≠ ' ' ∧ c ≠ '\r' ∧ c ≠ '\n'
  path : ∀ c ∈ request.path.toList, c ≠ ' ' ∧ c ≠ '\r' ∧ c ≠ '\n'
  names : ∀ e ∈ request.headers.toList, e.1 ≠ "" ∧ lowercase e.1.toList = e.1 ∧
    e.1.toList.all fun c => c.isAlphanum || c = '-'
  values : ∀ e ∈ request.headers.toList, trim e.2.toList = e.2.toList ∧
    ∀ c ∈ e.2.toList, c ≠ '\r' ∧ c ≠ '\n'
  transferEncoding : request.headers["transfer-encoding"]? = none
  head_le : (encodeUtf8 request.message.head).length ≤ maxHead
  body : contentLength request.headers = .ok request.body.length
  body_le : request.body.length ≤ maxBody

/-- A well-formed request is what its message stands for. -/
theorem WellFormed.request_message (h : request.WellFormed) :
    request.message.request = request := by
  have hfields : (request.message.fields.map fun f => (lowercase f.1, String.ofList (trim f.2))) =
      request.headers.toList := by
    rw [message, List.map_map]
    refine (List.map_congr_left fun e he => ?_).trans (List.map_id _)
    have hname := (h.names e he).2.1
    have hvalue : trim (' ' :: e.2.toList) = e.2.toList := (h.values e he).1
    simp only [Function.comp_apply, hname, hvalue, String.ofList_toList, id]
  rw [Message.request, hfields, ofList_toList]
  simp only [message, String.ofList_toList]

/-- A request that is well formed is written as a message that is. -/
theorem WellFormed.message (h : request.WellFormed) : request.message.WellFormed where
  method := h.method
  path := h.path
  names := by
    intro f hf
    obtain ⟨e, he, rfl⟩ := List.mem_map.mp hf
    obtain ⟨hne, -, hname⟩ := h.names e he
    exact ⟨fun hnil => hne (String.toList_eq_nil_iff.mp hnil), hname⟩
  values := by
    intro f hf
    obtain ⟨e, he, rfl⟩ := List.mem_map.mp hf
    rw [List.forall_mem_cons]
    exact ⟨by decide, (h.values e he).2⟩
  nodup := by
    have hnames : (request.message.fields.map fun f => lowercase f.1) =
        request.headers.toList.map (·.1) := by
      rw [Request.message, List.map_map]
      exact List.map_congr_left fun e he => (h.names e he).2.1
    rw [hnames]
    refine List.pairwise_map.mpr (Std.ExtTreeMap.distinct_keys_toList.imp fun hne heq => hne ?_)
    exact Std.LawfulEqCmp.compare_eq_iff_eq.mpr heq
  transferEncoding := by
    rw [h.request_message]
    exact h.transferEncoding
  head_le := h.head_le
  body := by
    rw [h.request_message]
    exact h.body
  body_le := h.body_le

end Request

/-- What parses from the unread bytes is read. -/
theorem readRequest_of_unread {reader : BufReader} {request : Request} {rest : Bytes}
    (h : parseRequest reader.failure reader.unread = .ok (request, rest)) :
    ∃ reader', readRequest reader = .ok (request, reader') ∧ reader'.unread = rest := by
  rw [← readRequest_eq, map_eq_ok] at h
  obtain ⟨⟨request', reader'⟩, hread, hout⟩ := h
  obtain ⟨rfl, hrest⟩ := Prod.mk.inj hout
  exact ⟨reader', hread, hrest⟩

/-- The request that is read depends on the bytes and not on how the reads cut them; it is made of
the first head and of the body that this announces, and takes nothing else off the stream; and
every message within the limits is read back. -/
theorem requestParsed :
    (∀ reader reader' : BufReader, reader.unread = reader'.unread →
      reader.failure = reader'.failure →
      (readRequest reader).map (fun out => (out.1, out.2.unread)) =
        (readRequest reader').map fun out => (out.1, out.2.unread)) ∧
    (∀ reader request reader', readRequest reader = .ok (request, reader') →
      ∃ head fields, request.Consumed head reader'.unread reader.unread fields) ∧
    (∀ (m : Message) (reader : BufReader) (rest : Bytes), m.WellFormed →
      reader.unread = m.render ++ rest →
      ∃ reader', readRequest reader = .ok (m.request, reader') ∧ reader'.unread = rest) ∧
    ∀ (request : Request) (reader : BufReader) (rest : Bytes), request.WellFormed →
      reader.unread = request.message.render ++ rest →
      ∃ reader', readRequest reader = .ok (request, reader') ∧ reader'.unread = rest := by
  refine ⟨fun reader reader' hunread hfailure => ?_, fun reader request reader' h => ?_,
    fun m reader rest h hunread => ?_, fun request reader rest h hunread => ?_⟩
  · rw [readRequest_eq, readRequest_eq, hunread, hfailure]
  · have hparse : parseRequest reader.failure reader.unread = .ok (request, reader'.unread) := by
      rw [← readRequest_eq, h]
      rfl
    exact parseRequest_eq_ok.mp hparse
  · refine readRequest_of_unread ?_
    rw [hunread]
    exact h.parseRequest_render reader.failure rest
  · refine readRequest_of_unread ?_
    rw [hunread, h.message.parseRequest_render, h.request_message]

/-- A request that a form of the panel sends. -/
def saveMessage : Message where
  method := "POST".toList
  path := "/api/config".toList
  fields := [("Host".toList, " localhost:1434".toList), ("Content-LENGTH".toList, "\t2 ".toList)]
  body := [123, 125]

private theorem saveMessage_wellFormed : saveMessage.WellFormed where
  method := List.all_iff_forall_prop.mp (by decide)
  path := List.all_iff_forall_prop.mp (by decide)
  names := by decide
  values := List.forall_mem_cons.mpr ⟨List.all_iff_forall_prop.mp (by decide),
    List.forall_mem_singleton.mpr (List.all_iff_forall_prop.mp (by decide))⟩
  nodup := by decide
  transferEncoding := by decide
  head_le := by decide
  body := by decide
  body_le := by decide

/-- A request to save a configuration is read back. -/
theorem requestParsed_save :
    let stream := saveMessage.render ++ [71, 69, 84]
    let bytewise : BufReader := { source := ⟨stream, List.replicate 90 1⟩ }
    let whole : BufReader := { source := ⟨stream, []⟩ }
    (readRequest bytewise).map (fun out => (out.1, out.2.unread)) =
        (readRequest whole).map (fun out => (out.1, out.2.unread)) ∧
      ∃ reader', readRequest bytewise = .ok (saveMessage.request, reader') ∧
        reader'.unread = [71, 69, 84] :=
  ⟨requestParsed.1 _ _ rfl rfl, requestParsed.2.2.1 _ _ _ saveMessage_wellFormed rfl⟩

end TgWsProxy.Web
