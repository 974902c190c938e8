import Mathlib.Data.Bool.AllAny
import TgWsProxy.AsyncRead
import TgWsProxy.Core.Utf8
import TgWsProxy.Web.Request

/-!
# What a request is parsed from

`read_request` as a function of the bytes that arrive: the head is cut at its first blank line,
however the reads fall, a body of the announced length follows, and a request that is written out
is read back.
-/

namespace TgWsProxy.Web

open TgWsProxy.Core TgWsProxy.Config

/-! ## The head, byte by byte -/

/-- The head at the front of the bytes, and what follows. -/
def cutHead (failure : Option IoError) (head : Bytes) : Bytes → Except IoError (Bytes × Bytes)
  | [] => .error (failure.getD (Config.invalid "incomplete HTTP headers"))
  | b :: rest =>
    if head.length + 1 > maxHead then .error (Config.invalid "HTTP headers too large")
    else if blankLine <:+ head ++ [b] then .ok (head ++ [b], rest)
    else cutHead failure (head ++ [b]) rest

/-- Only a line feed ends a blank line. -/
theorem not_blankLine (head : Bytes) {b : UInt8} (h : b ≠ 10) : ¬blankLine <:+ head ++ [b] := by
  intro hsuffix
  have hlast := hsuffix.getLast (by simp [blankLine])
  rw [List.getLast_append_singleton] at hlast
  exact h hlast.symm

/-- A piece of the head in which a line feed can only be the last byte is cut off at once. -/
theorem cutHead_append (failure : Option IoError) (head front rest : Bytes) (hne : front ≠ [])
    (hfront : ∀ b ∈ front.dropLast, b ≠ 10) :
    cutHead failure head (front ++ rest) =
      if head.length + front.length > maxHead then .error (Config.invalid "HTTP headers too large")
      else if blankLine <:+ head ++ front then .ok (head ++ front, rest)
      else cutHead failure (head ++ front) rest := by
  induction front generalizing head with
  | nil => exact absurd rfl hne
  | cons b front ih =>
    cases front with
    | nil => rfl
    | cons b' front =>
      rw [List.dropLast_cons_cons, List.forall_mem_cons] at hfront
      have hmore := ih (head ++ [b]) (by simp) hfront.2
      rw [List.append_assoc, List.singleton_append, List.length_append, List.length_singleton,
        Nat.add_assoc, Nat.add_comm 1] at hmore
      rw [List.cons_append, cutHead, if_neg (not_blankLine head hfront.1), hmore, List.length_cons]
      by_cases hlong : head.length + 1 > maxHead
      · rw [if_pos hlong, if_pos (by rw [List.length_cons]; omega)]
      · rw [if_neg hlong]
        rfl

/-- What is taken of the available bytes ends with their first line feed, or has none. -/
theorem dropLast_lineLength (available : Bytes) :
    ∀ b ∈ (available.take (lineLength available)).dropLast, b ≠ 10 := by
  intro b hb
  rw [lineLength] at hb
  cases hfind : available.findIdx? (· = 10) with
  | none =>
    rw [hfind, Option.map_none, Option.getD_none, List.take_length] at hb
    simpa using List.findIdx?_eq_none_iff.mp hfind b ((List.dropLast_sublist _).subset hb)
  | some i =>
    obtain ⟨hi, -, hbefore⟩ := List.findIdx?_eq_some_iff_getElem.mp hfind
    rw [hfind, Option.map_some, Option.getD_some, List.dropLast_eq_take, List.take_take,
      List.length_take_of_le hi, Nat.succ_sub_one, Nat.min_eq_left (Nat.le_succ i)] at hb
    obtain ⟨j, hj, rfl⟩ := List.mem_take_iff_getElem.mp hb
    simpa using hbefore j (Nat.lt_of_lt_of_le hj (Nat.min_le_left ..))

private theorem length_take_lineLength (available : Bytes) :
    (available.take (lineLength available)).length = lineLength available :=
  List.length_take_of_le (lineLength_le available)

private theorem take_lineLength_ne_nil {available : Bytes} (h : available ≠ []) :
    available.take (lineLength available) ≠ [] := by
  rw [← List.length_pos_iff, length_take_lineLength]
  exact lineLength_pos h

namespace BufReader

variable {reader reader' : BufReader} {available : Bytes}

private theorem fillBuf_error {e : IoError} (h : reader.fillBuf = .error e) :
    reader.unread = [] ∧ reader.failure = some e := by
  rw [fillBuf] at h
  split at h
  · cases h
  · next hempty =>
    have hread := reader.source.read_append capacity
    dsimp only at h
    split at h
    · next hdata hfailure =>
      rw [hdata] at hread
      have hend := (reader.source.read_eq_nil_iff (by decide)).mp hdata
      rw [unread, not_not.mp hempty, hend]
      exact ⟨rfl, hfailure.trans (congrArg some (Except.error.inj h))⟩
    · cases h

private theorem failure_fillBuf (h : reader.fillBuf = .ok (available, reader')) :
    reader'.failure = reader.failure := by
  rw [fillBuf] at h
  split at h
  · rw [← (Prod.mk.inj (Except.ok.inj h)).2]
  · dsimp only at h
    split at h
    · cases h
    · rw [← (Prod.mk.inj (Except.ok.inj h)).2]

private theorem fillBuf_nil (h : reader.fillBuf = .ok ([], reader')) :
    reader.unread = [] ∧ reader.failure = none := by
  rw [fillBuf] at h
  split at h
  · next hbuffered => exact absurd (Prod.mk.inj (Except.ok.inj h)).1 hbuffered
  · next hempty =>
    dsimp only at h
    split at h
    · cases h
    · next hno =>
      have hdata := (Prod.mk.inj (Except.ok.inj h)).1
      have hend := (reader.source.read_eq_nil_iff (by decide)).mp hdata
      rw [unread, not_not.mp hempty, hend]
      refine ⟨rfl, ?_⟩
      cases hfailure : reader.failure with
      | none => rfl
      | some e => exact absurd hfailure (hno e hdata)

/-- `poll_read`: a large read into an empty buffer goes past it. -/
def read (reader : BufReader) (room : Nat) : Except IoError (Bytes × BufReader) :=
  if reader.buffered = [] ∧ capacity ≤ room then
    (Stream.read ⟨reader.source, reader.failure⟩ room).map fun (data, stream) =>
      (data, { reader with source := stream.source })
  else
    reader.fillBuf.map fun (available, reader) => (available.take room, reader.consume room)

/-- At the end a read gives the failure, or nothing. -/
theorem read_end {room : Nat} (hroom : 0 < room) (hend : reader.unread = []) :
    (∀ e, reader.failure = some e → reader.read room = .error e) ∧
      (reader.failure = none → ∃ reader', reader.read room = .ok ([], reader')) := by
  rw [read]
  split
  · have hbytes : AsyncRead.bytes (Stream.mk reader.source reader.failure) = [] :=
      (List.append_eq_nil_iff.mp hend).2
    obtain ⟨herror, hok⟩ := AsyncRead.read_end _ hroom hbytes
    refine ⟨fun e he => ?_, fun hnone => ?_⟩
    · exact congrArg (Except.map _) (herror e he)
    · obtain ⟨stream, hread⟩ := hok hnone
      exact ⟨_, congrArg (Except.map _) hread⟩
  · cases hfill : reader.fillBuf with
    | error e =>
      obtain ⟨-, hfailure⟩ := fillBuf_error hfill
      refine ⟨fun e' he => ?_, fun hnone => ?_⟩
      · rw [Option.some.inj (hfailure.symm.trans he)]
        rfl
      · cases hfailure.symm.trans hnone
    | ok out =>
      obtain ⟨available, reader'⟩ := out
      obtain ⟨hbuffered, hunread⟩ := fillBuf_unread hfill
      rw [hend, unread, hbuffered] at hunread
      obtain rfl := (List.append_eq_nil_iff.mp hunread).1
      obtain ⟨-, hfailure⟩ := fillBuf_nil hfill
      refine ⟨fun e he => ?_, fun _ => ⟨reader'.consume room, ?_⟩⟩
      · cases hfailure.symm.trans he
      · exact congrArg (fun data => Except.ok (data, reader'.consume room)) List.take_nil

/-- Before the end it gives some of what is next. -/
theorem read_front {room : Nat} (hroom : 0 < room) (hfront : reader.unread ≠ []) :
    ∃ data reader', reader.read room = .ok (data, reader') ∧ data ≠ [] ∧ data.length ≤ room ∧
      data ++ reader'.unread = reader.unread ∧ reader'.failure = reader.failure := by
  rw [read]
  split
  · next hdirect =>
    have hbytes : AsyncRead.bytes (Stream.mk reader.source reader.failure) ≠ [] := by
      rwa [unread, hdirect.1] at hfront
    obtain ⟨data, stream, hread, hne, hle, happend, -⟩ := AsyncRead.read_front _ hroom hbytes
    refine ⟨data, { reader with source := stream.source }, ?_, hne, hle, ?_, rfl⟩
    · exact congrArg (Except.map _) hread
    · rw [unread, unread, hdirect.1]
      exact happend
  · cases hfill : reader.fillBuf with
    | error e => exact absurd (fillBuf_error hfill).1 hfront
    | ok out =>
      obtain ⟨available, reader'⟩ := out
      have hsome : available ≠ [] := by
        rintro rfl
        exact hfront (fillBuf_nil hfill).1
      refine ⟨available.take room, reader'.consume room, rfl, ?_, List.length_take_le .., ?_, ?_⟩
      · rw [Ne, List.take_eq_nil_iff, not_or]
        exact ⟨Nat.pos_iff_ne_zero.mp hroom, hsome⟩
      · exact (fillBuf_consume hfill room).symm
      · exact (failure_fillBuf hfill :)

instance : AsyncRead BufReader where
  bytes := unread
  failure := failure
  read := read
  read_end _ _ := read_end
  read_front _ _ := read_front

/-- `read_exact` repeats the reads of the buffered reader. -/
theorem readExact_eq_fill (reader : BufReader) (length : Nat) :
    (reader.readExact length).map (fun out => (out.1, out.2.unread)) =
      (AsyncRead.readExact reader length).map fun out => (out.1, out.2.unread) := by
  rw [readExact, AsyncRead.readExact]
  split
  · next hle =>
    obtain ⟨reader', hfill, hbytes, -⟩ :=
      AsyncRead.fill_of_le (r := reader) ⟨.unexpectedEof, "early eof"⟩ hle
    have hunread : reader'.unread = reader.unread.drop length := hbytes
    rw [hfill]
    dsimp only [Except.map]
    rw [hunread, unread, List.drop_append]
    rfl
  · next hlt =>
    rw [AsyncRead.fill_of_lt (r := reader) _ (Nat.lt_of_not_le hlt)]
    rfl

end BufReader

/-- The loop cuts the head off, however its reads fall. -/
theorem readHead_eq (reader : BufReader) (head : Bytes) :
    (readHead reader head).map (fun out => (out.1, out.2.unread, out.2.failure)) =
      (cutHead reader.failure head reader.unread).map fun out =>
        (out.1, out.2, reader.failure) := by
  fun_induction readHead reader head with
  | case1 reader head e hfill =>
    obtain ⟨hunread, hfailure⟩ := BufReader.fillBuf_error hfill
    rw [hunread, cutHead, hfailure]
    rfl
  | case2 reader head reader₁ hfill =>
    obtain ⟨hunread, hfailure⟩ := BufReader.fillBuf_nil hfill
    rw [hunread, cutHead, hfailure]
    rfl
  | case3 reader head available reader₁ hfill hsome take hlong =>
    rw [BufReader.fillBuf_consume hfill take, cutHead_append _ _ _ _ (take_lineLength_ne_nil hsome)
      (dropLast_lineLength available), length_take_lineLength, if_pos hlong]
    rfl
  | case4 reader head available reader₁ hfill hsome take hfits head₁ reader₂ hblank =>
    rw [BufReader.fillBuf_consume hfill take, cutHead_append _ _ _ _ (take_lineLength_ne_nil hsome)
      (dropLast_lineLength available), length_take_lineLength, if_neg hfits, if_pos hblank,
      ← BufReader.failure_fillBuf hfill]
    rfl
  | case5 reader head available reader₁ hfill hsome take hfits head₁ reader₂ hblank ih =>
    rw [BufReader.fillBuf_consume hfill take, cutHead_append _ _ _ _ (take_lineLength_ne_nil hsome)
      (dropLast_lineLength available), length_take_lineLength, if_neg hfits, if_neg hblank,
      ← BufReader.failure_fillBuf hfill]
    exact ih

/-- A head is cut off where its first blank line ends. -/
theorem cutHead_eq_ok {failure : Option IoError} {acc head stream rest : Bytes} :
    cutHead failure acc stream = .ok (head, rest) ↔
      ∃ front, front ≠ [] ∧ head = acc ++ front ∧ stream = front ++ rest ∧ blankLine <:+ head ∧
        head.length ≤ maxHead ∧
        ∀ early, early ≠ [] → early <+: stream → blankLine <:+ acc ++ early →
          front.length ≤ early.length := by
  induction stream generalizing acc with
  | nil =>
    rw [cutHead]
    refine iff_of_false nofun ?_
    rintro ⟨front, hne, -, hstream, -⟩
    exact hne (List.append_eq_nil_iff.mp hstream.symm).1
  | cons b stream ih =>
    rw [cutHead]
    split
    · next hlong =>
      refine iff_of_false nofun ?_
      rintro ⟨front, hne, rfl, -, -, hle, -⟩
      have hpos := List.length_pos_iff.mpr hne
      rw [List.length_append] at hle
      omega
    · split
      · next hblank =>
        constructor
        · intro h
          obtain ⟨rfl, rfl⟩ := Prod.mk.inj (Except.ok.inj h)
          refine ⟨[b], List.cons_ne_nil _ _, rfl, rfl, hblank, ?_, fun early hne _ _ => ?_⟩
          · rw [List.length_append, List.length_singleton]
            omega
          · exact List.length_pos_iff.mpr hne
        · rintro ⟨front, hne, rfl, hstream, -, -, hfirst⟩
          have hle := hfirst [b] (List.cons_ne_nil _ _) ⟨stream, rfl⟩ hblank
          obtain ⟨c, front, rfl⟩ := List.exists_cons_of_ne_nil hne
          obtain rfl : front = [] :=
            List.length_eq_zero_iff.mp (Nat.le_zero.mp (Nat.le_of_succ_le_succ hle))
          obtain ⟨rfl, rfl⟩ := List.cons.inj hstream
          rfl
      · next hblank =>
        rw [ih]
        constructor
        · rintro ⟨front, hne, rfl, rfl, hsuffix, hle, hfirst⟩
          refine ⟨b :: front, List.cons_ne_nil _ _, List.append_assoc .., rfl, hsuffix, hle, ?_⟩
          intro early hearly hprefix hends
          obtain ⟨c, early, rfl⟩ := List.exists_cons_of_ne_nil hearly
          obtain ⟨rfl, htail⟩ := List.cons_prefix_cons.mp hprefix
          rw [List.append_cons] at hends
          refine Nat.succ_le_succ (hfirst early (fun hnil => hblank ?_) htail hends)
          rwa [hnil, List.append_nil] at hends
        · rintro ⟨front, hne, rfl, hstream, hsuffix, hle, hfirst⟩
          obtain ⟨c, front, rfl⟩ := List.exists_cons_of_ne_nil hne
          obtain ⟨rfl, rfl⟩ := List.cons.inj hstream
          refine ⟨front, fun hnil => hblank ?_, List.append_cons .., rfl, hsuffix, hle, ?_⟩
          · rwa [hnil] at hsuffix
          · intro early hearly hprefix hends
            refine Nat.le_of_succ_le_succ (hfirst (b :: early) (List.cons_ne_nil _ _) ?_ ?_)
            · exact List.cons_prefix_cons.mpr ⟨rfl, hprefix⟩
            · rwa [List.append_cons]

/-! ## The request as a function of the bytes -/

/-- `read_request` of the bytes that a stream has, with what stays unread. -/
def parseRequest (failure : Option IoError) (stream : Bytes) :
    Except IoError (Request × Bytes) := do
  let (head, rest) ← cutHead failure [] stream
  let (method, path, headers) ← parseHead head
  if headers.contains "transfer-encoding" then
    .error (Config.invalid "chunked requests are unsupported")
  else
    let length ← contentLength headers
    if length > maxBody then .error (Config.invalid "request body exceeds 32 KiB")
    else if length ≤ rest.length then
      .ok (⟨method, path, headers, rest.take length⟩, rest.drop length)
    else .error (failure.getD ⟨.unexpectedEof, "early eof"⟩)

/-- What is read depends on the bytes and on the end of the stream alone. -/
theorem readRequest_eq (reader : BufReader) :
    (readRequest reader).map (fun out => (out.1, out.2.unread)) =
      parseRequest reader.failure reader.unread := by
  have hhead := readHead_eq reader []
  rw [readRequest, parseRequest]
  cases hread : readHead reader [] with
  | error e =>
    rw [hread] at hhead
    cases hcut : cutHead reader.failure [] reader.unread with
    | error e' =>
      rw [hcut] at hhead
      cases hhead
      rfl
    | ok out =>
      rw [hcut] at hhead
      cases hhead
  | ok out =>
    obtain ⟨head, reader₁⟩ := out
    rw [hread] at hhead
    cases hcut : cutHead reader.failure [] reader.unread with
    | error e' =>
      rw [hcut] at hhead
      cases hhead
    | ok out =>
      obtain ⟨head', rest⟩ := out
      rw [hcut] at hhead
      obtain ⟨rfl, hrest⟩ := Prod.mk.inj (Except.ok.inj hhead)
      obtain ⟨rfl, hfailure⟩ := Prod.mk.inj hrest
      simp only [bind, Except.bind]
      cases parseHead head with
      | error e => rfl
      | ok parts =>
        obtain ⟨method, path, headers⟩ := parts
        dsimp only
        split
        · rfl
        · cases contentLength headers with
          | error e => rfl
          | ok length =>
            dsimp only
            split
            · rfl
            · rw [BufReader.readExact]
              by_cases hle : length ≤ reader₁.unread.length
              · rw [if_pos hle, if_pos hle, BufReader.unread, List.drop_append]
                rfl
              · rw [if_neg hle, if_neg hle, ← hfailure]
                rfl

/-! ## What is accepted -/

/-- The request line and the header fields that the text of a head has. -/
def HeadLines (head : Bytes) (method path : String) (fields : List (String × String)) : Prop :=
  ∃ text first lines, fromUtf8 head = some text ∧ splitLines text.toList = first :: lines ∧
    first.splitOn ' ' = [method.toList, path.toList, "HTTP/1.1".toList] ∧
    (lines.filter (· ≠ [])).map field = fields.map some

/-- A head is accepted for its request line and for header fields of different names. -/
theorem parseHead_eq_ok {head : Bytes} {method path : String} {headers : Headers} :
    parseHead head = .ok (method, path, headers) ↔
      ∃ fields, HeadLines head method path fields ∧ (fields.map (·.1)).Nodup ∧
        headers = .ofList fields := by
  constructor
  · intro h
    obtain ⟨text, first, lines, htext, hlines, hfirst, hheaders⟩ := parseHead_spec h
    obtain ⟨fields, hfields, hnodup, -, rfl⟩ := parseHeaders_eq_ok.mp hheaders
    exact ⟨fields, ⟨text, first, lines, htext, hlines, hfirst, hfields⟩, hnodup,
      Std.ExtTreeMap.ofList_eq_insertMany_empty.symm⟩
  · rintro ⟨fields, ⟨text, first, lines, htext, hlines, hfirst, hfields⟩, hnodup, rfl⟩
    have hheaders : parseHeaders (lines.filter (· ≠ [])) ∅ = .ok (.ofList fields) :=
      parseHeaders_eq_ok.mpr ⟨fields, hfields, hnodup, fun e _ => Std.ExtTreeMap.getElem?_empty,
        Std.ExtTreeMap.ofList_eq_insertMany_empty⟩
    rw [parseHead, htext]
    dsimp only
    rw [hlines, List.headD_cons, List.tail_cons, hfirst, hheaders]
    simp

/-- A request that is read, the front of the stream that it is made of, and what stays unread. -/
structure Request.Consumed (request : Request) (head rest stream : Bytes)
    (fields : List (String × String)) : Prop where
  /-- The head, the body and nothing else is consumed. -/
  append : stream = head ++ request.body ++ rest
  blank : blankLine <:+ head
  /-- No earlier blank line ends in the stream. -/
  first : ∀ early, early <+: stream → blankLine <:+ early → head.length ≤ early.length
  head_le : head.length ≤ maxHead
  lines : HeadLines head request.method request.path fields
  nodup : (fields.map (·.1)).Nodup
  headers : request.headers = .ofList fields
  transferEncoding : request.headers["transfer-encoding"]? = none
  body : contentLength request.headers = .ok request.body.length
  body_le : request.body.length ≤ maxBody

/-- Exactly these requests are accepted. -/
theorem parseRequest_eq_ok {failure : Option IoError} {stream rest : Bytes} {request : Request} :
    parseRequest failure stream = .ok (request, rest) ↔
      ∃ head fields, request.Consumed head rest stream fields := by
  rw [parseRequest, bind_eq_ok]
  constructor
  · rintro ⟨⟨head, rest₁⟩, hcut, h⟩
    obtain ⟨⟨method, path, headers⟩, hparse, h⟩ := bind_eq_ok.mp h
    dsimp only at h
    split at h
    · cases h
    next htransfer =>
    obtain ⟨length, hlength, h⟩ := bind_eq_ok.mp h
    split at h
    · cases h
    next hle =>
    split at h
    · next hbody =>
      obtain ⟨rfl, rfl⟩ := Prod.mk.inj (Except.ok.inj h)
      obtain ⟨front, hne, hfront, hstream, hblank, hhead, hfirst⟩ := cutHead_eq_ok.mp hcut
      obtain rfl : head = front := hfront
      obtain ⟨fields, hlines, hnodup, hheaders⟩ := parseHead_eq_ok.mp hparse
      refine ⟨head, fields, ?_, hblank, fun early hearly hends => ?_, hhead, hlines, hnodup,
        hheaders, ?_, ?_, ?_⟩
      · rw [hstream, List.append_assoc, List.take_append_drop]
      · exact hfirst early (hends.ne_nil (List.cons_ne_nil _ _)) hearly hends
      · simpa using htransfer
      · rwa [List.length_take_of_le hbody]
      · rw [List.length_take_of_le hbody]
        exact Nat.le_of_not_gt hle
    · cases h
  · rintro ⟨head, fields, hc⟩
    refine ⟨(head, request.body ++ rest),
      cutHead_eq_ok.mpr ⟨head, ?_, rfl, ?_, hc.blank, hc.head_le,
      fun early _ => hc.first early⟩, ?_⟩
    · exact hc.blank.ne_nil (List.cons_ne_nil _ _)
    · rw [hc.append, List.append_assoc]
    · rw [bind_eq_ok]
      refine ⟨_, parseHead_eq_ok.mpr ⟨fields, hc.lines, hc.nodup, hc.headers⟩, ?_⟩
      have htransfer : ¬request.headers.contains "transfer-encoding" := by
        simpa using hc.transferEncoding
      have hlength : request.body.length ≤ (request.body ++ rest).length := by
        rw [List.length_append]
        exact Nat.le_add_right ..
      dsimp only
      rw [if_neg htransfer, bind_eq_ok]
      refine ⟨_, hc.body, ?_⟩
      rw [if_neg (Nat.not_lt.mpr hc.body_le), if_pos hlength, List.take_left, List.drop_left]

end TgWsProxy.Web
