import TgWsProxy.H2.NativeFraming
import TgWsProxy.H2.Process

/-!
# The answer to a request

`post` of `cf_h2.rs` from the headers of the response on. What the network answers and
whether there is memory for a reply are inputs.
-/

namespace TgWsProxy.H2

/-- `MAX_RESPONSE_CHUNKS`. -/
def maxResponseChunks : Nat := 1024

/-- `other`. -/
def other (message : String) : IoError := ⟨.other, message⟩

/-- `PostError`. -/
inductive PostError
  | transport (code : Int32)
  | channel (e : IoError)
  | route (e : IoError)

/-- The headers that `post` looks at, and the chunks of the body, the last of which may be an
error of the stream. -/
structure Response where
  status : UInt16
  contentType : Option Bytes := none
  contentLength : Option Bytes := none
  contentEncoding : Option Bytes := none
  data : List (Except String Bytes)

/-- `to_str` of a header value. -/
def headerText (value : Bytes) : Except String String :=
  if value.all fun b => b = 9 || (32 ≤ b && b < 127) then
    .ok (String.ofList (value.map fun b => Char.ofNat b.toNat))
  else .error "failed to convert header to a str"

/-- `to_ascii_lowercase`. -/
def asciiLower (text : String) : List Char := text.toList.map Char.toLower

/-- The content type says HTML. -/
def Response.isHtml (response : Response) : Bool :=
  match response.contentType.bind fun value => (headerText value).toOption with
  | none => false
  | some value => "text/html".toList <:+: asciiLower value

/-- The length that the response declares. -/
def Response.declared (response : Response) : Except String (Option Nat) :=
  match response.contentLength with
  | none => .ok none
  | some value => do
    let text ← headerText value
    let length ← parseUnsigned (2 ^ 64) text
    .ok (some length)

/-- The content encoding, as an error where it is not supported. -/
def Response.checkEncoding (response : Response) : Except IoError Unit :=
  match response.contentEncoding with
  | none => .ok ()
  | some value =>
    match headerText value with
    | .error e => .error (other e)
    | .ok encoding =>
      if asciiLower encoding = "identity".toList then .ok ()
      else .error (invalid "Cloudflare /api returned unsupported Content-Encoding")

/-- The loop over the chunks of a body: the chunks that are kept, and their length in all.
`memory n` is the refusal of memory for `n` bytes. -/
def collect (declared : Option Nat) (memory : Nat → Option IoError) :
    List (Except String Bytes) → List Bytes → Nat → Except PostError (List Bytes × Nat)
  | [], parts, received => .ok (parts, received)
  | .error e :: _, _, _ => .error (.route (other e))
  | .ok chunk :: rest, parts, received =>
    if received + chunk.length > maxPacket then
      .error (.route (invalid "H2 response exceeds MTProto packet bound"))
    else
      match declared with
      | some length =>
        if received + chunk.length > length then
          .error (.route (invalid "H2 response exceeded Content-Length"))
        else collect declared memory rest (parts ++ [chunk]) (received + chunk.length)
      | none =>
        if chunk = [] then collect declared memory rest parts received
        else if parts.length ≥ maxResponseChunks then
          .error (.route (invalid "H2 response is excessively fragmented"))
        else
          match memory (received + chunk.length) with
          | some e => .error (.channel e)
          | none => collect declared memory rest (parts ++ [chunk]) (received + chunk.length)

/-- What a complete body is: a reply, nothing, or an error of the transport. -/
def finishBody (parts : List Bytes) (received : Nat) : Except PostError (Option (List Bytes)) :=
  if received % 4 ≠ 0 then
    .error (.route (invalid "Cloudflare /api response is not an aligned MTProto packet"))
  else
    let code := (UInt32.ofNat (Core.ofLe parts.flatten)).toInt32
    if received = 4 ∧ code < 0 then .error (.transport code)
    else if received = 0 then .ok none
    else .ok (some parts)

/-- `post`, with the parts of the reply. -/
def post (response : Response) (memory : Nat → Option IoError) :
    Except PostError (Option (List Bytes)) :=
  if response.status ∈ [(403 : UInt16), 404, 429, 444] then
    .error (.transport (-Int32.ofNat response.status.toNat))
  else if response.status ≠ 200 then
    .error (.route (other s!"Cloudflare /api HTTP {response.status}"))
  else if response.isHtml then
    .error (.route (invalid "Cloudflare /api returned HTML instead of MTProto"))
  else
    match response.declared with
    | .error e => .error (.route (other e))
    | .ok declared =>
      if declared.any (· > maxPacket) then
        .error (.route (invalid "H2 response Content-Length exceeds MTProto packet bound"))
      else
        match response.checkEncoding with
        | .error e => .error (.route e)
        | .ok () =>
          match declared.bind memory with
          | some e => .error (.channel e)
          | none => do
            let (parts, received) ← collect declared memory response.data [] 0
            match declared with
            | some length =>
              if length ≠ received then
                .error (.route ⟨.unexpectedEof, "incomplete H2 response body"⟩)
              else finishBody [parts.flatten] received
            | none => finishBody parts received

/-! ## Replies fit -/

/-- The loop counts what it keeps, and stays within the bound. -/
theorem collect_spec {declared : Option Nat} {memory : Nat → Option IoError}
    {data : List (Except String Bytes)} {parts parts' : List Bytes} {received received' : Nat}
    (h : collect declared memory data parts received = .ok (parts', received'))
    (hparts : parts.flatten.length = received) (hbound : received ≤ maxPacket) :
    parts'.flatten.length = received' ∧ received' ≤ maxPacket := by
  induction data generalizing parts received with
  | nil =>
    obtain ⟨rfl, rfl⟩ := Prod.mk.inj (Except.ok.inj h)
    exact ⟨hparts, hbound⟩
  | cons item rest ih =>
    cases item with
    | error e => cases h
    | ok chunk =>
      have hmore : (parts ++ [chunk]).flatten.length = received + chunk.length := by
        rw [List.flatten_append, List.length_append, hparts]
        simp
      rw [collect.eq_def] at h
      dsimp only at h
      split at h
      · cases h
      · next hfits =>
        have hfits : received + chunk.length ≤ maxPacket := not_lt.mp hfits
        cases declared with
        | some length =>
          dsimp only at h
          split at h
          · cases h
          · exact ih h hmore hfits
        | none =>
          dsimp only at h
          split at h
          · exact ih h hparts hbound
          · split at h
            · cases h
            · split at h
              · cases h
              · exact ih h hmore hfits

/-- A body that can be written as a packet, whatever is drawn for its padding. -/
def FitsPacket (parts : List Bytes) : Prop :=
  ∀ random padding, (⟨parts, random, padding⟩ : NativeReply).Fits

private theorem finishBody_fits {parts parts' : List Bytes} {received : Nat}
    (h : finishBody parts received = .ok (some parts')) (hlength : parts.flatten.length = received)
    (hbound : received ≤ maxPacket) : FitsPacket parts' := by
  rw [finishBody] at h
  split at h
  · cases h
  · next hwords =>
    dsimp only at h
    split at h
    · cases h
    · split at h
      · cases h
      · next hreceived =>
        obtain rfl := Option.some.inj (Except.ok.inj h)
        have hbody : received ≠ 0 → parts.flatten ≠ [] := by
          intro hne hnil
          rw [hnil] at hlength
          exact hne hlength.symm
        exact fun _ _ => ⟨hbody hreceived, hlength ▸ not_not.mp hwords, hlength ▸ hbound⟩

/-- A reply of `post` is one that can be written. -/
theorem post_fits {response : Response} {memory : Nat → Option IoError} {parts : List Bytes}
    (h : post response memory = .ok (some parts)) : FitsPacket parts := by
  rw [post] at h
  split at h
  · cases h
  split at h
  · cases h
  split at h
  · cases h
  cases hdeclared : response.declared with
  | error e => simp [hdeclared] at h
  | ok declared =>
    simp only [hdeclared] at h
    split at h
    · cases h
    cases hencoding : response.checkEncoding with
    | error e => simp [hencoding] at h
    | ok =>
      simp only [hencoding] at h
      cases hmemory : declared.bind memory with
      | some e => simp [hmemory] at h
      | none =>
        simp only [hmemory] at h
        obtain ⟨⟨body, received⟩, hcollect, h⟩ := bind_eq_ok.mp h
        obtain ⟨hlength, hbound⟩ := collect_spec hcollect rfl (Nat.zero_le _)
        cases declared with
        | none => exact finishBody_fits h hlength hbound
        | some length =>
          dsimp only at h
          split at h
          · cases h
          · apply finishBody_fits h _ hbound
            rw [List.flatten_singleton, hlength]

end TgWsProxy.H2
