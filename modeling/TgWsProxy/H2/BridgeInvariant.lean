import TgWsProxy.H2.BridgeChannel

/-!
# What a bridge keeps

The bytes that were written are the packets that were handed to the client, and a part of the next
one; reading, framing and writing keep it so.
-/

namespace TgWsProxy.H2

open TgWsProxy.Core

/-- How many calls of `receive` there are. -/
def Download.calls : Download → Nat
  | .receiving => 1
  | _ => 0

variable {P : Primitives} {ctx : BridgeContext}

/-- The client has the encryption of `plain`, and `rest` is encrypted and waits. -/
structure Sends (P : Primitives) (stream : AesCtr) (wire encrypted : Bytes) (encrypt : AesCtr)
    (plain rest : Bytes) : Prop where
  wire : wire ++ encrypted = stream.output P (plain ++ rest)
  length : encrypted.length = rest.length
  encrypt : encrypt = stream.advance (plain ++ rest).length

/-- The packet that is being written, up to `sent`. -/
structure InProgress {protocol : Protocol} (packet : Packet protocol) (reply : H2Reply)
    (native : NativeReply) (sent rest : Bytes) (pieces : List Bytes) : Prop where
  parts : native.parts = reply.parts
  payload : packet.payload = native.padded protocol
  bytes : packet.bytes = sent ++ rest ++ pieces.flatten

/-- The client has the replies that are written, and a part of the next one. -/
def Bridge.Wired (P : Primitives) (ctx : BridgeContext) (s : Bridge) : Prop :=
  ∃ packets : List (Packet ctx.protocol),
    packets.map Packet.payload = s.written.map (·.padded ctx.protocol) ∧
    match s.download with
    | .writing reply native encrypted pieces =>
      ∃ (packet : Packet ctx.protocol) (sent rest : Bytes),
        InProgress packet reply native sent rest pieces ∧
        Sends P ctx.clientEncrypt s.wire encrypted s.encrypt
          (packets.flatMap Packet.bytes ++ sent) rest
    | _ => Sends P ctx.clientEncrypt s.wire [] s.encrypt (packets.flatMap Packet.bytes) []

/-- A reply is being written. -/
def Download.isWriting : Download → Bool
  | .writing _ _ _ _ => true
  | _ => false

/-- The client has the replies that are written, and nothing else. -/
def Bridge.Between (P : Primitives) (ctx : BridgeContext) (s : Bridge) : Prop :=
  ∃ packets : List (Packet ctx.protocol),
    packets.map Packet.payload = s.written.map (·.padded ctx.protocol) ∧
    Sends P ctx.clientEncrypt s.wire [] s.encrypt (packets.flatMap Packet.bytes) []

/-- Between two replies the wire holds whole frames. -/
theorem Bridge.wired_iff_between {s : Bridge} (hdownload : s.download.isWriting = false) :
    s.Wired P ctx ↔ s.Between P ctx := by
  rw [Bridge.Wired, Bridge.Between]
  cases hd : s.download with
  | writing _ _ _ _ =>
    rw [hd] at hdownload
    cases hdownload
  | receiving | received _ | returned => exact Iff.rfl

/-- What holds in every state of a bridge. -/
structure Bridge.Sound (P : Primitives) (ctx : BridgeContext) (s : Bridge) : Prop where
  channel : channelSystem.Reachable s.channel
  calls : s.ended = none → s.channel.receives.length = s.download.calls
  carried : ∀ reply ∈ s.channel.carried, FitsPacket reply.parts
  held : ∀ reply, s.download = .received reply → FitsPacket reply.parts
  handed : s.ended = none → ∀ terminal, .handed terminal ∈ s.channel.returned →
    ∃ code, terminal = .transport code ∧ s.download.code = some code
  told : ∀ code, s.download.code = some code → .handed (.transport code) ∈ s.channel.returned
  wired : s.Wired P ctx

/-- A terminal is a body of four bytes. -/
theorem fitsPacket_transportError (code : Int32) :
    FitsPacket (H2Reply.transportError code).parts := by
  have hbody (random : UInt8) (padding : Block 15) :
      (⟨(H2Reply.transportError code).parts, random, padding⟩ : NativeReply).body.length = 4 := by
    rw [NativeReply.body, H2Reply.parts, List.flatten_singleton, length_toLe]
  intro random padding
  refine ⟨fun hnil => ?_, ?_, ?_⟩
  · have := hbody random padding
    rw [hnil] at this
    cases this
  · rw [hbody]
  · rw [hbody]
    decide

namespace Bridge.Sound

variable {s t : Bridge}

/-- Steps beside the calls of `receive` keep all of it, also where the bridge goes on in
another branch. -/
theorem aside (h : s.Sound P ctx) {channel : RunningChannel} (haside : s.channel.Aside channel)
    (hchannel : t.channel = channel) (hencrypt : t.encrypt = s.encrypt) (hwire : t.wire = s.wire)
    (hdownload : t.download = s.download) (hwritten : t.written = s.written)
    (hended : t.ended = none → s.ended = none) : t.Sound P ctx := by
  obtain ⟨channel', encrypt, wire, download, upload, recovery, lastActivity, written, ended⟩ := t
  dsimp only at *
  subst hchannel hencrypt hwire hdownload hwritten
  refine ⟨haside.reachable h.channel, fun hnone => ?_, haside.carried h.carried, h.held,
    fun hnone terminal hmem => ?_, fun code hcode => haside.returned (h.told code hcode), h.wired⟩
  · rw [haside.receives]
    exact h.calls (hended hnone)
  · exact h.handed (hended hnone) terminal (haside.handed terminal hmem)

/-- Steps of the bridge that leave the channel alone. -/
theorem keep (h : s.Sound P ctx) (hchannel : t.channel = s.channel)
    (hencrypt : t.encrypt = s.encrypt) (hwire : t.wire = s.wire)
    (hdownload : t.download = s.download) (hwritten : t.written = s.written)
    (hended : t.ended = none → s.ended = none) : t.Sound P ctx :=
  h.aside ⟨id, rfl, id, fun _ => id, List.Subset.refl _⟩ hchannel hencrypt hwire hdownload hwritten
    hended

/-- `download` goes on with the reply that it has. -/
theorem goOn (h : s.Sound P ctx) (hchannel : t.channel = s.channel) (hended : t.ended = s.ended)
    (hcalls : t.download.calls = s.download.calls) (hcode : t.download.code = s.download.code)
    (hreceived : ∀ reply, t.download ≠ .received reply) (hwired : t.Wired P ctx) :
    t.Sound P ctx := by
  refine ⟨hchannel ▸ h.channel, fun hnone => ?_, hchannel ▸ h.carried,
    fun reply heq => absurd heq (hreceived reply), fun hnone terminal hmem => ?_,
    fun code hsome => ?_, hwired⟩
  · rw [hchannel, hcalls]
    exact h.calls (hended ▸ hnone)
  · rw [hchannel] at hmem
    rw [hcode]
    exact h.handed (hended ▸ hnone) terminal hmem
  · rw [hchannel]
    exact h.told code (hcode ▸ hsome)

/-- Outside `receive` there is no call, so nothing is handed out a second time. -/
theorem not_handed (h : s.Sound P ctx) (hended : s.ended = none) (hcode : s.download.code = none)
    {terminal : Terminal} : .handed terminal ∉ s.channel.returned := by
  intro hmem
  obtain ⟨code, -, hsome⟩ := h.handed hended terminal hmem
  rw [hcode] at hsome
  cases hsome

/-- What the channel does aside keeps the bridge. -/
theorem onChannel (h : s.Sound P ctx) {actions : List ChannelAction}
    (hall : ∀ a ∈ actions, a.IsAside) (hstep : s.onChannel actions = some t) : t.Sound P ctx := by
  obtain ⟨channel, hrun, rfl⟩ := Option.map_eq_some_iff.mp hstep
  exact h.aside (RunningChannel.aside_run hall hrun) rfl rfl rfl rfl rfl id

/-- A step of `receive`, and what `download` does when it returns. -/
theorem receive (h : s.Sound P ctx) (hended : s.ended = none) (hreceiving : s.download = .receiving)
    {a : ChannelAction} (ha : a.isReceive = true)
    (hstep : ((s.onChannel [a]).bind fun s =>
      if s.channel.receives = [] then s.receiveReturns else some s) = some t) :
    t.Sound P ctx ∧ s.channel.returned ⊆ t.channel.returned ∧
      (t.ended = none ∨ ∃ kind message, t.ended = some (.receive ⟨kind, message⟩) ∧
        s.channel.state.terminal = some (.error kind message)) := by
  have hcode : s.download.code = none := by rw [hreceiving]; rfl
  have hcalls := h.calls hended
  rw [hreceiving] at hcalls
  obtain ⟨call, hcall⟩ := List.length_eq_one_iff.mp hcalls
  have hbetween : s.Between P ctx :=
    (Bridge.wired_iff_between (by rw [hreceiving]; rfl)).mp h.wired
  obtain ⟨u, hu, hreturns⟩ := Option.bind_eq_some_iff.mp hstep
  obtain ⟨channel, hrun, rfl⟩ := Option.map_eq_some_iff.mp hu
  rw [System.run_cons, Option.bind_eq_some_iff] at hrun
  obtain ⟨c, hone, hnil⟩ := hrun
  obtain rfl := Option.some.inj hnil
  have hreachable := h.channel.step hone
  have hcarried (hreceives : c.receives = []) (hsending : c.sending = s.channel.sending)
      (hreplies : c.replies = s.channel.replies) :
      ∀ reply ∈ c.carried, FitsPacket reply.parts := by
    intro reply hreply
    rw [RunningChannel.carried, hreceives, hsending, hreplies, List.filterMap_nil,
      List.append_nil] at hreply
    exact h.carried reply (List.mem_append_left _ hreply)
  rcases RunningChannel.call_step hcall ha hone with ⟨⟨call', hcall'⟩, hreturned, hfits⟩ |
      ⟨hreceives, hsending, hreplies, terminal, hterminal, hreturned⟩ |
      ⟨hreceives, hsending, hreplies, reply, hreply, hreturned⟩
  · rw [if_neg (by rw [hcall']; exact List.cons_ne_nil _ _)] at hreturns
    obtain rfl := Option.some.inj hreturns
    refine ⟨⟨hreachable, fun _ => ?_, fun reply hreply => h.carried reply (hfits reply hreply),
      h.held, fun _ terminal hmem => ?_, fun code hsome => ?_, h.wired⟩, ?_, .inl hended⟩
    · dsimp only
      rw [hcall', hreceiving]
      rfl
    · dsimp only at hmem
      rw [hreturned] at hmem
      exact absurd hmem (h.not_handed hended hcode)
    · rw [hcode] at hsome
      cases hsome
    · rw [hreturned]
      exact List.Subset.refl _
  · rw [if_pos hreceives, Bridge.receiveReturns] at hreturns
    simp only [hreturned] at hreturns
    have hsubset : s.channel.returned ⊆ c.returned := by
      rw [hreturned]
      exact List.subset_cons_self _ _
    cases terminal with
    | transport code =>
      obtain rfl := Option.some.inj hreturns
      refine ⟨⟨hreachable, fun _ => ?_, hcarried hreceives hsending hreplies, ?_, ?_, ?_, ?_⟩,
        hsubset, .inl hended⟩
      · dsimp only
        rw [hreceives]
        rfl
      · intro reply heq
        obtain rfl := Download.received.inj heq
        exact fitsPacket_transportError code
      · intro _ terminal' hmem
        dsimp only at hmem
        rw [hreturned] at hmem
        rcases List.mem_cons.mp hmem with heq | hold
        · exact ⟨code, ReceiveEvent.handed.inj heq, rfl⟩
        · exact absurd hold (h.not_handed hended hcode)
      · intro code' hsome
        obtain rfl := Option.some.inj hsome
        dsimp only
        rw [hreturned]
        exact List.mem_cons_self ..
      · exact (Bridge.wired_iff_between rfl).mpr hbetween
    | error kind message =>
      obtain rfl := Option.some.inj hreturns
      refine ⟨⟨hreachable, fun hnone => ?_, hcarried hreceives hsending hreplies, h.held,
        fun hnone => ?_, fun code hsome => hsubset (h.told code hsome), h.wired⟩, hsubset,
        .inr ⟨kind, message, rfl, hterminal⟩⟩
      · cases hnone
      · cases hnone
  · rw [if_pos hreceives, Bridge.receiveReturns] at hreturns
    simp only [hreturned] at hreturns
    obtain rfl := Option.some.inj hreturns
    refine ⟨⟨hreachable, fun _ => ?_, hcarried hreceives hsending hreplies, ?_, ?_,
      fun _ hsome => ?_, ?_⟩, ?_, .inl hended⟩
    · dsimp only
      rw [hreceives]
      rfl
    · intro reply' heq
      obtain rfl := Download.received.inj heq
      exact h.carried reply hreply
    · intro _ terminal hmem
      dsimp only at hmem
      rw [hreturned] at hmem
      rcases List.mem_cons.mp hmem with heq | hold
      · cases heq
      · exact absurd hold (h.not_handed hended hcode)
    · cases hsome
    · exact (Bridge.wired_iff_between rfl).mpr hbetween
    · rw [hreturned]
      exact List.subset_cons_self _ _

/-- A reply that has been received can be cut into pieces. -/
theorem begin_pieces (h : s.Sound P ctx) {reply : H2Reply}
    (hreceived : s.download = .received reply)
    (random : UInt8) (padding : Block 15) :
    ∃ pieces, (⟨reply.parts, random, padding⟩ : NativeReply).pieces ctx.protocol ctx.bufferSize =
        .ok pieces ∧
      ∀ time, Sound P ctx { s with
        lastActivity := time
        download := .writing reply ⟨reply.parts, random, padding⟩ [] pieces } := by
  obtain ⟨packet, pieces, hpayload, hpieces, hbytes⟩ :=
    (h.held reply hreceived random padding).pieces ctx.protocol ctx.bufferSize
  have hcode : (Download.writing reply ⟨reply.parts, random, padding⟩ [] pieces).code =
      s.download.code := by
    rw [hreceived, Download.code_writing]
  refine ⟨pieces, hpieces, fun time => h.goOn rfl rfl (by rw [hreceived]; rfl) hcode nofun ?_⟩
  obtain ⟨packets, hpackets, hsends⟩ :=
    (Bridge.wired_iff_between (by rw [hreceived]; rfl)).mp h.wired
  refine ⟨packets, hpackets, packet, [], [], ⟨rfl, hpayload, hbytes.symm⟩, ?_⟩
  rwa [List.append_nil]

/-- Of a reply that is being written a front is sent, and what is encrypted is sent next. -/
theorem wired_writing (h : s.Sound P ctx) {reply : H2Reply} {native : NativeReply}
    {encrypted : Bytes} {pieces : List Bytes}
    (hwriting : s.download = .writing reply native encrypted pieces) :
    ∃ packets : List (Packet ctx.protocol),
      packets.map Packet.payload = s.written.map (·.padded ctx.protocol) ∧
        ∃ (packet : Packet ctx.protocol) (sent rest : Bytes),
          InProgress packet reply native sent rest pieces ∧
            Sends P ctx.clientEncrypt s.wire encrypted s.encrypt
              (packets.flatMap Packet.bytes ++ sent) rest := by
  have hwired := h.wired
  rwa [Bridge.Wired, hwriting] at hwired

/-- Framing a piece keeps the bridge. -/
theorem encryptPiece (h : s.Sound P ctx) {reply : H2Reply} {native : NativeReply} {piece : Bytes}
    {pieces : List Bytes} (hwriting : s.download = .writing reply native [] (piece :: pieces)) :
    Sound P ctx { s with
      encrypt := s.encrypt.advance piece.length
      download := .writing reply native (s.encrypt.output P piece) pieces } := by
  have hcode : (Download.writing reply native (s.encrypt.output P piece) pieces).code =
      s.download.code := by
    rw [hwriting, Download.code_writing, Download.code_writing]
  refine h.goOn rfl rfl (by rw [hwriting]; rfl) hcode nofun ?_
  obtain ⟨packets, hpackets, packet, sent, rest, hprogress, hsends⟩ := h.wired_writing hwriting
  obtain rfl : rest = [] := List.length_eq_zero_iff.mp hsends.length.symm
  refine ⟨packets, hpackets, packet, sent, piece, ⟨hprogress.parts, hprogress.payload, ?_⟩,
    ⟨?_, AesCtr.length_output .., ?_⟩⟩
  · have hbytes := hprogress.bytes
    rwa [List.append_nil, List.flatten_cons, ← List.append_assoc] at hbytes
  · have hwire := hsends.wire
    have hencrypt := hsends.encrypt
    rw [List.append_nil, List.append_nil] at hwire
    rw [List.append_nil] at hencrypt
    dsimp only
    rw [hwire, hencrypt, ← AesCtr.output_append]
  · have hencrypt := hsends.encrypt
    rw [List.append_nil] at hencrypt
    dsimp only
    rw [hencrypt, AesCtr.advance_advance, ← List.length_append]

/-- A write of a part of the frame keeps the bridge. -/
theorem write (h : s.Sound P ctx) {reply : H2Reply} {native : NativeReply} {encrypted : Bytes}
    {pieces : List Bytes} (hwriting : s.download = .writing reply native encrypted pieces)
    (count time : Nat) :
    Sound P ctx { s with
      wire := s.wire ++ encrypted.take count
      download := .writing reply native (encrypted.drop count) pieces
      lastActivity := time } := by
  have hcode : (Download.writing reply native (encrypted.drop count) pieces).code =
      s.download.code := by
    rw [hwriting, Download.code_writing, Download.code_writing]
  refine h.goOn rfl rfl (by rw [hwriting]; rfl) hcode nofun ?_
  obtain ⟨packets, hpackets, packet, sent, rest, hprogress, hsends⟩ := h.wired_writing hwriting
  have hsplit : sent ++ rest.take count ++ rest.drop count = sent ++ rest := by
    rw [List.append_assoc, List.take_append_drop]
  have hplain : packets.flatMap Packet.bytes ++ (sent ++ rest.take count) ++ rest.drop count =
      packets.flatMap Packet.bytes ++ sent ++ rest := by
    rw [List.append_assoc, hsplit, List.append_assoc]
  refine ⟨packets, hpackets, packet, sent ++ rest.take count, rest.drop count,
    ⟨hprogress.parts, hprogress.payload, ?_⟩, ⟨?_, ?_, ?_⟩⟩
  · rw [hsplit]
    exact hprogress.bytes
  · dsimp only
    rw [List.append_assoc, List.take_append_drop, hplain]
    exact hsends.wire
  · rw [List.length_drop, List.length_drop, hsends.length]
  · rw [hplain]
    exact hsends.encrypt

/-- What is written is the body of the reply. -/
theorem native_parts (h : s.Sound P ctx) {reply : H2Reply} {native : NativeReply}
    {encrypted : Bytes} {pieces : List Bytes}
    (hwriting : s.download = .writing reply native encrypted pieces) :
    native.parts = reply.parts := by
  obtain ⟨-, -, packet, sent, rest, hprogress, -⟩ := h.wired_writing hwriting
  exact hprogress.parts

/-- A reply that is written as a whole. -/
theorem between_written (h : s.Sound P ctx) {reply : H2Reply} {native : NativeReply}
    (hwriting : s.download = .writing reply native [] []) (t : Bridge)
    (hwire : t.wire = s.wire) (hencrypt : t.encrypt = s.encrypt)
    (hwritten : t.written = s.written ++ [native]) :
    t.Between P ctx := by
  obtain ⟨packets, hpackets, packet, sent, rest, hprogress, hsends⟩ := h.wired_writing hwriting
  obtain rfl : rest = [] := List.length_eq_zero_iff.mp hsends.length.symm
  have hbytes : packet.bytes = sent := by
    rw [hprogress.bytes, List.flatten_nil, List.append_nil, List.append_nil]
  have hplain : (packets ++ [packet]).flatMap Packet.bytes =
      packets.flatMap Packet.bytes ++ sent := by
    rw [List.flatMap_append, List.flatMap_singleton, hbytes]
  refine ⟨packets ++ [packet], ?_, ?_⟩
  · rw [List.map_append, hpackets, hwritten, List.map_append, List.map_singleton,
      List.map_singleton, hprogress.payload]
  · rw [hwire, hencrypt, hplain]
    exact hsends

/-- After a packet `download` receives again. -/
theorem flushed_packet (h : s.Sound P ctx) {reply : BufferedReply} {native : NativeReply}
    (hended : s.ended = none) (hwriting : s.download = .writing (.packet reply) native [] [])
    (hstep : (({ s with written := s.written ++ [native] } : Bridge).onChannel
      [.progress, .nativeWrite false, .replyDropped reply.length, .receive]).map
        (fun s => { s with download := .receiving }) = some t) :
    t.Sound P ctx ∧ t.channel.returned = s.channel.returned ∧ t.ended = none := by
  obtain ⟨u, hu, rfl⟩ := Option.map_eq_some_iff.mp hstep
  obtain ⟨c, hrun, rfl⟩ := Option.map_eq_some_iff.mp hu
  have hreachable := h.channel.run hrun
  obtain rfl := Option.some.inj hrun
  have hcalls := h.calls hended
  rw [hwriting] at hcalls
  have hnone : s.channel.receives = [] := List.length_eq_zero_iff.mp hcalls
  have hcode : s.download.code = none := by rw [hwriting]; rfl
  refine ⟨⟨hreachable, fun _ => ?_, fun reply' hreply' => h.carried reply' ?_, nofun,
    fun _ terminal hmem => ?_, nofun, ?_⟩, rfl, hended⟩
  · dsimp only
    rw [hnone]
    rfl
  · have hentered : (s.channel.receives ++ [Receive.entered]).filterMap Receive.reply? =
        s.channel.receives.filterMap Receive.reply? := by
      rw [List.filterMap_append]
      exact List.append_nil _
    change reply' ∈ s.channel.sending ++ s.channel.replies ++
      (s.channel.receives ++ [Receive.entered]).filterMap Receive.reply? at hreply'
    rwa [hentered] at hreply'
  · exact absurd hmem (h.not_handed hended hcode)
  · refine (Bridge.wired_iff_between rfl).mpr (h.between_written hwriting _ ?_ ?_ ?_) <;> rfl

end Bridge.Sound

end TgWsProxy.H2
