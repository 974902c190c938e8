import TgWsProxy.H2.BridgeInvariant

/-!
# Terminals reach the client

Every step of a bridge keeps its invariant and ends it only for a reason; in every run what the
client gets is framed, and the code of a transport error reaches it.
-/

namespace TgWsProxy.H2

open TgWsProxy.Core

variable {P : Primitives} {ctx : BridgeContext}

/-- How a bridge that was in the state `s` ends with `t`. -/
def Bridge.EndsBy (P : Primitives) (ctx : BridgeContext) (s t : Bridge) : Ending → Prop
  | .terminal code => s.download.code = some code ∧ ∃ earlier native,
      t.written = earlier ++ [native] ∧ native.parts = (H2Reply.transportError code).parts ∧
        t.Between P ctx
  | .receive _ => ∃ kind message, s.channel.state.terminal = some (.error kind message)
  | .refused _ => False
  | .upload _ => s.channel.closed = false
  | .write _ | .idle => True

/-- What a step does to a bridge. -/
structure Bridge.Goes (P : Primitives) (ctx : BridgeContext) (s t : Bridge) : Prop where
  sound : t.Sound P ctx
  returned : s.channel.returned ⊆ t.channel.returned
  ends : s.ended = none → ∀ e, t.ended = some e → s.EndsBy P ctx t e

namespace Bridge.Sound

variable {s t : Bridge}

private theorem goes_onChannel (h : s.Sound P ctx) {actions : List ChannelAction}
    (hall : ∀ a ∈ actions, a.IsAside) (hstep : s.onChannel actions = some t) :
    s.Goes P ctx t := by
  refine ⟨h.onChannel hall hstep, ?_, ?_⟩
  · obtain ⟨c, hrun, rfl⟩ := Option.map_eq_some_iff.mp hstep
    exact (RunningChannel.aside_run hall hrun).returned
  · obtain ⟨c, hrun, rfl⟩ := Option.map_eq_some_iff.mp hstep
    intro hended e he
    rw [hended] at he
    cases he

/-- A step that does not touch the channel and does not end the bridge. -/
theorem goes_on (ht : t.Sound P ctx) (hchannel : t.channel = s.channel)
    (hended : t.ended = s.ended) : s.Goes P ctx t := by
  refine ⟨ht, hchannel ▸ List.Subset.refl _, fun hnone e he => ?_⟩
  rw [hended, hnone] at he
  cases he

/-- A step of another branch that goes on. -/
theorem goes_keep (h : s.Sound P ctx) (hchannel : t.channel = s.channel)
    (hencrypt : t.encrypt = s.encrypt) (hwire : t.wire = s.wire)
    (hdownload : t.download = s.download) (hwritten : t.written = s.written)
    (hended : t.ended = s.ended) : s.Goes P ctx t :=
  (h.keep hchannel hencrypt hwire hdownload hwritten hended.symm.trans).goes_on hchannel hended

/-- After a terminal `download` returns. -/
theorem flushed_transportError (h : s.Sound P ctx) {code : Int32} {native : NativeReply}
    (hwriting : s.download = .writing (.transportError code) native [] [])
    (hstep : (({ s with written := s.written ++ [native] } : Bridge).onChannel
      [.progress, .nativeWrite false]).map
        (fun s => { s with download := .returned, ended := some (.terminal code) }) = some t) :
    s.Goes P ctx t := by
  obtain ⟨u, hu, rfl⟩ := Option.map_eq_some_iff.mp hstep
  obtain ⟨c, hrun, rfl⟩ := Option.map_eq_some_iff.mp hu
  have haside := RunningChannel.aside_run
    (by simp [ChannelAction.IsAside, ChannelAction.isBeside]) hrun
  refine ⟨⟨haside.reachable h.channel, nofun, haside.carried h.carried, nofun, nofun, nofun, ?_⟩,
    haside.returned, fun _ e he => ?_⟩
  · refine (Bridge.wired_iff_between rfl).mpr (h.between_written hwriting _ ?_ ?_ ?_) <;> rfl
  · rw [← Option.some.inj he]
    refine ⟨by rw [hwriting]; rfl, s.written, native, rfl, h.native_parts hwriting, ?_⟩
    refine h.between_written hwriting _ ?_ ?_ ?_ <;> rfl

/-- The steps of the download. -/
theorem downloadStep (h : s.Sound P ctx) (hended : s.ended = none) {action : BridgeAction}
    (hstep : s.downloadStep P ctx action = some t) : s.Goes P ctx t := by
  cases action with
  | receive a =>
    cases hdownload : s.download with
    | received _ | writing _ _ _ _ | returned => simp [Bridge.downloadStep, hdownload] at hstep
    | receiving =>
      simp only [Bridge.downloadStep, hdownload] at hstep
      obtain ⟨ha, heq⟩ := Option.ite_none_right_eq_some.mp hstep
      obtain ⟨hsound, hreturned, hends⟩ := h.receive hended hdownload ha heq
      refine ⟨hsound, hreturned, fun _ e he => ?_⟩
      obtain hnone | ⟨kind, message, hsome, hterminal⟩ := hends
      · rw [hnone] at he
        cases he
      · rw [hsome] at he
        rw [← Option.some.inj he]
        exact ⟨kind, message, hterminal⟩
  | begin random padding =>
    cases hdownload : s.download with
    | receiving | writing _ _ _ _ | returned => simp [Bridge.downloadStep, hdownload] at hstep
    | received reply =>
      simp only [Bridge.downloadStep, hdownload] at hstep
      obtain ⟨u, hu, rfl⟩ := Option.map_eq_some_iff.mp hstep
      have hgoes := h.goes_onChannel (by simp [ChannelAction.IsAside, ChannelAction.isBeside]) hu
      obtain ⟨c, -, rfl⟩ := Option.map_eq_some_iff.mp hu
      obtain ⟨pieces, hpieces, hsound⟩ := hgoes.sound.begin_pieces hdownload random padding
      dsimp only
      rw [hpieces]
      refine ⟨hsound _, hgoes.returned, fun _ e he => ?_⟩
      rw [hended] at he
      cases he
  | encryptPiece =>
    cases hdownload : s.download with
    | receiving | received _ | returned => simp [Bridge.downloadStep, hdownload] at hstep
    | writing reply native encrypted pieces =>
      cases encrypted with
      | cons _ _ => simp [Bridge.downloadStep, hdownload] at hstep
      | nil =>
        cases pieces with
        | nil => simp [Bridge.downloadStep, hdownload] at hstep
        | cons piece pieces =>
          simp only [Bridge.downloadStep, hdownload] at hstep
          obtain rfl := Option.some.inj hstep
          exact (h.encryptPiece hdownload).goes_on rfl rfl
  | write count =>
    cases hdownload : s.download with
    | receiving | received _ | returned => simp [Bridge.downloadStep, hdownload] at hstep
    | writing reply native encrypted pieces =>
      simp only [Bridge.downloadStep, hdownload] at hstep
      obtain ⟨-, heq⟩ := Option.ite_none_right_eq_some.mp hstep
      obtain rfl := Option.some.inj heq
      exact (h.write hdownload count _).goes_on rfl rfl
  | writeFailed e =>
    cases hdownload : s.download with
    | receiving | received _ | returned => simp [Bridge.downloadStep, hdownload] at hstep
    | writing reply native encrypted pieces =>
      simp only [Bridge.downloadStep, hdownload] at hstep
      obtain rfl := Option.some.inj hstep
      refine ⟨h.keep rfl rfl rfl hdownload.symm rfl nofun, List.Subset.refl _, fun _ e' he => ?_⟩
      rw [← Option.some.inj he]
      trivial
  | flushed =>
    cases hdownload : s.download with
    | receiving | received _ | returned => simp [Bridge.downloadStep, hdownload] at hstep
    | writing reply native encrypted pieces =>
      cases encrypted with
      | cons _ _ => simp [Bridge.downloadStep, hdownload] at hstep
      | nil =>
        cases pieces with
        | cons _ _ => simp [Bridge.downloadStep, hdownload] at hstep
        | nil =>
          cases reply with
          | packet reply =>
            simp only [Bridge.downloadStep, hdownload] at hstep
            obtain ⟨hsound, hreturned, hnone⟩ := h.flushed_packet hended hdownload hstep
            refine ⟨hsound, hreturned ▸ List.Subset.refl _, fun _ e he => ?_⟩
            rw [hnone] at he
            cases he
          | transportError code =>
            simp only [Bridge.downloadStep, hdownload] at hstep
            exact h.flushed_transportError hdownload hstep
  | outside _ | answered _ _ _ _ | upload _ | uploadReads | uploadReturns _ | uploadLooks
  | recoveryLooks | recover _ _ _ | expired | close => cases hstep

/-- The steps of the upload. -/
theorem uploadStep (h : s.Sound P ctx) {action : BridgeAction}
    (hstep : s.uploadStep action = some t) : s.Goes P ctx t := by
  cases action with
  | upload a =>
    cases hupload : s.upload with
    | returned _ | parked => simp [Bridge.uploadStep, hupload] at hstep
    | active =>
      simp only [Bridge.uploadStep, hupload] at hstep
      obtain ⟨ha, heq⟩ := Option.ite_none_right_eq_some.mp hstep
      refine h.goes_onChannel (fun a' ha' => ?_) heq
      rw [List.mem_singleton.mp ha']
      exact isAside_of_isUpload ha
  | uploadReads | uploadReturns _ =>
    cases hupload : s.upload with
    | returned _ | parked => simp [Bridge.uploadStep, hupload] at hstep
    | active =>
      simp only [Bridge.uploadStep, hupload] at hstep
      obtain rfl := Option.some.inj hstep
      exact h.goes_keep rfl rfl rfl rfl rfl rfl
  | uploadLooks =>
    cases hupload : s.upload with
    | active | parked => simp [Bridge.uploadStep, hupload] at hstep
    | returned e =>
      simp only [Bridge.uploadStep, hupload] at hstep
      split at hstep
      · obtain rfl := Option.some.inj hstep
        exact h.goes_keep rfl rfl rfl rfl rfl rfl
      · next hopen =>
        obtain rfl := Option.some.inj hstep
        refine ⟨h.keep rfl rfl rfl rfl rfl nofun, List.Subset.refl _, fun _ e' he => ?_⟩
        rw [← Option.some.inj he]
        exact (Bool.not_eq_true _).mp hopen
  | outside _ | answered _ _ _ _ | receive _ | begin _ _ | encryptPiece | write _ | writeFailed _
  | flushed | recoveryLooks | recover _ _ _ | expired | close => cases hstep

/-- The steps of the recovery loop. -/
theorem recoveryStep (h : s.Sound P ctx) (hended : s.ended = none) {action : BridgeAction}
    (hstep : s.recoveryStep action = some t) : s.Goes P ctx t := by
  cases action with
  | recoveryLooks =>
    cases hrecovery : s.recovery with
    | awake | parked => simp [Bridge.recoveryStep, hrecovery] at hstep
    | sleeping =>
      simp only [Bridge.recoveryStep, hrecovery] at hstep
      split at hstep
      all_goals
        obtain rfl := Option.some.inj hstep
        exact h.goes_keep rfl rfl rfl rfl rfl rfl
  | recover room budgets granted =>
    cases hrecovery : s.recovery with
    | sleeping | parked => simp [Bridge.recoveryStep, hrecovery] at hstep
    | awake =>
      simp only [Bridge.recoveryStep, hrecovery] at hstep
      obtain ⟨u, hu, rfl⟩ := Option.map_eq_some_iff.mp hstep
      have hgoes := h.goes_onChannel (by simp [ChannelAction.IsAside, ChannelAction.isBeside]) hu
      refine ⟨hgoes.sound.keep rfl rfl rfl rfl rfl id, hgoes.returned, fun _ e he => ?_⟩
      exact hgoes.ends hended e he
  | outside _ | answered _ _ _ _ | receive _ | begin _ _ | encryptPiece | write _ | writeFailed _
  | flushed | upload _ | uploadReads | uploadReturns _ | uploadLooks | expired | close =>
    cases hstep

/-- Every step of a bridge. -/
theorem step (h : s.Sound P ctx) {action : BridgeAction}
    (hstep : s.step P ctx action = some t) : s.Goes P ctx t := by
  have hopen {u : Option Bridge} (hsome : (if s.ended.isSome then none else u) = some t) :
      s.ended = none ∧ u = some t := by
    obtain ⟨hnone, heq⟩ := Option.ite_none_left_eq_some.mp hsome
    exact ⟨Option.not_isSome_iff_eq_none.mp hnone, heq⟩
  cases action with
  | outside a =>
    obtain ⟨ha, heq⟩ := Option.ite_none_right_eq_some.mp hstep
    refine h.goes_onChannel (fun a' ha' => ?_) heq
    rw [List.mem_singleton.mp ha']
    exact isAside_of_isOutside ha
  | answered request response memory charge =>
    refine h.goes_onChannel (fun a ha => ?_) hstep
    rw [List.mem_singleton.mp ha]
    exact isAside_answerAction request response memory charge
  | close =>
    obtain ⟨-, heq⟩ := Option.ite_none_right_eq_some.mp hstep
    exact h.goes_onChannel (by simp [ChannelAction.IsAside, ChannelAction.isBeside]) heq
  | expired =>
    obtain ⟨-, heq⟩ := Option.ite_none_right_eq_some.mp hstep
    obtain rfl := Option.some.inj heq
    refine ⟨h.keep rfl rfl rfl rfl rfl nofun, List.Subset.refl _, fun _ e he => ?_⟩
    rw [← Option.some.inj he]
    trivial
  | upload _ | uploadReads | uploadReturns _ | uploadLooks =>
    obtain ⟨-, heq⟩ := hopen hstep
    exact h.uploadStep heq
  | recoveryLooks | recover _ _ _ =>
    obtain ⟨hended, heq⟩ := hopen hstep
    exact h.recoveryStep hended heq
  | receive _ | begin _ _ | encryptPiece | write _ | writeFailed _ | flushed =>
    obtain ⟨hended, heq⟩ := hopen hstep
    exact h.downloadStep hended heq

end Bridge.Sound

/-- In every run a bridge is sound. -/
theorem Bridge.sound {s : Bridge} (h : (bridgeSystem P ctx).Reachable s) : s.Sound P ctx := by
  apply h.invariant
  · rintro s ⟨clock, rfl⟩
    have hopened : channelSystem.Reachable
        { clock, state := { lastProgress := some clock }, receives := [.entered] } := by
      have hstart : channelSystem.Reachable { clock, state := { lastProgress := some clock } } :=
        .start rfl
      exact hstart.step (a := .receive) rfl
    refine ⟨hopened, fun _ => rfl, nofun, nofun, nofun, nofun, ?_⟩
    refine (Bridge.wired_iff_between rfl).mpr ⟨[], rfl, ?_, rfl, rfl⟩
    exact (List.eq_nil_of_length_eq_zero (AesCtr.length_output ctx.clientEncrypt [])).symm
  · intro s action t hs hstep
    exact (hs.step hstep).sound

/-! ## Terminals reach the client -/

/-- Decrypted, the client has the packets of the replies that are written, and `front`. -/
def Bridge.Shows (P : Primitives) (ctx : BridgeContext) (s : Bridge) (front : Bytes) : Prop :=
  ∃ packets : List (Packet ctx.protocol),
    packets.map Packet.payload = s.written.map (·.padded ctx.protocol) ∧
    ctx.clientEncrypt.output P s.wire = packets.flatMap Packet.bytes ++ front

/-- Complete packets, and a front of the packet of the reply that is being written. -/
def Bridge.Framed (P : Primitives) (ctx : BridgeContext) (s : Bridge) : Prop :=
  ∃ front, s.Shows P ctx front ∧
    match s.download with
    | .writing _ native _ _ => ∃ packet : Packet ctx.protocol,
        packet.payload = native.padded ctx.protocol ∧ front <+: packet.bytes
    | _ => front = []

/-- The bridge goes on, or it has ended in one of the ways that lose no terminal. -/
inductive Bridge.Delivers (P : Primitives) (ctx : BridgeContext) (code : Int32) (s : Bridge) : Prop
  | goesOn (hended : s.ended = none)
  | terminal (hended : s.ended = some (.terminal code)) (earlier : List NativeReply)
      (native : NativeReply) (hwritten : s.written = earlier ++ [native])
      (hbody : native.body = toLe 4 code.toUInt32.toNat) (hshows : s.Shows P ctx [])
  | write (e : IoError) (hended : s.ended = some (.write e))
  | idle (hended : s.ended = some .idle)

/-- What has been taken is the front of what has been encrypted. -/
theorem Sends.output_wire {stream : AesCtr} {wire encrypted : Bytes} {encrypt : AesCtr}
    {plain rest : Bytes} (h : Sends P stream wire encrypted encrypt plain rest) :
    stream.output P wire = plain := by
  have hlength : wire.length = plain.length := by
    have htotal := congrArg List.length h.wire
    rw [List.length_append, AesCtr.length_output, List.length_append, h.length] at htotal
    omega
  have hwire : wire = stream.output P plain := by
    have htake := congrArg (List.take wire.length) h.wire
    rwa [List.take_left, hlength, AesCtr.take_output, List.take_left] at htake
  rw [hwire, AesCtr.output_output]

/-- Whole frames show their packets. -/
theorem Bridge.Between.shows {s : Bridge} (h : s.Between P ctx) : s.Shows P ctx [] := by
  obtain ⟨packets, hpackets, hsends⟩ := h
  exact ⟨packets, hpackets, hsends.output_wire.trans (List.append_nil _).symm⟩

/-- At every moment the wire shows whole frames and a part of one. -/
theorem Bridge.Sound.framed {s : Bridge} (h : s.Sound P ctx) : s.Framed P ctx := by
  cases hdownload : s.download with
  | receiving | received _ | returned =>
    have hwriting : s.download.isWriting = false := by rw [hdownload]; rfl
    refine ⟨[], ((Bridge.wired_iff_between hwriting).mp h.wired).shows, ?_⟩
    rw [hdownload]
  | writing reply native encrypted pieces =>
    have hwired := h.wired
    rw [Bridge.Wired, hdownload] at hwired
    obtain ⟨packets, hpackets, packet, sent, rest, hprogress, hsends⟩ := hwired
    refine ⟨sent, ⟨packets, hpackets, hsends.output_wire⟩, ?_⟩
    rw [hdownload]
    refine ⟨packet, hprogress.payload, ?_⟩
    rw [hprogress.bytes, List.append_assoc]
    exact List.prefix_append _ _

/-- After the end nothing is written. -/
theorem Bridge.step_of_ended {s t : Bridge} {action : BridgeAction} (hended : s.ended.isSome = true)
    (hstep : s.step P ctx action = some t) :
    t.ended = s.ended ∧ t.written = s.written ∧ t.wire = s.wire := by
  have hchannel {actions : List ChannelAction} (h : s.onChannel actions = some t) :
      t.ended = s.ended ∧ t.written = s.written ∧ t.wire = s.wire := by
    obtain ⟨c, -, rfl⟩ := Option.map_eq_some_iff.mp h
    exact ⟨rfl, rfl, rfl⟩
  cases action with
  | outside a => exact hchannel (Option.ite_none_right_eq_some.mp hstep).2
  | answered request response memory charge => exact hchannel hstep
  | close => exact hchannel (Option.ite_none_right_eq_some.mp hstep).2
  | expired =>
    obtain ⟨⟨hnone, -⟩, -⟩ := Option.ite_none_right_eq_some.mp hstep
    rw [Option.isNone_iff_eq_none.mp hnone] at hended
    cases hended
  | upload _ | uploadReads | uploadReturns _ | uploadLooks | recoveryLooks | recover _ _ _
  | receive _ | begin _ _ | encryptPiece | write _ | writeFailed _ | flushed =>
    exact absurd hended (Option.ite_none_left_eq_some.mp hstep).1

private theorem Bridge.Delivers.of_ended {s t : Bridge} {code : Int32} (h : s.Delivers P ctx code)
    (hended : t.ended = s.ended) (hwritten : t.written = s.written) (hwire : t.wire = s.wire) :
    t.Delivers P ctx code := by
  cases h with
  | goesOn h => exact .goesOn (hended.trans h)
  | terminal h earlier native hw hbody hshows =>
    refine .terminal (hended.trans h) earlier native (hwritten.trans hw) hbody ?_
    obtain ⟨packets, hpackets, hout⟩ := hshows
    exact ⟨packets, hwritten ▸ hpackets, hwire ▸ hout⟩
  | write e h => exact .write e (hended.trans h)
  | idle h => exact .idle (hended.trans h)

/-- A step of a bridge that still runs, with the terminal recorded. -/
theorem Bridge.Sound.delivers {s t : Bridge} (h : s.Sound P ctx) {code : Int32}
    (hended : s.ended = none) (hfailed : .failed (.transport code) ∈ s.channel.returned)
    {action : BridgeAction} (hstep : s.step P ctx action = some t) : t.Delivers P ctx code := by
  have hgoes := h.step hstep
  have hlife := life_of_reachable h.channel
  cases hend : t.ended with
  | none => exact .goesOn hend
  | some ending =>
    have hends := hgoes.ends hended ending hend
    cases ending with
    | terminal code' =>
      obtain ⟨hcode, earlier, native, hwritten, hparts, hbetween⟩ := hends
      have heq := hlife.handed_eq hfailed (h.told code' hcode)
      obtain rfl := Terminal.transport.inj heq
      refine .terminal hend earlier native hwritten ?_ hbetween.shows
      rw [NativeReply.body, hparts, H2Reply.parts, List.flatten_singleton]
    | receive e =>
      obtain ⟨kind, message, hterminal⟩ := hends
      cases hlife.terminal_eq hfailed hterminal
    | refused e => exact hends.elim
    | write e => exact .write e hend
    | upload e =>
      have hclosed := (hlife.emptied ⟨_, hfailed⟩).closed
      have hopen : s.channel.closed = false := hends
      rw [hclosed] at hopen
      cases hopen
    | idle => exact .idle hend

/-- From the moment a transport error is recorded, a bridge that has not ended before ends
with it, and the client sees whole packets at every moment. -/
theorem terminalDelivered {s : Bridge} (h : (bridgeSystem P ctx).Reachable s) :
    s.Framed P ctx ∧ ∀ code actions t, s.ended = none →
      .failed (.transport code) ∈ s.channel.returned →
      (bridgeSystem P ctx).run s actions = some t → t.Delivers P ctx code := by
  refine ⟨(Bridge.sound h).framed, fun code actions t hended hfailed hrun => ?_⟩
  have hpreserved : t.Sound P ctx ∧ .failed (.transport code) ∈ t.channel.returned ∧
      t.Delivers P ctx code := by
    refine System.run_preserves (m := bridgeSystem P ctx)
      (P := fun u => u.Sound P ctx ∧ .failed (.transport code) ∈ u.channel.returned ∧
        u.Delivers P ctx code)
      ?_ ⟨Bridge.sound h, hfailed, .goesOn hended⟩ hrun
    rintro u action v ⟨hsound, hrecorded, hdelivers⟩ hstep
    have hgoes := hsound.step hstep
    refine ⟨hgoes.sound, hgoes.returned hrecorded, ?_⟩
    by_cases hopen : u.ended = none
    · exact hsound.delivers hopen hrecorded hstep
    · obtain ⟨hended', hwritten, hwire⟩ :=
        Bridge.step_of_ended (Option.isSome_iff_ne_none.mpr hopen) hstep
      exact hdelivers.of_ended hended' hwritten hwire
  exact hpreserved.2.2

/-- The upload half returns with the failure, and the terminal is written all the same. -/
theorem terminalDelivered_upload :
    ∃ s t : Bridge,
      (bridgeSystem repeatingKey ⟨.intermediate, 10, 60, cipher [1, 2, 3] []⟩).run s
        [.uploadReturns ⟨.connectionAborted, "H2 channel closed"⟩, .uploadLooks,
          .receive (.enable 0), .receive (.take 0), .begin 0 ⟨List.replicate 15 0, rfl⟩,
          .encryptPiece, .write 1, .write 3, .encryptPiece, .write 4, .flushed] = some t ∧
      t.written.length = 1 ∧
      s.Framed repeatingKey ⟨.intermediate, 10, 60, cipher [1, 2, 3] []⟩ ∧
      t.Delivers repeatingKey ⟨.intermediate, 10, 60, cipher [1, 2, 3] []⟩ (-404) := by
  let m := bridgeSystem repeatingKey ⟨.intermediate, 10, 60, cipher [1, 2, 3] []⟩
  let start : Bridge :=
    { channel := { clock := 0, state := { lastProgress := some 0 }, receives := [.entered] }
      encrypt := cipher [1, 2, 3] []
      lastActivity := 0 }
  let s : Bridge :=
    { start with
      channel := {
        clock := 0
        state := { lastProgress := some 0, terminal := some (.transport (-404)) }
        closed := true
        waking := true
        receives := [.entered]
        aborted := (∅ : Std.TreeMap Nat Pending).keys
        returned := [.failed (.transport (-404))] } }
  have hrun : m.run start
      [.outside (.fail (.transport (-404))), .outside (.terminate processDefaults)] = some s := rfl
  have hstart : m.start start := ⟨0, rfl⟩
  obtain ⟨hframed, hdelivers⟩ := terminalDelivered ((System.Reachable.start hstart).run hrun)
  obtain ⟨t, ht, hcheck⟩ := m.exists_of_run s
    [.uploadReturns ⟨.connectionAborted, "H2 channel closed"⟩, .uploadLooks,
      .receive (.enable 0), .receive (.take 0), .begin 0 ⟨List.replicate 15 0, rfl⟩,
      .encryptPiece, .write 1, .write 3, .encryptPiece, .write 4, .flushed]
    (fun t => t.written.length = 1) (by decide +kernel)
  exact ⟨s, t, ht, of_decide_eq_true hcheck, hframed,
    hdelivers _ _ _ rfl (List.mem_cons_self ..) ht⟩

end TgWsProxy.H2
