import TgWsProxy.FrontSent

/-!
# The timers of a front

A connection that is not masked is over or with the upstream within twenty seconds, and a masked one
is within an idle limit of the last byte that was read on it.
-/

namespace TgWsProxy

open TgWsProxy.Core
open TgWsProxy.AsyncRead

variable {cfg : Config} {P : Primitives} {mac : Mac} {secret : Block 16} {epoch : Nat}
  {c : FrontConn} {now : Nat} {shared : FrontShared} {c' : FrontConn}

/-- The timers that a connection has still before it, and how late they can be. -/
def FrontConn.OnTime (cfg : Config) (now : Nat) (c : FrontConn) : Prop :=
  match c.stage with
  | .opening expiry => now ≤ expiry ∧ expiry ≤ c.began + seconds 10
  | .greeting _ expiry | .tlsHandshake expiry | .redirecting _ expiry | .plainHandshake _ expiry =>
    now ≤ expiry ∧ expiry ≤ c.began + seconds 20
  | .maskConnect _ expiry => now ≤ expiry ∧ expiry ≤ c.began + seconds 10 + cfg.connectLimit
  | .maskHello _ expiry =>
    now ≤ expiry ∧ expiry ≤ c.began + seconds 10 + cfg.connectLimit + cfg.idleLimit
  | .masking copies => copies.last ≤ now ∧ now ≤ copies.wake ∧
      copies.wake ≤ copies.last + cfg.idleLimit ∧
      ∀ up expiry, (copies.side up).expiry = some expiry →
        now ≤ expiry ∧ expiry ≤ copies.last + cfg.idleLimit
  | .connecting .. | .closed | .failed _ | .gone => True

/-- The stages behind opening keep its timer. -/
theorem onTime_openConn {expiry : Nat} (h : c.OnTime cfg now) (hstage : c.stage = .opening expiry)
    (key : Block 32) (payload : Bytes) :
    (openConn mac secret epoch cfg now c shared key payload).2.OnTime cfg now := by
  simp only [FrontConn.OnTime, hstage] at h
  have hten : now + seconds 10 ≤ c.began + seconds 20 := by
    unfold seconds at *
    omega
  unfold openConn
  split
  · trivial
  · dsimp only
    split
    · exact ⟨Nat.le_add_right .., hten⟩
    · exact ⟨Nat.le_add_right .., Nat.add_le_add_right (Nat.le_trans h.1 h.2) _⟩
  · dsimp only
    split
    · exact ⟨Nat.le_add_right .., hten⟩
    · exact ⟨Nat.le_add_right .., hten⟩

/-- Reading keeps the timer of the handshake. -/
theorem onTime_handshakeConn {grants : List (Option Nat)} {r : FrontResult}
    (hstep : handshakeConn P secret cfg c shared grants = some r) (h : c.OnTime cfg now) :
    r.2.OnTime cfg now := by
  have hread {c' : FrontConn} {result : Except IoError Bytes} (h : c'.OnTime cfg now) :
      (handshakeRead P secret cfg c' shared result).2.OnTime cfg now := by
    unfold handshakeRead
    split
    · trivial
    · split
      · unfold serveHandshake
        split
        · trivial
        · split <;> trivial
      · exact h
  unfold handshakeConn at hstep
  split at hstep
  · obtain ⟨⟨result, stream⟩, -, rfl⟩ := Option.map_eq_some_iff.mp hstep
    exact hread h
  · split at hstep
    · exact Option.some.inj hstep ▸ trivial
    · exact Option.some.inj hstep ▸ hread h
  · cases hstep

/-- A write keeps the timers. -/
theorem onTime_writeConn {n : Nat} {r : FrontResult} (hstep : writeConn now c shared n = some r)
    (h : c.OnTime cfg now) : r.2.OnTime cfg now := by
  unfold writeConn at hstep
  unfold FrontConn.OnTime at h ⊢
  cases hstage : c.stage <;> simp only [hstage] at h <;>
    simp only [hstage, Option.ite_none_right_eq_some, Option.some.injEq, reduceCtorEq] at hstep <;>
    obtain ⟨-, rfl⟩ := hstep
  case greeting left expiry =>
    by_cases hdone : left.drop n = []
    · simpa only [hdone, if_true, FrontConn.began_emit] using h
    · simpa only [hdone, if_false, FrontConn.began_emit] using h
  case maskHello left expiry =>
    by_cases hdone : left.drop n = []
    · simp only [hdone, if_true]
      refine ⟨Nat.le_refl _, Nat.le_refl _, Nat.le_add_right .., fun up expiry hexpiry => ?_⟩
      cases up <;> cases hexpiry
    · simpa only [hdone, if_false, FrontConn.began_emit] using h
  case redirecting left expiry =>
    by_cases hdone : left.drop n = []
    · simp only [hdone, if_true]
    · simpa only [hdone, if_false, FrontConn.began_emit] using h

/-- A read of one direction starts its timer again. -/
theorem onTime_copyReadConn {up : Bool} {r : FrontResult}
    (hstep : copyReadConn cfg now c shared up = some r) (h : c.OnTime cfg now) :
    r.2.OnTime cfg now := by
  unfold copyReadConn at hstep
  split at hstep
  · next copies hstage =>
    simp only [FrontConn.OnTime, hstage] at h
    obtain ⟨hlast, hwake, hidle, hexpiry⟩ := h
    split at hstep
    · cases hstep
    · obtain rfl := Option.some.inj hstep
      have hlate : copies.last + cfg.idleLimit ≤ now + cfg.idleLimit := Nat.add_le_add_right hlast _
      unfold FrontConn.OnTime
      by_cases hdone : ((c.source up).read cfg.bufferSize.toNat).1 = []
      · simp only [hdone, if_true]
      · simp only [hdone, if_false, Masking.last_put, Masking.wake_put, Masking.side_put]
        refine ⟨Nat.le_refl _, hwake, Nat.le_trans hidle hlate, fun up' expiry hside => ?_⟩
        split at hside
        · cases hside
          exact ⟨Nat.le_add_right .., Nat.le_refl _⟩
        · obtain ⟨hnow, hbound⟩ := hexpiry up' expiry hside
          exact ⟨hnow, Nat.le_trans hbound hlate⟩
  · cases hstep

/-- A write of one direction keeps the timers. -/
theorem onTime_copyWroteConn {up : Bool} {n : Nat} {r : FrontResult}
    (hstep : copyWroteConn c shared up n = some r) (h : c.OnTime cfg now) : r.2.OnTime cfg now := by
  unfold copyWroteConn at hstep
  split at hstep
  · next copies hstage =>
    simp only [FrontConn.OnTime, hstage] at h
    obtain ⟨hlast, hwake, hidle, hexpiry⟩ := h
    split at hstep
    · cases hstep
    · next left expiry hup =>
      obtain ⟨-, rfl⟩ := (Option.ite_none_right_eq_some.mp hstep).imp_right Option.some.inj
      simp only [FrontConn.OnTime, Masking.last_put, Masking.wake_put, Masking.side_put]
      refine ⟨hlast, hwake, hidle, fun up' expiry' hside => hexpiry up' expiry' ?_⟩
      split at hside
      · next hsame =>
        subst hsame
        split at hside
        · cases hside
        · rw [hup]
          exact hside
      · exact hside
  · cases hstep

/-- The sleep of `expired` ends when the connection has been idle for the limit. -/
theorem sleep_le {idle last now : Nat} (hlast : last ≤ now) (hidle : ¬idle ≤ now - last) :
    now + (idle - (now - last)) ≤ last + idle := by
  omega

/-- A timer that fires leaves those of the next stage. -/
theorem onTime_wakeConn {r : FrontResult} (hstep : wakeConn cfg now c shared = some r)
    (h : c.OnTime cfg now) : r.2.OnTime cfg now := by
  unfold wakeConn at hstep
  split at hstep
  · next copies hstage =>
    simp only [FrontConn.OnTime, hstage] at h
    obtain ⟨hlast, hwake, hidle, hexpiry⟩ := h
    split at hstep
    · cases hstep
    · split at hstep
      · exact Option.some.inj hstep ▸ trivial
      · next hlate =>
        obtain rfl := Option.some.inj hstep
        simp only [FrontConn.OnTime, Masking.side_wake]
        exact ⟨hlast, Nat.le_add_right .., sleep_le hlast hlate, hexpiry⟩
  · cases hstep

/-- Whatever a connection is told. -/
theorem onTime_stepConn {answer : FrontAnswer} {r : FrontResult} (h : c.OnTime cfg now)
    (hstep : stepConn P mac secret epoch cfg now c shared answer = some r) :
    r.2.OnTime cfg now := by
  cases answer with
  | opened key payload =>
    obtain ⟨expiry, hstage, rfl⟩ := stepConn_opened hstep
    exact onTime_openConn h hstage key payload
  | wrote n => exact onTime_writeConn hstep h
  | handshake grants => exact onTime_handshakeConn hstep h
  | connected =>
    obtain ⟨hello, expiry, hstage, rfl⟩ := stepConn_connected hstep
    simp only [FrontConn.OnTime, hstage] at h
    exact ⟨Nat.le_add_right .., Nat.add_le_add_right (Nat.le_trans h.1 h.2) _⟩
  | copyRead up => exact onTime_copyReadConn hstep h
  | copyWrote up n => exact onTime_copyWroteConn hstep h
  | woke => exact onTime_wakeConn hstep h
  | expired =>
    obtain ⟨-, hstep⟩ := Option.ite_none_right_eq_some.mp hstep
    exact Option.some.inj hstep ▸ trivial
  | fails e | dropped =>
    obtain ⟨-, hstep⟩ := Option.ite_none_left_eq_some.mp hstep
    exact Option.some.inj hstep ▸ trivial

/-- Time passes only up to the next timer. -/
theorem FrontConn.OnTime.tick {d : Nat} (h : c.OnTime cfg now) (hwaits : c.waits (now + d) = true) :
    c.OnTime cfg (now + d) := by
  rw [FrontConn.waits, Bool.and_eq_true, List.all_eq_true] at hwaits
  obtain ⟨hdeadlines, hwake⟩ := hwaits
  unfold FrontConn.OnTime at h ⊢
  unfold FrontConn.deadlines at hdeadlines
  cases hstage : c.stage <;> simp only [hstage] at h hdeadlines hwake ⊢
  case masking copies =>
    obtain ⟨hlast, -, hidle, hexpiry⟩ := h
    refine ⟨Nat.le_trans hlast (Nat.le_add_right ..), of_decide_eq_true hwake, hidle,
      fun up expiry hside =>
        ⟨of_decide_eq_true (hdeadlines expiry ?_), (hexpiry up expiry hside).2⟩⟩
    refine List.mem_filterMap.mpr ⟨copies.side up, ?_, hside⟩
    cases up
    · exact List.mem_cons_of_mem _ (List.mem_singleton_self _)
    · exact List.mem_cons_self ..
  all_goals exact ⟨of_decide_eq_true (hdeadlines _ (List.mem_singleton_self _)), h.2⟩

end TgWsProxy
