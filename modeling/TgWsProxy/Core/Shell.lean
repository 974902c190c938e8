import Mathlib.Logic.Basic

/-!
# Scripts that end at the first fault

What a script under `set -e` is made of: simple commands, assignments, conditions and tests. A
command is a name, what it does is a parameter, and so is what goes wrong at it. A script ends where
a command fails or a signal is handled, and tells where that is. A `Triple` says what holds at its
normal end and what holds where it stops; there is one rule for each form.
-/

namespace TgWsProxy.Core

/-- What goes wrong at a command: it fails, or a signal is handled behind it. Its effect may have
happened or not. -/
structure Fault where
  signal : Bool
  done : Bool
  deriving DecidableEq

/-- A script over commands `C` and a world `W`. -/
inductive Script (C W : Type)
  | skip
  /-- A command whose failure ends the script. -/
  | run (command : C)
  /-- An assignment or another builtin that cannot fail. -/
  | assign (command : C)
  /-- `if command; then body; fi`: a failure is an answer. -/
  | ask (command : C) (answer : W → Bool) (body : Script C W)
  /-- A test that reads the world. -/
  | whether (test : W → Bool) (body other : Script C W)
  | seq (first second : Script C W)

/-- Where a script has stopped. -/
structure Stop (C W : Type) where
  command : C
  fault : Fault
  world : W

namespace Script

variable {C W : Type} (effect : C → W → W) (fault : C → Option Fault)

/-- The world that a fault leaves. -/
def interrupted (c : C) (f : Fault) (w : W) : W := if f.done then effect c w else w

/-- Run a script to its end or to its first fault. -/
def exec : Script C W → W → Except (Stop C W) W
  | .skip, w => .ok w
  | .run c, w =>
    match fault c with
    | none => .ok (effect c w)
    | some f => .error ⟨c, f, interrupted effect c f w⟩
  | .assign c, w =>
    match fault c with
    | none => .ok (effect c w)
    | some f => if f.signal then .error ⟨c, f, effect c w⟩ else .ok (effect c w)
  | .ask c answer body, w =>
    match fault c with
    | none => if answer w then exec body w else .ok w
    | some f => if f.signal then .error ⟨c, f, w⟩ else .ok w
  | .whether test body other, w => if test w then exec body w else exec other w
  | .seq first second, w =>
    match exec first w with
    | .error stop => .error stop
    | .ok w' => exec second w'

/-- A script stops where something goes wrong. -/
theorem fault_of_error {s : Script C W} {w : W} {stop : Stop C W}
    (h : exec effect fault s w = .error stop) : fault stop.command = some stop.fault := by
  induction s generalizing w with
  | skip => cases h
  | run c =>
    rw [exec] at h
    cases hfault : fault c with
    | none => simp [hfault] at h
    | some f =>
      rw [hfault] at h
      cases h
      exact hfault
  | assign c =>
    rw [exec] at h
    cases hfault : fault c with
    | none => simp [hfault] at h
    | some f =>
      simp only [hfault] at h
      split at h
      · cases h
        exact hfault
      · cases h
  | ask c answer body ih =>
    rw [exec] at h
    cases hfault : fault c with
    | none =>
      simp only [hfault] at h
      split at h
      · exact ih h
      · cases h
    | some f =>
      simp only [hfault] at h
      split at h
      · cases h
        exact hfault
      · cases h
  | whether test body other ihbody ihother =>
    rw [exec] at h
    split at h
    · exact ihbody h
    · exact ihother h
  | seq first second ihfirst ihsecond =>
    rw [exec] at h
    cases hfirst : exec effect fault first w with
    | error stop' =>
      rw [hfirst] at h
      cases h
      exact ihfirst hfirst
    | ok w' =>
      rw [hfirst] at h
      exact ihsecond h

/-- Commands one after the other. -/
def all : List C → Script C W
  | [] => .skip
  | c :: cs => .seq (.run c) (all cs)

/-- From a world in `P` the script ends in `Q`, or stops in `E`. -/
def Triple (P : W → Prop) (s : Script C W) (Q : W → Prop) (E : Stop C W → Prop) : Prop :=
  ∀ w, P w → match exec effect fault s w with
    | .ok w' => Q w'
    | .error stop => E stop

variable {effect fault} {P Q R : W → Prop} {E : Stop C W → Prop} {s t : Script C W} {c : C}

/-- A triple at an execution that goes to the end. -/
theorem Triple.ok {w w' : W} (h : Triple effect fault P s Q E) (hw : P w)
    (hexec : exec effect fault s w = .ok w') : Q w' := by
  have := h w hw
  rwa [hexec] at this

/-- A triple at an execution that stops. -/
theorem Triple.error {w : W} {stop : Stop C W} (h : Triple effect fault P s Q E) (hw : P w)
    (hexec : exec effect fault s w = .error stop) : E stop := by
  have := h w hw
  rwa [hexec] at this

/-- Less is known at the end. -/
theorem Triple.mono {Q' : W → Prop} (h : Triple effect fault P s Q E) (hQ : ∀ w, Q w → Q' w) :
    Triple effect fault P s Q' E := by
  intro w hw
  cases hexec : exec effect fault s w with
  | ok w' => exact hQ w' (h.ok hw hexec)
  | error stop => exact h.error hw hexec

/-- What holds of a family of worlds holds of their union. -/
theorem Triple.exists {α : Type} {P : α → W → Prop} (h : ∀ a, Triple effect fault (P a) s Q E) :
    Triple effect fault (fun w => ∃ a, P a w) s Q E := by
  rintro w ⟨a, hw⟩
  exact h a w hw

/-- What is known besides the world is a premise. -/
theorem Triple.given {φ : Prop} (h : φ → Triple effect fault P s Q E) :
    Triple effect fault (fun w => P w ∧ φ) s Q E := by
  rintro w ⟨hw, hφ⟩
  exact h hφ w hw

/-- The empty script, where what holds before gives what is to hold. -/
theorem Triple.skip (h : ∀ w, P w → Q w) : Triple effect fault P .skip Q E := fun w hw => h w hw

/-- A command either has its effect or stops the script where it was interrupted. -/
theorem Triple.run (hok : ∀ w, P w → fault c = none → Q (effect c w))
    (hstop : ∀ w f, P w → fault c = some f → E ⟨c, f, interrupted effect c f w⟩) :
    Triple effect fault P (.run c) Q E := by
  intro w hw
  rw [exec]
  cases hfault : fault c with
  | none => exact hok w hw hfault
  | some f => exact hstop w f hw hfault

/-- Behind an assignment no signal is handled, or it stops there. -/
theorem Triple.assign (hok : ∀ w, P w → (∀ f, fault c = some f → f.signal = false) → Q (effect c w))
    (hstop : ∀ w f, P w → fault c = some f → f.signal = true → E ⟨c, f, effect c w⟩) :
    Triple effect fault P (.assign c) Q E := by
  intro w hw
  rw [exec]
  cases hfault : fault c with
  | none =>
    refine hok w hw fun f hf => ?_
    cases hfault.symm.trans hf
  | some f =>
    dsimp only
    cases hsignal : f.signal with
    | true => exact hstop w f hw hfault hsignal
    | false =>
      refine hok w hw fun f' hf' => ?_
      rwa [← Option.some.inj (hfault.symm.trans hf')]

/-- A command in a condition: only a signal stops the script, a failure skips the body as a `no`
does. -/
theorem Triple.ask {answer : W → Bool}
    (hstop : ∀ w f, P w → fault c = some f → f.signal = true → E ⟨c, f, w⟩)
    (hfails : ∀ w f, P w → fault c = some f → f.signal = false → Q w)
    (hno : ∀ w, P w → fault c = none → answer w = false → Q w)
    (hbody : Triple effect fault (fun w => P w ∧ fault c = none ∧ answer w = true) s Q E) :
    Triple effect fault P (.ask c answer s) Q E := by
  intro w hw
  rw [exec]
  cases hfault : fault c with
  | none =>
    cases hanswer : answer w with
    | true => exact hbody w ⟨hw, hfault, hanswer⟩
    | false => exact hno w hw hfault hanswer
  | some f =>
    dsimp only
    cases hsignal : f.signal with
    | true => exact hstop w f hw hfault hsignal
    | false => exact hfails w f hw hfault hsignal

/-- A test of the shell's own, which cannot fail. -/
theorem Triple.whether {test : W → Bool}
    (hbody : Triple effect fault (fun w => P w ∧ test w = true) s Q E)
    (hother : Triple effect fault (fun w => P w ∧ test w = false) t Q E) :
    Triple effect fault P (.whether test s t) Q E := by
  intro w hw
  rw [exec]
  cases htest : test w with
  | true => exact hbody w ⟨hw, htest⟩
  | false => exact hother w ⟨hw, htest⟩

/-- Scripts in sequence meet at what holds between them. -/
theorem Triple.seq (hs : Triple effect fault P s R E) (ht : Triple effect fault R t Q E) :
    Triple effect fault P (.seq s t) Q E := by
  intro w hw
  rw [exec]
  cases hexec : exec effect fault s w with
  | ok w' => exact ht w' (hs.ok hw hexec)
  | error stop => exact hs.error hw hexec

/-- Commands that keep an invariant keep it where one of them stops; at their end all their effects
have happened, one after the other. -/
theorem Triple.all {I : W → Prop} {cs : List C} (hP : ∀ w, P w → I w)
    (hkeep : ∀ c ∈ cs, ∀ w, I w → I (effect c w))
    (hQ : ∀ w, P w → (∀ c ∈ cs, fault c = none) → Q (cs.foldl (fun w c => effect c w) w))
    (hE : ∀ stop, stop.command ∈ cs → fault stop.command = some stop.fault → I stop.world →
      E stop) :
    Triple effect fault P (all cs) Q E := by
  induction cs generalizing P with
  | nil => exact .skip fun w hw => hQ w hw nofun
  | cons c cs ih =>
    obtain ⟨hc, hcs⟩ := List.forall_mem_cons.mp hkeep
    refine .seq (R := fun w => ∃ w₀, P w₀ ∧ fault c = none ∧ w = effect c w₀) (.run ?_ ?_)
      (ih ?_ hcs ?_ ?_)
    · exact fun w hw hnone => ⟨w, hw, hnone, rfl⟩
    · intro w f hw hfault
      refine hE _ (List.mem_cons_self ..) hfault ?_
      rw [interrupted]
      split
      · exact hc w (hP w hw)
      · exact hP w hw
    · rintro w ⟨w₀, hw₀, -, rfl⟩
      exact hc w₀ (hP w₀ hw₀)
    · rintro w ⟨w₀, hw₀, hnone, rfl⟩ hall
      exact hQ w₀ hw₀ (List.forall_mem_cons.mpr ⟨hnone, hall⟩)
    · exact fun stop hmem => hE stop (List.mem_cons_of_mem _ hmem)

end Script

end TgWsProxy.Core
