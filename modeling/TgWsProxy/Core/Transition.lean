import Mathlib.Order.Basic

/-!
# Guarded transition systems

A system is a set of starting states and an executable step, `none` where an
action is not enabled. `Within` collects the states of the runs whose steps all
meet a side condition; `Reachable` is the case of no condition. A concrete list
of actions is replayed by `run`, and a replay never leaves the reachable states.
-/

namespace TgWsProxy.Core

/-- Starting states and a guarded step function. -/
structure System (σ α : Type*) where
  /-- The states a run may begin in. -/
  start : σ → Prop
  /-- The effect of an action, or `none` where it is not enabled. -/
  step : σ → α → Option σ

namespace System

variable {σ α : Type*} (m : System σ α)

/-- The states of the runs in which every step meets the condition `ok`. -/
inductive Within (ok : σ → α → Prop) : σ → Prop
  | start {s : σ} : m.start s → Within ok s
  | step {s t : σ} {a : α} : Within ok s → ok s a → m.step s a = some t → Within ok t

/-- The states of unconditioned runs. -/
def Reachable (s : σ) : Prop := m.Within (fun _ _ => True) s

variable {m}

/-- A predicate that holds initially and survives every conditioned step holds throughout. -/
theorem Within.induct {ok : σ → α → Prop} {P : σ → Prop} (hstart : ∀ s, m.start s → P s)
    (hstep : ∀ s a t, P s → ok s a → m.step s a = some t → P t) {s : σ}
    (h : m.Within ok s) : P s := by
  induction h with
  | start hs => exact hstart _ hs
  | step _ hok hst ih => exact hstep _ _ _ ih hok hst

/-- A start is reachable. -/
theorem Reachable.start {s : σ} (h : m.start s) : m.Reachable s := Within.start h

/-- A step leads from what is reachable to what is reachable. -/
theorem Reachable.step {s t : σ} {a : α} (h : m.Reachable s) (hst : m.step s a = some t) :
    m.Reachable t := Within.step h trivial hst

/-- The invariant rule: initial and preserved by every step means always. -/
theorem Reachable.invariant {P : σ → Prop} (hstart : ∀ s, m.start s → P s)
    (hstep : ∀ s a t, P s → m.step s a = some t → P t) {s : σ} (h : m.Reachable s) : P s :=
  Within.induct hstart (fun s a t hp _ hst => hstep s a t hp hst) h

/-- An invariant may use one that is already proved of every reachable state. -/
theorem Reachable.strengthen {I P : σ → Prop} (hI : ∀ s, m.Reachable s → I s)
    (hstart : ∀ s, m.start s → P s)
    (hstep : ∀ s a t, I s → P s → m.step s a = some t → P t) {s : σ}
    (h : m.Reachable s) : P s := by
  induction h with
  | start hs => exact hstart _ hs
  | step hr _ hst ih => exact hstep _ _ _ (hI _ hr) ih hst

variable (m) in
/-- Replay a list of actions, failing at the first one that is not enabled. -/
def run (s : σ) : List α → Option σ
  | [] => some s
  | a :: as => (m.step s a).bind fun t => run t as

@[simp] theorem run_nil (s : σ) : m.run s [] = some s := rfl

@[simp] theorem run_cons (s : σ) (a : α) (as : List α) :
    m.run s (a :: as) = (m.step s a).bind fun t => m.run t as := rfl

/-- A run over two lists of actions goes through the state between them. -/
theorem run_append (s : σ) (as bs : List α) :
    m.run s (as ++ bs) = (m.run s as).bind fun t => m.run t bs := by
  induction as generalizing s with
  | nil => rfl
  | cons a as ih => simp only [List.cons_append, run_cons, ih, Option.bind_assoc]

/-- What every enabled step preserves, every replay preserves. -/
theorem run_preserves {P : σ → Prop} (hstep : ∀ s a t, P s → m.step s a = some t → P t)
    {s t : σ} {as : List α} (hs : P s) (h : m.run s as = some t) : P t := by
  induction as generalizing s with
  | nil => exact Option.some.inj h ▸ hs
  | cons a as ih =>
    obtain ⟨u, hu, ht⟩ := Option.bind_eq_some_iff.mp h
    exact ih (hstep _ _ _ hs hu) ht

/-- A replay from a reachable state ends in one. -/
theorem Reachable.run {s t : σ} {as : List α} (hs : m.Reachable s)
    (h : m.run s as = some t) : m.Reachable t :=
  run_preserves (fun _ _ _ hr hst => hr.step hst) hs h

variable (m) in
/-- A replay whose last state passes a check. -/
theorem exists_of_run (s : σ) (as : List α) (check : σ → Bool)
    (h : (m.run s as).any check = true) : ∃ t, m.run s as = some t ∧ check t = true :=
  (Option.any_eq_true ..).mp h

/-- A replay of actions that meet the condition in every state. -/
theorem Within.run {ok : σ → α → Prop} {s t : σ} {as : List α} (hs : m.Within ok s)
    (hok : ∀ a ∈ as, ∀ u, ok u a) (h : m.run s as = some t) : m.Within ok t := by
  induction as generalizing s with
  | nil => exact Option.some.inj h ▸ hs
  | cons a as ih =>
    obtain ⟨u, hu, ht⟩ := Option.bind_eq_some_iff.mp h
    exact ih (hs.step (hok a (List.mem_cons_self ..) s) hu)
      (fun b hb => hok b (List.mem_cons_of_mem _ hb)) ht

variable (m) in
/-- Every step of a replay meets the condition. -/
def Meets (ok : σ → α → Prop) (s : σ) : List α → Prop
  | [] => True
  | a :: as => ok s a ∧ ∀ t, m.step s a = some t → Meets ok t as

/-- A weaker condition is met by the same replays and more. -/
theorem Meets.mono {ok ok' : σ → α → Prop} (hweak : ∀ s a, ok s a → ok' s a) {s : σ}
    {as : List α} (h : m.Meets ok s as) : m.Meets ok' s as := by
  induction as generalizing s with
  | nil => trivial
  | cons a as ih => exact ⟨hweak s a h.1, fun t ht => ih (h.2 t ht)⟩

/-- A replay whose steps all meet the condition. -/
theorem Within.run_of_meets {ok : σ → α → Prop} {s t : σ} {as : List α} (hs : m.Within ok s)
    (hok : m.Meets ok s as) (h : m.run s as = some t) : m.Within ok t := by
  induction as generalizing s with
  | nil => exact Option.some.inj h ▸ hs
  | cons a as ih =>
    obtain ⟨u, hu, ht⟩ := Option.bind_eq_some_iff.mp h
    exact ih (hs.step hok.1 hu) (hok.2 u hu) ht

/-- Replays are checked step by step. -/
instance Meets.decidable {ok : σ → α → Prop} [∀ s a, Decidable (ok s a)] :
    ∀ (s : σ) (as : List α), Decidable (m.Meets ok s as)
  | _, [] => .isTrue trivial
  | s, a :: as =>
    match h : m.step s a with
    | none => decidable_of_iff (ok s a) (by simp [Meets, h])
    | some t =>
      have : Decidable (m.Meets ok t as) := Meets.decidable t as
      decidable_of_iff (ok s a ∧ m.Meets ok t as) (by simp [Meets, h])

/-- Conditions that agree wherever an invariant holds are met by the same replays. -/
theorem meets_congr {I : σ → Prop} {ok ok' : σ → α → Prop}
    (hI : ∀ s a t, I s → m.step s a = some t → I t)
    (hagree : ∀ s a, I s → (ok s a ↔ ok' s a)) {s : σ} {as : List α} (hs : I s) :
    m.Meets ok s as ↔ m.Meets ok' s as := by
  induction as generalizing s with
  | nil => exact Iff.rfl
  | cons a as ih =>
    exact and_congr (hagree s a hs) (forall₂_congr fun t ht => ih (hI s a t hs ht))

/-- A property that a step keeps exactly under the condition, and that nothing restores,
holds after a replay exactly when every step met the condition. -/
theorem run_iff_meets {I P : σ → Prop} {ok : σ → α → Prop}
    (hI : ∀ s a t, I s → m.step s a = some t → I t)
    (hgood : ∀ s a t, I s → P s → m.step s a = some t → (P t ↔ ok s a))
    (hbad : ∀ s a t, ¬P s → m.step s a = some t → ¬P t) {s t : σ} {as : List α}
    (his : I s) (hps : P s) (h : m.run s as = some t) : P t ↔ m.Meets ok s as := by
  induction as generalizing s with
  | nil => exact iff_of_true (Option.some.inj h ▸ hps) trivial
  | cons a as ih =>
    obtain ⟨u, hu, ht⟩ := Option.bind_eq_some_iff.mp h
    by_cases hok : ok s a
    · rw [ih (hI s a u his hu) ((hgood s a u his hps hu).mpr hok) ht]
      refine ⟨fun hm => ⟨hok, fun v hv => ?_⟩, fun hm => hm.2 u hu⟩
      obtain rfl := Option.some.inj (hu.symm.trans hv)
      exact hm
    · have hpu : ¬P u := fun hp => hok ((hgood s a u his hps hu).mp hp)
      exact iff_of_false (run_preserves hbad hpu ht) fun hm => hok hm.1

/-- A property that a step keeps exactly under the condition holds all along a replay
exactly when every step met the condition. -/
theorem prefixes_iff_meets {I P : σ → Prop} {ok : σ → α → Prop}
    (hI : ∀ s a t, I s → m.step s a = some t → I t)
    (hgood : ∀ s a t, I s → P s → m.step s a = some t → (P t ↔ ok s a)) {s t : σ} {as : List α}
    (his : I s) (hps : P s) (h : m.run s as = some t) :
    (∀ bs u, bs <+: as → m.run s bs = some u → P u) ↔ m.Meets ok s as := by
  induction as generalizing s with
  | nil =>
    refine iff_of_true (fun bs u hbs hu => ?_) trivial
    rw [List.prefix_nil.mp hbs] at hu
    exact Option.some.inj hu ▸ hps
  | cons a as ih =>
    obtain ⟨u, hu, ht⟩ := Option.bind_eq_some_iff.mp h
    constructor
    · intro hall
      have hpu : P u := hall [a] u (List.cons_prefix_cons.mpr ⟨rfl, List.nil_prefix⟩)
        (by rw [run_cons, hu, Option.bind_some, run_nil])
      refine ⟨(hgood s a u his hps hu).mp hpu, fun v hv => ?_⟩
      obtain rfl := Option.some.inj (hu.symm.trans hv)
      refine (ih (hI s a u his hu) hpu ht).mp fun bs v hbs hv => ?_
      exact hall (a :: bs) v (List.cons_prefix_cons.mpr ⟨rfl, hbs⟩)
        (by rw [run_cons, hu, Option.bind_some, hv])
    · rintro ⟨hok, hrest⟩ bs v hbs hv
      have hpu : P u := (hgood s a u his hps hu).mpr hok
      cases bs with
      | nil => exact Option.some.inj hv ▸ hps
      | cons b bs =>
        obtain ⟨rfl, htail⟩ := List.cons_prefix_cons.mp hbs
        rw [run_cons, hu, Option.bind_some] at hv
        exact (ih (hI s b u his hu) hpu ht).mpr (hrest u hu) bs v htail hv

end System

end TgWsProxy.Core
