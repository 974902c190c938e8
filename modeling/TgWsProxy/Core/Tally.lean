import Mathlib.Algebra.GroupWithZero.Nat
import Mathlib.Data.List.Basic

/-!
# Tallies

The sum of a weight over a list of items, and how it changes when the list is updated
at one place. Two lists with the same tallies under every weight hold the same items;
a bookkeeping argument needs no more of them than that.
-/

namespace TgWsProxy.Core

variable {α β : Type*}

/-- The total weight of a list. -/
def tally (weight : α → Nat) (l : List α) : Nat := (l.map weight).sum

variable (weight : α → Nat)

@[simp] theorem tally_nil : tally weight [] = 0 := rfl

@[simp] theorem tally_cons (x : α) (l : List α) :
    tally weight (x :: l) = weight x + tally weight l := by
  simp [tally]

@[simp] theorem tally_append (l₁ l₂ : List α) :
    tally weight (l₁ ++ l₂) = tally weight l₁ + tally weight l₂ := by
  simp [tally]

@[simp] theorem tally_zero (l : List α) : tally (fun _ => 0) l = 0 := by
  simp [tally]

/-- The weight of a mapped list. -/
theorem tally_map (f : β → α) (l : List β) :
    tally weight (l.map f) = tally (fun x => weight (f x)) l := by
  simp [tally, Function.comp_def]

/-- The weight of lists put together is the weight of their weights. -/
theorem tally_flatMap (f : β → List α) (l : List β) :
    tally weight (l.flatMap f) = tally (fun x => tally weight (f x)) l := by
  induction l with
  | nil => rfl
  | cons x l ih => simp [ih]

variable {weight}

/-- Replacing one item replaces its weight. -/
theorem tally_set (weight : α → Nat) {l : List α} {i : Nat} {x : α} (h : l[i]? = some x) (y : α) :
    tally weight (l.set i y) + weight x = tally weight l + weight y := by
  induction l generalizing i with
  | nil => simp at h
  | cons z l ih =>
    cases i with
    | zero =>
      obtain rfl : z = x := by simpa using h
      simp only [List.set_cons_zero, tally_cons]
      omega
    | succ i =>
      have := ih (by simpa using h)
      simp only [List.set_cons_succ, tally_cons]
      omega

/-- Removing one item removes its weight. -/
theorem tally_eraseIdx (weight : α → Nat) {l : List α} {i : Nat} {x : α} (h : l[i]? = some x) :
    tally weight (l.eraseIdx i) + weight x = tally weight l := by
  induction l generalizing i with
  | nil => simp at h
  | cons z l ih =>
    cases i with
    | zero =>
      obtain rfl : z = x := by simpa using h
      simp only [List.eraseIdx_cons_zero, tally_cons]
      omega
    | succ i =>
      have := ih (by simpa using h)
      simp only [List.eraseIdx_cons_succ, tally_cons]
      omega

/-- Equal weights tally up equally. -/
theorem tally_congr {weight' : α → Nat} {l : List α} (h : ∀ x ∈ l, weight x = weight' x) :
    tally weight l = tally weight' l := by
  simp only [tally, List.map_congr_left h]

/-- Two weights add up item by item. -/
theorem tally_add (f g : α → Nat) (l : List α) :
    tally f l + tally g l = tally (fun x => f x + g x) l := by
  induction l with
  | nil => rfl
  | cons x l ih =>
    simp only [tally_cons]
    omega

/-- Items whose keys are below a bound, tallied key by key. -/
theorem tally_range_key (weight : α → Nat) (key : α → Nat) (n : Nat) (l : List α) :
    tally (fun k => tally (fun x => if key x = k then weight x else 0) l) (List.range n) =
      tally (fun x => if key x < n then weight x else 0) l := by
  induction n with
  | zero => simp
  | succ n ih =>
    rw [List.range_succ, tally_append, ih, tally_cons, tally_nil, Nat.add_zero, tally_add]
    refine tally_congr fun x _ => ?_
    split
    · split
      · omega
      · split <;> omega
    · split
      · split <;> omega
      · split <;> omega

/-- A test splits the weight. -/
theorem tally_filter_add (weight : α → Nat) (p : α → Bool) (l : List α) :
    tally weight (l.filter fun x => ¬p x) + tally weight (l.filter p) = tally weight l := by
  induction l with
  | nil => rfl
  | cons x l ih =>
    by_cases hp : p x = true
    · simp only [hp, not_true_eq_false, decide_false, Bool.false_eq_true, not_false_eq_true,
        List.filter_cons_of_neg, List.filter_cons_of_pos, tally_cons]
      omega
    · simp only [hp, Bool.false_eq_true, not_false_eq_true, decide_true, List.filter_cons_of_neg,
        List.filter_cons_of_pos, tally_cons]
      omega

/-- The order of the items does not matter. -/
theorem tally_perm {l₁ l₂ : List α} (h : l₁.Perm l₂) : tally weight l₁ = tally weight l₂ :=
  (h.map weight).sum_nat

/-- A sublist weighs no more. -/
theorem tally_le_of_sublist {l₁ l₂ : List α} (h : l₁.Sublist l₂) :
    tally weight l₁ ≤ tally weight l₂ := by
  induction h with
  | slnil => exact Nat.le_refl _
  | cons x _ ih => exact Nat.le_trans ih (by simp)
  | cons_cons x _ ih => simpa using ih

/-- No item weighs more than its list. -/
theorem le_tally_of_mem {l : List α} {x : α} (h : x ∈ l) : weight x ≤ tally weight l := by
  have hle : tally weight [x] ≤ tally weight l :=
    tally_le_of_sublist (List.singleton_sublist.mpr h)
  simpa using hle

/-- Lists with the same tallies have the same items. -/
theorem mem_of_tally_eq {l₁ l₂ : List α} (h : ∀ weight : α → Nat, tally weight l₁ = tally weight l₂)
    {x : α} (hx : x ∈ l₁) : x ∈ l₂ := by
  classical
  by_contra hnot
  -- weigh only the items that the second list has
  have hzero : ∀ l : List α, (tally (fun y => if y ∈ l₂ then 0 else 1) l = 0 ↔ l ⊆ l₂) := by
    intro l
    induction l with
    | nil => simp
    | cons y l ih =>
      by_cases hy : y ∈ l₂
      · simp [hy, ih]
      · simp [hy]
  have hnone := (hzero l₂).mpr (List.Subset.refl _)
  rw [← h] at hnone
  exact hnot ((hzero l₁).mp hnone hx)

/-- A list of weightless items weighs nothing. -/
theorem tally_eq_zero {l : List α} (h : ∀ x ∈ l, weight x = 0) : tally weight l = 0 :=
  (tally_congr h).trans (tally_zero l)

/-! ## Items that are picked out -/

/-- One item more is picked. -/
theorem filterMap_set_perm {f : α → Option β} {l : List α} {i : Nat} {x y : α} {b : β}
    (hx : l[i]? = some x) (hnone : f x = none) (hsome : f y = some b) :
    ((l.set i y).filterMap f).Perm (b :: l.filterMap f) := by
  induction l generalizing i with
  | nil => cases hx
  | cons z l ih =>
    cases i with
    | zero =>
      obtain rfl : z = x := Option.some.inj hx
      rw [List.set_cons_zero, List.filterMap_cons_some hsome, List.filterMap_cons_none hnone]
    | succ i =>
      have ih := ih (i := i) hx
      rw [List.set_cons_succ]
      cases hz : f z with
      | none => rwa [List.filterMap_cons_none hz, List.filterMap_cons_none hz]
      | some b' =>
        rw [List.filterMap_cons_some hz, List.filterMap_cons_some hz]
        exact (ih.cons b').trans (.swap ..)

/-- The same items are picked. -/
theorem filterMap_set_eq {f : α → Option β} {l : List α} {i : Nat} {x y : α}
    (hx : l[i]? = some x) (hsame : f y = f x) : (l.set i y).filterMap f = l.filterMap f := by
  induction l generalizing i with
  | nil => rfl
  | cons z l ih =>
    cases i with
    | zero =>
      obtain rfl : z = x := Option.some.inj hx
      rw [List.set_cons_zero, List.filterMap_cons, List.filterMap_cons, hsame]
    | succ i => rw [List.set_cons_succ, List.filterMap_cons, List.filterMap_cons, ih (i := i) hx]

end TgWsProxy.Core
