import Mathlib.Data.List.Pairwise
import Mathlib.Data.List.Sort
import Mathlib.Data.Prod.Lex

/-!
# The head of a stable sort

A stable sort by a key puts first the least element under the key and then the place.
Where the list is in increasing order of its places, that is the least element under
the lexicographic order of the two. The relation that sorts is any one that compares
the keys.
-/

namespace TgWsProxy.Core

variable {α κ π : Type*} [LinearOrder κ] [LinearOrder π] {key : α → κ} {place : α → π}
  {r : α → α → Prop} [DecidableRel r] {l : List α} {x : α}

private theorem pairwise_insertionSort (hr : ∀ x y, r x y ↔ key x ≤ key y) (l : List α) :
    (l.insertionSort r).Pairwise r := by
  have : Std.Total r := ⟨fun x y => by simp only [hr, le_total]⟩
  have : IsTrans α r :=
    ⟨fun x y z hxy hyz => (hr x z).mpr (((hr x y).mp hxy).trans ((hr y z).mp hyz))⟩
  exact List.pairwise_insertionSort r l

/-- What sorts first: the elements before it have greater keys, those after it no smaller ones. -/
theorem split_of_head?_insertionSort (hr : ∀ x y, r x y ↔ key x ≤ key y)
    (h : (l.insertionSort r).head? = some x) :
    ∃ before after, l = before ++ x :: after ∧ (∀ y ∈ before, key x < key y) ∧
      ∀ y ∈ after, key x ≤ key y := by
  induction l generalizing x with
  | nil => cases h
  | cons a l ih =>
    rw [List.insertionSort_cons] at h
    have hsorted : (l.insertionSort r).Pairwise r := pairwise_insertionSort hr l
    have hmem : ∀ y ∈ l, y ∈ l.insertionSort r := fun y => (List.mem_insertionSort r).mpr
    generalize l.insertionSort r = sorted at *
    cases sorted with
    | nil =>
      obtain rfl : a = x := Option.some.inj h
      exact ⟨[], l, rfl, List.forall_mem_nil _, fun y hy => nomatch hmem y hy⟩
    | cons b sorted =>
      rw [List.orderedInsert_cons] at h
      split at h
      · next hle =>
        obtain rfl : a = x := Option.some.inj h
        refine ⟨[], l, rfl, List.forall_mem_nil _, fun y hy => ?_⟩
        rcases List.mem_cons.mp (hmem y hy) with rfl | hy
        · exact (hr a y).mp hle
        · exact ((hr a b).mp hle).trans ((hr b y).mp (List.rel_of_pairwise_cons hsorted hy))
      · next hgt =>
        obtain rfl : b = x := Option.some.inj h
        obtain ⟨before, after, rfl, hbefore, hafter⟩ := ih rfl
        refine ⟨a :: before, after, rfl, fun y hy => ?_, hafter⟩
        rcases List.mem_cons.mp hy with rfl | hy
        · exact not_le.mp (mt (hr y b).mpr hgt)
        · exact hbefore y hy

/-- The head of a stable sort is the least element by key, then by place. -/
theorem head?_insertionSort_eq_some (hr : ∀ x y, r x y ↔ key x ≤ key y)
    (hplace : l.Pairwise fun x y => place x < place y) :
    (l.insertionSort r).head? = some x ↔
      x ∈ l ∧ ∀ y ∈ l, toLex (key x, place x) ≤ toLex (key y, place y) := by
  have hleast : ∀ x, (l.insertionSort r).head? = some x →
      x ∈ l ∧ ∀ y ∈ l, toLex (key x, place x) ≤ toLex (key y, place y) := by
    intro x h
    obtain ⟨before, after, rfl, hbefore, hafter⟩ := split_of_head?_insertionSort hr h
    refine ⟨by simp, fun y hy => Prod.Lex.toLex_le_toLex.mpr ?_⟩
    rcases List.mem_append.mp hy with hy | hy
    · exact Or.inl (hbefore y hy)
    · rcases List.mem_cons.mp hy with rfl | hy
      · exact Or.inr ⟨rfl, le_rfl⟩
      · rcases (hafter y hy).lt_or_eq with hlt | heq
        · exact Or.inl hlt
        · have := List.rel_of_pairwise_cons (List.pairwise_append.mp hplace).2.1 hy
          exact Or.inr ⟨heq, this.le⟩
  refine ⟨hleast x, fun ⟨hx, hmin⟩ => ?_⟩
  -- the head exists, and two least elements have the same place
  cases hhead : (l.insertionSort r).head? with
  | none =>
    have := (List.mem_insertionSort r).mpr hx
    rw [List.head?_eq_none_iff.mp hhead] at this
    cases this
  | some y =>
    obtain ⟨hy, hminy⟩ := hleast y hhead
    have hsame : place x = place y :=
      (Prod.mk.inj (toLex.injective ((hmin y hy).antisymm (hminy x hx)))).2
    by_contra hne
    have hne : x ≠ y := fun heq => hne (heq ▸ rfl)
    have : Std.Symm fun x y => place x ≠ place y := ⟨fun _ _ => Ne.symm⟩
    exact List.Pairwise.forall (hplace.imp fun h => h.ne) hx hy hne hsame

/-- What is found first in a sorted list is least among all that might be found. -/
theorem find?_insertionSort {p : α → Bool} (hr : ∀ x y, r x y ↔ key x ≤ key y)
    (h : (l.insertionSort r).find? p = some x) :
    x ∈ l ∧ p x = true ∧ ∀ y ∈ l, p y = true → key x ≤ key y := by
  have hsorted : (l.insertionSort r).Pairwise r := pairwise_insertionSort hr l
  have hmem : ∀ y ∈ l, y ∈ l.insertionSort r := fun y => (List.mem_insertionSort r).mpr
  refine ⟨(List.mem_insertionSort r).mp (List.mem_of_find?_eq_some h), List.find?_some h,
    fun y hy hpy => ?_⟩
  obtain ⟨-, before, after, heq, hbefore⟩ := List.find?_eq_some_iff_append.mp h
  rw [heq] at hsorted
  have hy := hmem y hy
  rw [heq] at hy
  rcases List.mem_append.mp hy with hy | hy
  · have hfalse := hbefore y hy
    rw [hpy] at hfalse
    cases hfalse
  · rcases List.mem_cons.mp hy with rfl | hy
    · exact le_rfl
    · apply (hr x y).mp
      exact List.rel_of_pairwise_cons (List.pairwise_append.mp hsorted).2.1 hy

end TgWsProxy.Core
