import TgWsProxy.Core.Tally

/-!
# Updating the first match

`iter_mut().find(p)` followed by an assignment: the first item that meets a test is
changed and all others stay. With keys that differ pairwise, a test for one key picks
out a single item.
-/

namespace TgWsProxy.Core

variable {α β : Type*}

/-- Change the first item that meets the test. -/
def updateFirst (p : α → Bool) (f : α → α) : List α → List α
  | [] => []
  | x :: xs => if p x then f x :: xs else x :: updateFirst p f xs

variable {p : α → Bool} {f : α → α} {l : List α}

/-- What a change leaves alone is the same along the list. -/
theorem map_updateFirst {g : α → β} (h : ∀ x, g (f x) = g x) :
    (updateFirst p f l).map g = l.map g := by
  induction l with
  | nil => rfl
  | cons x l ih =>
    simp only [updateFirst]
    split
    · simp [h]
    · simp [ih]

@[simp] theorem length_updateFirst : (updateFirst p f l).length = l.length := by
  induction l with
  | nil => rfl
  | cons x l ih =>
    simp only [updateFirst]
    split
    · rfl
    · simp [ih]

/-- Without a match nothing changes. -/
theorem updateFirst_of_none (h : ∀ x ∈ l, ¬p x = true) : updateFirst p f l = l := by
  induction l with
  | nil => rfl
  | cons x l ih =>
    obtain ⟨hx, hl⟩ := List.forall_mem_cons.mp h
    rw [updateFirst, if_neg hx, ih hl]

/-- The match that is found is the item that changes. -/
theorem mem_updateFirst_of_find {x : α} (h : l.find? p = some x) : f x ∈ updateFirst p f l := by
  induction l with
  | nil => cases h
  | cons y l ih =>
    rw [List.find?_cons] at h
    by_cases hy : p y = true
    · rw [hy] at h
      obtain rfl := Option.some.inj h
      rw [updateFirst, if_pos hy]
      exact List.mem_cons_self ..
    · rw [Bool.not_eq_true] at hy
      rw [hy] at h
      rw [updateFirst, if_neg (by rw [hy]; exact Bool.false_ne_true)]
      exact List.mem_cons_of_mem _ (ih h)

/-- The tally changes with the item that is found. -/
theorem tally_updateFirst {weight : α → Nat} {x : α} (h : l.find? p = some x) :
    tally weight (updateFirst p f l) + weight x = tally weight l + weight (f x) := by
  induction l with
  | nil => cases h
  | cons y l ih =>
    rw [List.find?_cons] at h
    by_cases hy : p y = true
    · rw [hy] at h
      obtain rfl := Option.some.inj h
      rw [updateFirst, if_pos hy, tally_cons, tally_cons]
      omega
    · have hrest := ih (by simpa [hy] using h)
      rw [updateFirst, if_neg hy, tally_cons, tally_cons]
      omega

/-- An item that another test finds is found after a change of others. -/
theorem find?_updateFirst_of_ne {q : α → Bool}
    (hf : ∀ x, p x = true → q x = false ∧ q (f x) = false) :
    (updateFirst p f l).find? q = l.find? q := by
  induction l with
  | nil => rfl
  | cons x l ih =>
    unfold updateFirst
    split
    · next hx =>
      obtain ⟨hbefore, hafter⟩ := hf x hx
      rw [List.find?_cons, List.find?_cons, hbefore, hafter]
    · rw [List.find?_cons, List.find?_cons, ih]

/-- The changed item is the one that the test finds, if it still passes. -/
theorem find?_updateFirst_self (hf : ∀ x, p x = true → p (f x) = true) :
    (updateFirst p f l).find? p = (l.find? p).map f := by
  induction l with
  | nil => rfl
  | cons x l ih =>
    unfold updateFirst
    split
    · next hx => rw [List.find?_cons, List.find?_cons, hf x hx, hx, Option.map_some]
    · next hx =>
      rw [Bool.not_eq_true] at hx
      rw [List.find?_cons, List.find?_cons, hx, ih]

/-- An item of the result was there before, or is the changed one. -/
theorem mem_updateFirst_find {y : α} (h : y ∈ updateFirst p f l) :
    y ∈ l ∨ ∃ x, l.find? p = some x ∧ y = f x := by
  induction l with
  | nil => cases h
  | cons x l ih =>
    unfold updateFirst at h
    by_cases hx : p x = true
    · rw [if_pos hx] at h
      rcases List.mem_cons.mp h with rfl | hmem
      · exact Or.inr ⟨x, List.find?_cons_of_pos hx, rfl⟩
      · exact Or.inl (List.mem_cons_of_mem _ hmem)
    · rw [if_neg hx] at h
      rcases List.mem_cons.mp h with rfl | hmem
      · exact Or.inl (List.mem_cons_self ..)
      · rw [List.find?_cons_of_neg hx]
        exact (ih hmem).imp (List.mem_cons_of_mem _) id

/-- An item of the result was there before, or is a changed one. -/
theorem mem_of_mem_updateFirst {y : α} (h : y ∈ updateFirst p f l) :
    y ∈ l ∨ ∃ x ∈ l, p x = true ∧ y = f x := by
  induction l with
  | nil => cases h
  | cons x l ih =>
    simp only [updateFirst] at h
    split at h
    · next hp =>
      rcases List.mem_cons.mp h with rfl | h
      · exact Or.inr ⟨x, List.mem_cons_self .., hp, rfl⟩
      · exact Or.inl (List.mem_cons_of_mem _ h)
    · rcases List.mem_cons.mp h with rfl | h
      · exact Or.inl (List.mem_cons_self ..)
      · rcases ih h with h | ⟨z, hz, hpz, rfl⟩
        · exact Or.inl (List.mem_cons_of_mem _ h)
        · exact Or.inr ⟨z, List.mem_cons_of_mem _ hz, hpz, rfl⟩

/-- With distinct keys, exactly the item of the key is changed. -/
theorem mem_updateFirst_key [DecidableEq β] {key : α → β} {k : β}
    (hl : l.Pairwise fun x y => key x ≠ key y) {y : α} :
    y ∈ updateFirst (fun x => key x = k) f l ↔
      (y ∈ l ∧ key y ≠ k) ∨ ∃ x ∈ l, key x = k ∧ y = f x := by
  induction l with
  | nil => simp [updateFirst]
  | cons x l ih =>
    obtain ⟨hx, hl⟩ := List.pairwise_cons.mp hl
    simp only [updateFirst, decide_eq_true_eq]
    split
    · next hk =>
      -- no later item has the key
      have hlater : ∀ z ∈ l, key z ≠ k := fun z hz heq => hx z hz (hk.trans heq.symm)
      simp only [List.mem_cons, exists_eq_or_imp, hk, true_and]
      constructor
      · rintro (rfl | hy)
        · exact Or.inr (Or.inl rfl)
        · exact Or.inl ⟨Or.inr hy, hlater y hy⟩
      · rintro (⟨rfl | hy, hne⟩ | rfl | ⟨z, hz, hzk, rfl⟩)
        · exact absurd hk hne
        · exact Or.inr hy
        · exact Or.inl rfl
        · exact absurd hzk (hlater z hz)
    · next hk =>
      simp only [List.mem_cons, exists_eq_or_imp, hk, false_and, false_or, ih hl]
      constructor
      · rintro (rfl | ⟨hy, hne⟩ | h)
        · exact Or.inl ⟨Or.inl rfl, hk⟩
        · exact Or.inl ⟨Or.inr hy, hne⟩
        · exact Or.inr h
      · rintro (⟨rfl | hy, hne⟩ | h)
        · exact Or.inl rfl
        · exact Or.inr (Or.inl ⟨hy, hne⟩)
        · exact Or.inr (Or.inr h)

end TgWsProxy.Core
