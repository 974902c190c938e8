import Mathlib.Logic.Function.Basic
import TgWsProxy.Core.Tally
import TgWsProxy.Io

/-!
# Budgets and permits

`Budget` and `BudgetPermit` of `cf_h2.rs`. A budget is named by what it bounds; a
permit names its budget. Every maximum is far below the range of `usize`, so a checked
sum overflows only beyond it and natural numbers decide the same.
-/

namespace TgWsProxy.H2

open TgWsProxy.Core

def maxPacket : Nat := 4 * 1024 * 1024
def maxPaddedPacket : Nat := maxPacket + 256
def maxChannelRequests : Nat := 8
def maxChannelBytes : Nat := 8 * 1024 * 1024
def maxChannelReplyBytes : Nat := 8 * 1024 * 1024
def maxLaneRequests : Nat := 64
def maxLaneBytes : Nat := 32 * 1024 * 1024
def maxLaneReplyBytes : Nat := 32 * 1024 * 1024
def maxGlobalRequestBytes : Nat := maxPaddedPacket * 2
def maxGlobalReplyBytes : Nat := maxPacket * 2
def maxGlobalHistoryBytes : Nat := 2 * 1024 * 1024
def maxGlobalRequests : Nat := 64
def maxGlobalReplies : Nat := 64
def maxGlobalHistoryPackets : Nat := 128

/-- The budgets of one process: one for each channel and lane, and three shared ones. -/
inductive BudgetId
  | channel (channel : Nat)
  | lane (lane : Nat)
  | requests
  | replies
  | history
  deriving DecidableEq

/-- A budget and what is taken of it. -/
structure Budget where
  maxRequests : Nat
  maxBytes : Nat
  requests : Nat := 0
  bytes : Nat := 0

/-- A share of a budget: one request and some bytes. -/
structure BudgetPermit where
  budget : BudgetId
  bytes : Nat
  deriving DecidableEq

/-- All budgets of a process. -/
abbrev Budgets := BudgetId → Budget

/-- `Budget::new` for a channel or a lane, and `PayloadBudgets::process_defaults`. -/
def processDefaults : Budgets
  | .channel _ => ⟨maxChannelRequests, maxChannelBytes, 0, 0⟩
  | .lane _ => ⟨maxLaneRequests, maxLaneBytes, 0, 0⟩
  | .requests => ⟨maxGlobalRequests, maxGlobalRequestBytes, 0, 0⟩
  | .replies => ⟨maxGlobalReplies, maxGlobalReplyBytes, 0, 0⟩
  | .history => ⟨maxGlobalHistoryPackets, maxGlobalHistoryBytes, 0, 0⟩

/-- Whether another request of this size fits. -/
def Budget.hasCapacity (b : Budget) (bytes : Nat) : Bool :=
  b.requests < b.maxRequests && b.bytes + bytes ≤ b.maxBytes

/-- Take a permit if it fits. -/
def tryAcquire (budgets : Budgets) (id : BudgetId) (bytes : Nat) :
    Option (BudgetPermit × Budgets) :=
  let b := budgets id
  if b.requests ≥ b.maxRequests ∨ b.bytes + bytes > b.maxBytes then none
  else some (⟨id, bytes⟩,
    Function.update budgets id { b with requests := b.requests + 1, bytes := b.bytes + bytes })

/-- Grow a permit if the bytes fit. -/
def tryExtendBytes (budgets : Budgets) (permit : BudgetPermit) (bytes : Nat) :
    Option (BudgetPermit × Budgets) :=
  let b := budgets permit.budget
  if b.bytes + bytes > b.maxBytes then none
  else some ({ permit with bytes := permit.bytes + bytes },
    Function.update budgets permit.budget { b with bytes := b.bytes + bytes })

/-- Give some bytes of a permit back. -/
def shrinkBytes (budgets : Budgets) (permit : BudgetPermit) (bytes : Nat) :
    BudgetPermit × Budgets :=
  let b := budgets permit.budget
  ({ permit with bytes := permit.bytes - bytes },
    Function.update budgets permit.budget { b with bytes := b.bytes - bytes })

/-- Drop a permit. -/
def dropPermit (budgets : Budgets) (permit : BudgetPermit) : Budgets :=
  let b := budgets permit.budget
  Function.update budgets permit.budget
    { b with requests := b.requests - 1, bytes := b.bytes - permit.bytes }

/-- Drop several permits. -/
def dropPermits (budgets : Budgets) (permits : List BudgetPermit) : Budgets :=
  permits.foldl dropPermit budgets

/-! ## Exact accounts -/

/-- One for a permit on the budget. -/
def BudgetPermit.count (id : BudgetId) (p : BudgetPermit) : Nat := if p.budget = id then 1 else 0

/-- The bytes of a permit on the budget. -/
def BudgetPermit.size (id : BudgetId) (p : BudgetPermit) : Nat :=
  if p.budget = id then p.bytes else 0

/-- The budgets are charged for exactly these permits, within their maxima. -/
structure Covers (budgets : Budgets) (permits : List BudgetPermit) : Prop where
  requests : ∀ id, (budgets id).requests = tally (BudgetPermit.count id) permits
  bytes : ∀ id, (budgets id).bytes = tally (BudgetPermit.size id) permits
  maxRequests : ∀ id, (budgets id).requests ≤ (budgets id).maxRequests
  maxBytes : ∀ id, (budgets id).bytes ≤ (budgets id).maxBytes

variable {budgets budgets' : Budgets} {permit permit' : BudgetPermit}
  {permits permits' : List BudgetPermit} {id : BudgetId} {bytes : Nat}

/-- Only the multiset of the permits matters. -/
theorem Covers.congr (h : Covers budgets permits)
    (hsame : ∀ weight : BudgetPermit → Nat, tally weight permits = tally weight permits') :
    Covers budgets permits' :=
  ⟨fun id => hsame _ ▸ h.requests id, fun id => hsame _ ▸ h.bytes id, h.maxRequests, h.maxBytes⟩

/-- A new permit is for the asked budget and size. -/
theorem permit_of_tryAcquire (ha : tryAcquire budgets id bytes = some (permit, budgets')) :
    permit = ⟨id, bytes⟩ := by
  simp only [tryAcquire] at ha
  split at ha
  · cases ha
  · exact (Prod.mk.inj (Option.some.inj ha)).1.symm

/-- A new permit is accounted for. -/
theorem Covers.acquire (h : Covers budgets permits)
    (ha : tryAcquire budgets id bytes = some (permit, budgets')) :
    Covers budgets' (permit :: permits) := by
  simp only [tryAcquire] at ha
  split at ha
  · cases ha
  · next hfits =>
    obtain ⟨rfl, rfl⟩ := Prod.mk.inj (Option.some.inj ha)
    simp only [not_or, Nat.not_le, Nat.not_lt] at hfits
    refine ⟨fun id' => ?_, fun id' => ?_, fun id' => ?_, fun id' => ?_⟩
    all_goals by_cases heq : id' = id
    · subst heq
      simp [BudgetPermit.count, h.requests, Nat.add_comm]
    · simp [heq, h.requests, BudgetPermit.count, Ne.symm heq]
    · subst heq
      simp [BudgetPermit.size, h.bytes, Nat.add_comm]
    · simp [heq, h.bytes, BudgetPermit.size, Ne.symm heq]
    · subst heq
      rw [Function.update_self]
      exact hfits.1
    · simpa [heq] using h.maxRequests id'
    · subst heq
      simpa using hfits.2
    · simpa [heq] using h.maxBytes id'

/-- A dropped permit is no longer accounted for. -/
theorem Covers.drop (h : Covers budgets (permit :: permits)) :
    Covers (dropPermit budgets permit) permits := by
  have hrequests := h.requests permit.budget
  have hbytes := h.bytes permit.budget
  simp only [tally_cons, BudgetPermit.count, BudgetPermit.size, if_true] at hrequests hbytes
  refine ⟨fun id' => ?_, fun id' => ?_, fun id' => ?_, fun id' => ?_⟩
  all_goals by_cases heq : id' = permit.budget
  · subst heq
    simp only [dropPermit, Function.update_self]
    exact (Nat.sub_eq_of_eq_add' hrequests)
  · have := h.requests id'
    simpa [dropPermit, heq, BudgetPermit.count, Ne.symm heq] using this
  · subst heq
    simp only [dropPermit, Function.update_self]
    exact (Nat.sub_eq_of_eq_add' hbytes)
  · have := h.bytes id'
    simpa [dropPermit, heq, BudgetPermit.size, Ne.symm heq] using this
  · subst heq
    simp only [dropPermit, Function.update_self]
    exact Nat.le_trans (Nat.sub_le ..) (h.maxRequests _)
  · simpa [dropPermit, heq] using h.maxRequests id'
  · subst heq
    simp only [dropPermit, Function.update_self]
    exact Nat.le_trans (Nat.sub_le ..) (h.maxBytes _)
  · simpa [dropPermit, heq] using h.maxBytes id'

/-- Several dropped permits are no longer accounted for. -/
theorem Covers.drops (h : Covers budgets (permits ++ permits')) :
    Covers (dropPermits budgets permits) permits' := by
  induction permits generalizing budgets with
  | nil => exact h
  | cons permit permits ih => exact ih h.drop

/-- An extended permit is accounted for with its new size. -/
theorem Covers.extend (h : Covers budgets (permit :: permits))
    (he : tryExtendBytes budgets permit bytes = some (permit', budgets')) :
    permit' = ⟨permit.budget, permit.bytes + bytes⟩ ∧ Covers budgets' (permit' :: permits) := by
  simp only [tryExtendBytes] at he
  split at he
  · cases he
  · next hfits =>
    obtain ⟨rfl, rfl⟩ := Prod.mk.inj (Option.some.inj he)
    refine ⟨rfl, ⟨fun id' => ?_, fun id' => ?_, fun id' => ?_, fun id' => ?_⟩⟩
    all_goals by_cases heq : id' = permit.budget
    · subst heq
      simpa [BudgetPermit.count] using h.requests permit.budget
    · have := h.requests id'
      simpa [heq, BudgetPermit.count] using this
    · subst heq
      have := h.bytes permit.budget
      simp only [tally_cons, BudgetPermit.size, if_true] at this
      simp only [Function.update_self, tally_cons, BudgetPermit.size, if_true]
      omega
    · have := h.bytes id'
      simpa [heq, BudgetPermit.size, Ne.symm heq] using this
    · subst heq
      simpa using h.maxRequests permit.budget
    · simpa [heq] using h.maxRequests id'
    · subst heq
      simpa using hfits
    · simpa [heq] using h.maxBytes id'

/-- Dropping a permit just taken restores the budgets. -/
theorem drop_of_tryAcquire (ha : tryAcquire budgets id bytes = some (permit, budgets')) :
    dropPermit budgets' permit = budgets := by
  simp only [tryAcquire] at ha
  split at ha
  · cases ha
  · obtain ⟨rfl, rfl⟩ := Prod.mk.inj (Option.some.inj ha)
    simp [dropPermit]

/-- Shrinking a permit by what it was just extended by restores it and the budgets. -/
theorem shrink_of_tryExtend (he : tryExtendBytes budgets permit bytes = some (permit', budgets')) :
    shrinkBytes budgets' permit' bytes = (permit, budgets) := by
  simp only [tryExtendBytes] at he
  split at he
  · cases he
  · obtain ⟨rfl, rfl⟩ := Prod.mk.inj (Option.some.inj he)
    simp [shrinkBytes]

/-- No subtraction is clipped when these permits are dropped one after another. -/
def DropsExactly (budgets : Budgets) : List BudgetPermit → Prop
  | [] => True
  | permit :: permits =>
    1 ≤ (budgets permit.budget).requests ∧ permit.bytes ≤ (budgets permit.budget).bytes ∧
      DropsExactly (dropPermit budgets permit) permits

/-- Any group of the permits that are accounted for can be dropped, in any order. -/
theorem Covers.dropsExactly (h : Covers budgets permits) (hsub : permits'.Subperm permits) :
    DropsExactly budgets permits' := by
  obtain ⟨group, hgroup, hsublist⟩ := hsub
  obtain ⟨rest, hrest⟩ := hsublist.exists_perm_append
  have hsplit : Covers budgets (permits' ++ rest) := h.congr fun weight =>
    tally_perm (hrest.trans (hgroup.append_right rest))
  clear h hgroup hsublist hrest
  induction permits' generalizing budgets with
  | nil => trivial
  | cons permit permits' ih =>
    have hrequests := hsplit.requests permit.budget
    have hbytes := hsplit.bytes permit.budget
    simp only [List.cons_append, tally_cons, BudgetPermit.count, BudgetPermit.size, if_true]
      at hrequests hbytes
    exact ⟨by omega, by omega, ih hsplit.drop⟩

end TgWsProxy.H2
