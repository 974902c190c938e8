import Mathlib.Data.List.Basic

/-!
# Positional xor streams

A stream cipher in counter mode and a repeating frame mask are the same thing:
byte `i` is xored with a byte that depends on the position alone. Masking is an
involution, keeps lengths and may be done in any pieces, as long as the position
moves with the bytes.
-/

namespace TgWsProxy.Core

/-- Xor the data with the keystream read from position `pos`. -/
def mask (ks : Nat → UInt8) (pos : Nat) (data : List UInt8) : List UInt8 :=
  data.mapIdx fun i b => b ^^^ ks (pos + i)

variable (ks : Nat → UInt8) (pos : Nat)

@[simp] theorem mask_nil : mask ks pos [] = [] := rfl

@[simp] theorem length_mask (data : List UInt8) : (mask ks pos data).length = data.length := by
  simp [mask]

/-- The second piece continues at the position where the first one ended. -/
theorem mask_append (xs ys : List UInt8) :
    mask ks pos (xs ++ ys) = mask ks pos xs ++ mask ks (pos + xs.length) ys := by
  simp only [mask, List.mapIdx_append]
  congr 2
  funext i b
  rw [Nat.add_comm i, Nat.add_assoc]

/-- Masking twice at the same position is the identity. -/
@[simp] theorem mask_mask (data : List UInt8) : mask ks pos (mask ks pos data) = data :=
  List.ext_getElem (by simp) fun i _ _ => by
    simp only [mask, List.getElem_mapIdx]
    rw [UInt8.xor_assoc, UInt8.xor_self, UInt8.xor_zero]

/-- A prefix is masked as if nothing followed. -/
theorem take_mask (n : Nat) (data : List UInt8) :
    (mask ks pos data).take n = mask ks pos (data.take n) := by
  rcases Nat.le_total n data.length with h | h
  · conv_lhs => rw [← List.take_append_drop n data, mask_append]
    rw [List.take_left' (by simp [h])]
  · rw [List.take_of_length_le (by simpa using h), List.take_of_length_le h]

/-- A suffix is masked from its own position. -/
theorem drop_mask (n : Nat) (data : List UInt8) :
    (mask ks pos data).drop n = mask ks (pos + n) (data.drop n) := by
  rcases Nat.le_total n data.length with h | h
  · conv_lhs => rw [← List.take_append_drop n data, mask_append]
    rw [List.drop_left' (by simp [h]), List.length_take, Nat.min_eq_left h]
  · rw [List.drop_eq_nil_of_le (by simpa using h), List.drop_eq_nil_of_le h, mask_nil]

/-- Mask a sequence of pieces, each from the position the previous one reached. -/
def maskPieces (ks : Nat → UInt8) : Nat → List (List UInt8) → List (List UInt8)
  | _, [] => []
  | pos, piece :: rest => mask ks pos piece :: maskPieces ks (pos + piece.length) rest

/-- However the stream is cut, the pieces join to the masked whole. -/
theorem flatten_maskPieces (pieces : List (List UInt8)) :
    (maskPieces ks pos pieces).flatten = mask ks pos pieces.flatten := by
  induction pieces generalizing pos with
  | nil => rfl
  | cons piece rest ih =>
    simp only [maskPieces, List.flatten_cons, mask_append, ih]

/-- Every piece keeps its length. -/
theorem length_of_mem_maskPieces {pieces : List (List UInt8)} {data : List UInt8}
    (h : data ∈ maskPieces ks pos pieces) : ∃ piece ∈ pieces, data.length = piece.length := by
  induction pieces generalizing pos with
  | nil => simp [maskPieces] at h
  | cons piece rest ih =>
    rcases List.mem_cons.mp h with rfl | h
    · exact ⟨piece, List.mem_cons_self .., length_mask ..⟩
    · obtain ⟨piece', hmem, hlen⟩ := ih _ h
      exact ⟨piece', List.mem_cons_of_mem _ hmem, hlen⟩

end TgWsProxy.Core
