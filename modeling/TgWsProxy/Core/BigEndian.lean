import Mathlib.Algebra.Group.Nat.Defs
import Mathlib.Data.List.Induction

/-!
# Network byte order

Fixed-width big-endian encoding of a natural number and its inverse.
-/

namespace TgWsProxy.Core

/-- The low `width` bytes of `n`, most significant first. -/
def toBe : Nat → Nat → List UInt8
  | 0, _ => []
  | width + 1, n => toBe width (n / 256) ++ [UInt8.ofNat n]

/-- Read bytes as a number, most significant first. -/
def ofBe (b : List UInt8) : Nat := b.foldl (fun acc x => acc * 256 + x.toNat) 0

@[simp] theorem length_toBe (width n : Nat) : (toBe width n).length = width := by
  induction width generalizing n with
  | zero => rfl
  | succ width ih => simp [toBe, ih]

/-- A number that fits its width survives the round trip. -/
theorem ofBe_toBe {width n : Nat} (h : n < 256 ^ width) : ofBe (toBe width n) = n := by
  induction width generalizing n with
  | zero =>
    have hn : n = 0 := by simpa using h
    rw [hn]
    rfl
  | succ width ih =>
    have hd : n / 256 < 256 ^ width := by
      rw [Nat.pow_succ] at h
      omega
    have hrec := ih hd
    simp only [ofBe] at hrec ⊢
    simp only [toBe, List.foldl_append, List.foldl_cons, List.foldl_nil, hrec,
      UInt8.toNat_ofNat']
    omega

private theorem ofBe_append_singleton (b : List UInt8) (x : UInt8) :
    ofBe (b ++ [x]) = ofBe b * 256 + x.toNat := by
  simp [ofBe]

/-- A value has no more digits than bytes. -/
theorem ofBe_lt (b : List UInt8) : ofBe b < 256 ^ b.length := by
  induction b using List.reverseRecOn with
  | nil => decide
  | append_singleton b x ih =>
    have hx := x.toNat_lt
    rw [ofBe_append_singleton, List.length_append, List.length_singleton, Nat.pow_succ]
    omega

/-- Bytes are the encoding of the number they are read as. -/
theorem toBe_ofBe (b : List UInt8) : toBe b.length (ofBe b) = b := by
  induction b using List.reverseRecOn with
  | nil => rfl
  | append_singleton b x ih =>
    have hx := x.toNat_lt
    have hd : (ofBe b * 256 + x.toNat) / 256 = ofBe b := by omega
    have hm : UInt8.ofNat (ofBe b * 256 + x.toNat) = x := by
      apply UInt8.toNat_inj.mp
      rw [UInt8.toNat_ofNat']
      omega
    rw [ofBe_append_singleton, List.length_append, List.length_singleton, toBe, hd, ih, hm]

end TgWsProxy.Core
