import Mathlib.Algebra.Group.Nat.Defs
import Mathlib.Data.List.Basic

/-!
# Least significant byte first

Fixed-width little-endian encoding of a natural number and its inverse.
-/

namespace TgWsProxy.Core

/-- The low `width` bytes of `n`, least significant first. -/
def toLe : Nat → Nat → List UInt8
  | 0, _ => []
  | width + 1, n => UInt8.ofNat n :: toLe width (n / 256)

/-- Read bytes as a number, least significant first. -/
def ofLe : List UInt8 → Nat
  | [] => 0
  | b :: bs => b.toNat + 256 * ofLe bs

@[simp] theorem length_toLe (width n : Nat) : (toLe width n).length = width := by
  induction width generalizing n with
  | zero => rfl
  | succ width ih => simp [toLe, ih]

/-- A number that fits its width survives the round trip. -/
theorem ofLe_toLe {width n : Nat} (h : n < 256 ^ width) : ofLe (toLe width n) = n := by
  induction width generalizing n with
  | zero =>
    have hn : n = 0 := by simpa using h
    rw [hn]
    rfl
  | succ width ih =>
    have hd : n / 256 < 256 ^ width := by
      rw [Nat.pow_succ] at h
      omega
    simp only [toLe, ofLe, ih hd, UInt8.toNat_ofNat']
    omega

end TgWsProxy.Core
