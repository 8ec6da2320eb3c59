import Mathlib.Data.BitVec

/-!
# Flags in a word

A bit kept apart as a truth value is put back at its place.
-/

namespace Flags

set_option autoImplicit false

variable {w : Nat} (val : BitVec w) {mask : BitVec w} (k : Nat)

/-- A single bit is all of its mask. -/
theorem and_twoPow_eq (h : val &&& BitVec.twoPow w k ≠ 0) :
    val &&& BitVec.twoPow w k = BitVec.twoPow w k := by
  rw [BitVec.and_twoPow] at h ⊢
  split
  · rfl
  · rename_i hBit
    rw [if_neg hBit] at h
    exact absurd rfl h

theorem ite_and_eq (hMask : mask = BitVec.twoPow w k) :
    (if decide (val &&& mask ≠ 0) = true then mask else 0) = val &&& mask := by
  subst hMask
  by_cases hBit : val &&& BitVec.twoPow w k = 0
  · rw [if_neg (by simpa using hBit), hBit]
  · rw [if_pos (by simpa using hBit), and_twoPow_eq val k hBit]

end Flags
