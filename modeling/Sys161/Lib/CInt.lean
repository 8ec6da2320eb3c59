import Mathlib.Algebra.Group.Int.Defs
import Mathlib.Algebra.Group.Nat.Defs
import Mathlib.Data.BitVec

/-!
# Signed arithmetic of the host

The operators of C on a signed type of a fixed width. They have no value where
the exact result is not one of the type, or the divisor is zero.
-/

namespace CInt

set_option autoImplicit false

variable {w : Nat}

def neg (x : BitVec w) : Option (BitVec w) := if x.negOverflow then none else some (-x)

def mul (x y : BitVec w) : Option (BitVec w) := if x.smulOverflow y then none else some (x * y)

/-- The least integer divided by -1. -/
def DivOverflow (x y : BitVec w) : Prop := x = BitVec.intMin w ∧ y = -1#w

instance (x y : BitVec w) : Decidable (DivOverflow x y) :=
  inferInstanceAs (Decidable (_ ∧ _))

def div (x y : BitVec w) : Option (BitVec w) :=
  if y = 0 ∨ DivOverflow x y then none else some (x.sdiv y)

/-- The quotient has to exist. -/
def rem (x y : BitVec w) : Option (BitVec w) :=
  if y = 0 ∨ DivOverflow x y then none else some (x.srem y)

/-- A value of the type is one of its integers. -/
theorem eq_of_toInt_bmod {x z : BitVec w} {v : Int} (hx : x.toInt = v.bmod (2 ^ w))
    (hz : z.toInt = v) : x = z := by
  apply BitVec.eq_of_toInt_eq
  rw [hx, ← hz, BitVec.toInt_eq_toNat_bmod, Int.bmod_bmod]

theorem neg_eq_some {x z : BitVec w} (hz : z.toInt = -x.toInt) : neg x = some z := by
  have hLt : -x.toInt < 2 ^ (w - 1) := hz ▸ BitVec.toInt_lt
  have hNot : x.negOverflow = false := by
    simp only [BitVec.negOverflow, beq_eq_false_iff_ne, ne_eq]
    intro hMin
    rw [hMin, neg_neg] at hLt
    exact lt_irrefl _ hLt
  have hNeg : -x = z := eq_of_toInt_bmod BitVec.toInt_neg hz
  rw [neg, hNot, hNeg]
  rfl

theorem mul_eq_some {x y z : BitVec w} (hz : z.toInt = x.toInt * y.toInt) :
    mul x y = some z := by
  have hNot : x.smulOverflow y = false := by
    rw [BitVec.smulOverflow, ← hz, Bool.or_eq_false_iff, decide_eq_false_iff_not,
      decide_eq_false_iff_not]
    exact ⟨not_le.mpr BitVec.toInt_lt, not_lt.mpr (BitVec.le_toInt z)⟩
  have hMul : x * y = z := eq_of_toInt_bmod (BitVec.toInt_mul x y) hz
  rw [mul, hNot, hMul]
  rfl

theorem div_eq_some {x y : BitVec w} (hy : y ≠ 0) (h : ¬DivOverflow x y) :
    div x y = some (x.sdiv y) := if_neg (not_or.mpr ⟨hy, h⟩)

theorem rem_eq_some {x y : BitVec w} (hy : y ≠ 0) (h : ¬DivOverflow x y) :
    rem x y = some (x.srem y) := if_neg (not_or.mpr ⟨hy, h⟩)

theorem toInt_sdiv_of_not {x y : BitVec w} (h : ¬DivOverflow x y) :
    (x.sdiv y).toInt = x.toInt.tdiv y.toInt := by
  apply BitVec.toInt_sdiv_of_ne_or_ne
  exact not_and_or.mp h

/-- The quotient of the least integer by -1 is that integer where the arithmetic wraps. -/
theorem sdiv_mul_add_srem (x y : BitVec w) : x.sdiv y * y + x.srem y = x := by
  have hInt : x.toInt.tdiv y.toInt * y.toInt + x.toInt.tmod y.toInt = x.toInt := by
    rw [Int.add_comm, Int.tmod_add_tdiv_mul]
  have hDiv : x.sdiv y = BitVec.ofInt w (x.toInt.tdiv y.toInt) := by
    apply BitVec.eq_of_toInt_eq
    rw [BitVec.toInt_sdiv, BitVec.toInt_ofInt]
  have hRem : x.srem y = BitVec.ofInt w (x.toInt.tmod y.toInt) := by
    apply BitVec.eq_of_toInt_eq
    rw [BitVec.toInt_srem, BitVec.toInt_ofInt, ← BitVec.toInt_srem, BitVec.toInt_eq_toNat_bmod,
      Int.bmod_bmod]
  calc x.sdiv y * y + x.srem y
      = BitVec.ofInt w (x.toInt.tdiv y.toInt) * BitVec.ofInt w y.toInt +
          BitVec.ofInt w (x.toInt.tmod y.toInt) := by rw [hDiv, hRem, BitVec.ofInt_toInt]
    _ = BitVec.ofInt w (x.toInt.tdiv y.toInt * y.toInt + x.toInt.tmod y.toInt) := by
      rw [BitVec.ofInt_add, BitVec.ofInt_mul]
    _ = x := by rw [hInt, BitVec.ofInt_toInt]

theorem toInt_ne_zero {x : BitVec w} (hx : x ≠ 0) : x.toInt ≠ 0 :=
  fun h => hx (BitVec.toInt_inj.mp (h.trans BitVec.toInt_zero.symm))

theorem natAbs_srem_lt (x : BitVec w) {y : BitVec w} (hy : y ≠ 0) :
    (x.srem y).toInt.natAbs < y.toInt.natAbs := by
  have hPos : y.toInt.natAbs ≠ 0 := Int.natAbs_ne_zero.mpr (toInt_ne_zero hy)
  rw [BitVec.toInt_srem, Int.natAbs_tmod]
  exact Nat.mod_lt _ (Nat.pos_of_ne_zero hPos)

/-- The remainder has the sign of the dividend. -/
theorem srem_sign (x y : BitVec w) : x.srem y = 0 ∨ (x.srem y).msb = x.msb := by
  rw [or_iff_not_imp_left]
  intro hNe
  have hRem : (x.srem y).toInt ≠ 0 := toInt_ne_zero hNe
  rw [BitVec.msb_eq_toInt, BitVec.msb_eq_toInt, decide_eq_decide]
  rw [BitVec.toInt_srem] at hRem ⊢
  rcases le_or_gt 0 x.toInt with hx | hx
  · have hNonneg := Int.tmod_nonneg y.toInt hx
    omega
  · have hNonneg := Int.tmod_nonneg y.toInt (le_of_lt (neg_pos.mpr hx))
    rw [Int.neg_tmod] at hNonneg
    omega

/-! ## Products of words -/

section Products

variable (x y : BitVec 32)

theorem toInt_signExtend : (x.signExtend 64).toInt = x.toInt :=
  BitVec.toInt_signExtend_of_le (by decide)

theorem toInt_mul_signExtend :
    (x.signExtend 64 * y.signExtend 64).toInt = x.toInt * y.toInt := by
  have hLe := BitVec.toInt_mul_toInt_le (x := x) (y := y)
  have hGe := BitVec.le_toInt_mul_toInt (x := x) (y := y)
  rw [BitVec.toInt_mul, toInt_signExtend, toInt_signExtend]
  exact Int.bmod_eq_of_le (by omega) (by omega)

theorem toNat_mul_setWidth :
    (x.setWidth 64 * y.setWidth 64).toNat = x.toNat * y.toNat := by
  have hProd : x.toNat * y.toNat < 2 ^ 32 * 2 ^ 32 := Nat.mul_lt_mul'' x.isLt y.isLt
  rw [BitVec.toNat_mul, BitVec.toNat_setWidth_of_le (by decide),
    BitVec.toNat_setWidth_of_le (by decide)]
  exact Nat.mod_eq_of_lt (by omega)

/-- A magnitude of a signed word times a word is not too large for the sign. -/
theorem toInt_mul_magnitude {u : BitVec 64} (hu : u.toNat ≤ 2 ^ 31) :
    (u * y.setWidth 64).toInt = u.toNat * y.toNat := by
  have hProd : u.toNat * y.toNat ≤ 2 ^ 31 * (2 ^ 32 - 1) :=
    Nat.mul_le_mul hu (Nat.le_sub_one_of_lt y.isLt)
  have hMul : (u * y.setWidth 64).toNat = u.toNat * y.toNat := by
    rw [BitVec.toNat_mul, BitVec.toNat_setWidth_of_le (by decide)]
    exact Nat.mod_eq_of_lt (by omega)
  rw [BitVec.toInt_eq_toNat_of_lt (by omega), hMul]
  exact Int.natCast_mul _ _

end Products

variable (z : BitVec 64)

theorem halves_append : (z.extractLsb' 32 32 ++ z.setWidth 32 : BitVec (32 + 32)) = z := by
  apply BitVec.eq_of_getLsbD_eq
  intro j hj
  simp only [BitVec.getLsbD_append, BitVec.getLsbD_setWidth, BitVec.getLsbD_extractLsb']
  split
  next hLow => simp [hLow]
  next hHigh =>
    have hSub : 32 + (j - 32) = j := by omega
    have hLt : j - 32 < 32 := by omega
    simp [hSub, hLt]

theorem toInt_halves :
    (z.extractLsb' 32 32).toInt * 2 ^ 32 + ((z.setWidth 32).toNat : Int) = z.toInt := by
  have hAppend := BitVec.toInt_append (x := z.extractLsb' 32 32) (y := z.setWidth 32)
  rw [halves_append, if_neg (by decide), Int.mul_comm] at hAppend
  exact hAppend.symm

theorem toNat_halves : (z.extractLsb' 32 32).toNat * 2 ^ 32 + (z.setWidth 32).toNat = z.toNat := by
  have hHigh := BitVec.extractLsb'_toNat 32 32 z
  have hLow := BitVec.toNat_setWidth 32 z
  have hLt := z.isLt
  rw [Nat.shiftRight_eq_div_pow] at hHigh
  omega

end CInt
