import Sys161.Lib.CInt
import Sys161.Riscv.DecodeRuns

/-!
# Multiplication and division

The functions of the M extension once more, in the arithmetic of the host, where
signed operations can fail; and what they come to over the integers.
-/

namespace Sys161.Riscv

open Exec
open Mips (Board)

set_option autoImplicit false

variable {δ : Type} (b : Board δ) (i : Nat)

namespace Alu

/-- The expressions of the source, with nothing where the host's arithmetic fails. The negations of
`rx_do_mulhsu` are of signed numbers, its product is not. -/
def host (op : Alu) (rs1 rs2 : Word) : Option Word :=
  match op with
  | mulh =>
    (CInt.mul (rs1.signExtend 64) (rs2.signExtend 64)).map (BitVec.extractLsb' 32 32)
  | mulhsu => do
    let neg := rs1.slt 0
    let rs1val ← if neg then CInt.neg (rs1.signExtend 64) else some (rs1.setWidth 64)
    let res := rs1val * rs2.setWidth 64
    let res ← if neg then CInt.neg res else some res
    return res.extractLsb' 32 32
  | div =>
    if rs2 = 0 then some 0xffffffff
    else if rs1 = 0x80000000 ∧ rs2 = 0xffffffff then some 0x80000000
    else CInt.div rs1 rs2
  | rem =>
    if rs2 = 0 then some rs1
    else if rs1 = 0x80000000 ∧ rs2 = 0xffffffff then some 0
    else CInt.rem rs1 rs2
  | _ => some (op.eval rs1 rs2)

/-- The results of the M extension over the integers. -/
def Exact (op : Alu) (rs1 rs2 val : Word) : Prop :=
  match op with
  | mul => (val.toNat : Int) = rs1.toInt * rs2.toInt % 2 ^ 32
  | mulh => val.toInt = rs1.toInt * rs2.toInt / 2 ^ 32
  | mulhu => val.toNat = rs1.toNat * rs2.toNat / 2 ^ 32
  | mulhsu => val.toInt = rs1.toInt * rs2.toNat / 2 ^ 32
  | div =>
    if rs2 = 0 then val = 0xffffffff
    else if rs1 = 0x80000000 ∧ rs2 = 0xffffffff then val = 0x80000000
    else val.toInt = rs1.toInt.tdiv rs2.toInt
  | divu => if rs2 = 0 then val = 0xffffffff else val.toNat = rs1.toNat / rs2.toNat
  | rem =>
    if rs2 = 0 then val = rs1
    else if rs1 = 0x80000000 ∧ rs2 = 0xffffffff then val = 0
    else val.toInt = rs1.toInt.tmod rs2.toInt
  | remu => if rs2 = 0 then val = rs1 else val.toNat = rs1.toNat % rs2.toNat
  | _ => val = op.eval rs1 rs2

end Alu

variable (x y : Word)

theorem toInt_high {z : BitVec 64} {v : Int} (hz : z.toInt = v) :
    (z.extractLsb' 32 32).toInt = v / 2 ^ 32 := by
  have hHalves := CInt.toInt_halves z
  have hLt := (z.setWidth 32).isLt
  omega

theorem exact_mul : Alu.mul.Exact x y (x * y) := by
  have hMul : x * y = BitVec.ofInt 32 (x.toInt * y.toInt) := by
    rw [BitVec.ofInt_mul, BitVec.ofInt_toInt, BitVec.ofInt_toInt]
  have hNonneg := Int.emod_nonneg (x.toInt * y.toInt) (by decide : (2 ^ 32 : Int) ≠ 0)
  change ((x * y).toNat : Int) = _
  rw [hMul, BitVec.toNat_ofInt]
  exact Int.toNat_of_nonneg hNonneg

theorem exact_mulh : Alu.mulh.Exact x y (Alu.mulh.eval x y) :=
  toInt_high (CInt.toInt_mul_signExtend x y)

theorem exact_mulhu : Alu.mulhu.Exact x y (Alu.mulhu.eval x y) := by
  have hHalves := CInt.toNat_halves (x.setWidth 64 * y.setWidth 64)
  have hLt := ((x.setWidth 64 * y.setWidth 64).setWidth 32).isLt
  rw [CInt.toNat_mul_setWidth] at hHalves
  change ((x.setWidth 64 * y.setWidth 64).extractLsb' 32 32).toNat = _
  omega

/-! ## The mixed product -/

/-- The magnitude of the signed operand. -/
theorem toNat_neg_signExtend {x : Word} (hx : x.msb = true) :
    ((-(x.signExtend 64)).toNat : Int) = -x.toInt ∧ (-(x.signExtend 64)).toNat ≤ 2 ^ 31 := by
  have hInt := BitVec.toInt_eq_msb_cond x
  have hExt := CInt.toInt_signExtend x
  have hMsb := BitVec.msb_eq_toNat (x := x)
  have hLt := x.isLt
  have hWide := BitVec.toInt_eq_toNat_cond (x.signExtend 64)
  have hWideLt := (x.signExtend 64).isLt
  rw [hx] at hMsb
  rw [hx, if_pos rfl] at hInt
  have hGe := of_decide_eq_true hMsb.symm
  rw [BitVec.toNat_neg]
  split at hWide <;> omega

theorem toNat_setWidth_of_nonneg {x : Word} (hx : x.msb = false) :
    ((x.setWidth 64).toNat : Int) = x.toInt ∧ (x.setWidth 64).toNat ≤ 2 ^ 31 := by
  have hInt := BitVec.toInt_eq_msb_cond x
  have hMsb := BitVec.msb_eq_toNat (x := x)
  have hWide := BitVec.toNat_setWidth_of_le (b := x) (show 32 ≤ 64 by decide)
  rw [hx] at hMsb
  rw [hx, if_neg (by decide)] at hInt
  have hLt := of_decide_eq_false hMsb.symm
  omega

theorem toInt_mulhsu_of_neg {x : Word} (hx : x.msb = true) :
    (-(-(x.signExtend 64) * y.setWidth 64)).toInt = x.toInt * y.toNat := by
  rcases toNat_neg_signExtend hx with ⟨hAbs, hLe⟩
  have hProd := CInt.toInt_mul_magnitude y hLe
  have hNat : (-(x.signExtend 64)).toNat * y.toNat ≤ 2 ^ 31 * (2 ^ 32 - 1) :=
    Nat.mul_le_mul hLe (Nat.le_sub_one_of_lt y.isLt)
  rw [BitVec.toInt_neg, hProd, ← Int.natCast_mul, Int.bmod_eq_of_le (by omega) (by omega),
    Int.natCast_mul, hAbs, Int.neg_mul, Int.neg_neg]

theorem toInt_mulhsu_of_nonneg {x : Word} (hx : x.msb = false) :
    (x.setWidth 64 * y.setWidth 64).toInt = x.toInt * y.toNat := by
  rcases toNat_setWidth_of_nonneg hx with ⟨hAbs, hLe⟩
  rw [CInt.toInt_mul_magnitude y hLe, hAbs]

theorem exact_mulhsu : Alu.mulhsu.Exact x y (Alu.mulhsu.eval x y) := by
  change (rxDoMulhsu x y).toInt = _
  unfold rxDoMulhsu
  cases hx : x.msb with
  | true => exact toInt_high (toInt_mulhsu_of_neg y hx)
  | false => exact toInt_high (toInt_mulhsu_of_nonneg y hx)

theorem host_mulhsu : Alu.mulhsu.host x y = some (Alu.mulhsu.eval x y) := by
  have hSlt : x.slt 0 = x.msb := by
    rw [BitVec.msb_eq_toInt, BitVec.slt_eq_decide]
    rfl
  change Alu.host .mulhsu x y = some (rxDoMulhsu x y)
  simp only [Alu.host, rxDoMulhsu, hSlt]
  cases hx : x.msb with
  | true =>
    have hAbs : CInt.neg (x.signExtend 64) = some (-(x.signExtend 64)) := by
      apply CInt.neg_eq_some
      rw [BitVec.toInt_eq_toNat_of_lt (by have := (toNat_neg_signExtend hx).2; omega),
        (toNat_neg_signExtend hx).1, CInt.toInt_signExtend]
    have hBack : CInt.neg (-(x.signExtend 64) * y.setWidth 64) =
        some (-(-(x.signExtend 64) * y.setWidth 64)) := by
      apply CInt.neg_eq_some
      rw [toInt_mulhsu_of_neg y hx, CInt.toInt_mul_magnitude y (toNat_neg_signExtend hx).2,
        (toNat_neg_signExtend hx).1, Int.neg_mul, Int.neg_neg]
    simp only [if_true, hAbs, Option.bind_eq_bind, Option.bind_some, hBack]
    rfl
  | false => rfl

/-! ## Division -/

theorem exact_div : Alu.div.Exact x y (Alu.div.eval x y) := by
  delta Alu.Exact Alu.eval
  dsimp only
  split
  next => rfl
  split
  next => rfl
  next h => exact CInt.toInt_sdiv_of_not h

theorem exact_rem : Alu.rem.Exact x y (Alu.rem.eval x y) := by
  delta Alu.Exact Alu.eval
  dsimp only
  split
  next => rfl
  split
  next => rfl
  next => exact BitVec.toInt_srem x y

theorem exact_divu : Alu.divu.Exact x y (Alu.divu.eval x y) := by
  delta Alu.Exact Alu.eval
  dsimp only
  split
  next => rfl
  next => exact BitVec.toNat_udiv

theorem exact_remu : Alu.remu.Exact x y (Alu.remu.eval x y) := by
  delta Alu.Exact Alu.eval
  dsimp only
  split
  next => rfl
  next => exact BitVec.toNat_umod

theorem exact_eval (op : Alu) : op.Exact x y (op.eval x y) :=
  match op with
  | .mul => exact_mul x y
  | .mulh => exact_mulh x y
  | .mulhu => exact_mulhu x y
  | .mulhsu => exact_mulhsu x y
  | .div => exact_div x y
  | .divu => exact_divu x y
  | .rem => exact_rem x y
  | .remu => exact_remu x y
  | .add | .sub | .slt | .sltu | .and | .or | .xor | .sll | .srl | .sra => rfl

theorem host_mulh : Alu.mulh.host x y = some (Alu.mulh.eval x y) := by
  have hProd : (x.signExtend 64 * y.signExtend 64).toInt =
      (x.signExtend 64).toInt * (y.signExtend 64).toInt := by
    rw [CInt.toInt_mul_signExtend, CInt.toInt_signExtend, CInt.toInt_signExtend]
  simp only [Alu.host, CInt.mul_eq_some hProd, Option.map_some, Alu.eval]

theorem host_div : Alu.div.host x y = some (Alu.div.eval x y) := by
  delta Alu.host Alu.eval
  dsimp only
  split
  next => rfl
  next hZero =>
    split
    next => rfl
    next h => exact CInt.div_eq_some hZero h

theorem host_rem : Alu.rem.host x y = some (Alu.rem.eval x y) := by
  delta Alu.host Alu.eval
  dsimp only
  split
  next => rfl
  next hZero =>
    split
    next => rfl
    next h => exact CInt.rem_eq_some hZero h

theorem host_eval (op : Alu) : op.host x y = some (op.eval x y) := by
  cases op with
  | mulh => exact host_mulh x y
  | mulhsu => exact host_mulhsu x y
  | div => exact host_div x y
  | rem => exact host_rem x y
  | _ => rfl

/-- Quotient and remainder, the special cases among them. -/
theorem div_mul_add_rem : Alu.div.eval x y * y + Alu.rem.eval x y = x := by
  delta Alu.eval
  dsimp only
  split
  next hZero => simp [hZero]
  split
  next h =>
    rw [h.1, h.2]
    decide
  next => exact CInt.sdiv_mul_add_srem x y

theorem divu_mul_add_remu : Alu.divu.eval x y * y + Alu.remu.eval x y = x := by
  delta Alu.eval
  dsimp only
  split
  next hZero => simp [hZero]
  next =>
    apply BitVec.eq_of_toNat_eq
    rw [BitVec.toNat_add, BitVec.toNat_mul, BitVec.toNat_udiv, BitVec.toNat_umod, Nat.mod_add_mod,
      Nat.div_add_mod', Nat.mod_eq_of_lt x.isLt]

/-! ## The instructions -/

theorem run_execute_alu (op : Alu) (rd rs1 rs2 : Reg) (m : Machine δ) :
    (execute b i (.long (Rv32.alu op rd rs1 rs2).encode)).run m =
      .ok false (m.modCpu i fun c => c.setX rd (op.eval (c.x rs1) (c.x rs2))) := by
  rw [execute, insn32_encode b i (Rv32.alu op rd rs1 rs2) id]
  rfl

/-- The instructions of the M extension, with any of the registers the same. -/
theorem muldiv_exact (op : Alu) (rd rs1 rs2 : Reg) (m : Machine δ) :
    let x := (m.mycpus i).x rs1
    let y := (m.mycpus i).x rs2
    (∃ val, op.host x y = some val ∧ op.Exact x y val ∧
      (execute b i (.long (Rv32.alu op rd rs1 rs2).encode)).run m =
        .ok false (m.modCpu i fun c => c.setX rd val)) ∧
    (∀ q r, Alu.div.host x y = some q → Alu.rem.host x y = some r → q * y + r = x) ∧
    ∀ q r, Alu.divu.host x y = some q → Alu.remu.host x y = some r → q * y + r = x := by
  intro x y
  refine ⟨⟨op.eval x y, host_eval x y op, exact_eval x y op, run_execute_alu b i op rd rs1 rs2 m⟩,
    ?_, ?_⟩
  · intro q r hq hr
    rw [host_eval, Option.some_inj] at hq hr
    rw [← hq, ← hr, div_mul_add_rem]
  · intro q r hq hr
    rw [host_eval, Option.some_inj] at hq hr
    rw [← hq, ← hr, divu_mul_add_remu]

end Sys161.Riscv
