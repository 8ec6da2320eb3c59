import Sys161.Lib.CInt
import Sys161.Mips.Rewind

/-!
# Multiplication and division

What `mult`, `multu`, `div` and `divu` leave in `hi` and `lo`, over the
integers. There is one quotient that the host does not compute.
-/

namespace Sys161.Mips

open Exec

set_option autoImplicit false

variable {δ : Type} (b : Board δ) (i : Nat)

inductive Muldiv where
  | mult
  | multu
  | div
  | divu
  deriving DecidableEq

namespace Muldiv

def funct : Muldiv → BitVec 6
  | mult => 24
  | multu => 25
  | div => 26
  | divu => 27

def encode (op : Muldiv) (rs rt : Reg) : Word := 0#6 ++ rs ++ rt ++ 0#10 ++ op.funct

/-- Products are exact; quotient and remainder are those of a division that truncates. -/
def Exact (op : Muldiv) (rs rt hi lo : Word) : Prop :=
  match op with
  | mult => hi.toInt * 2 ^ 32 + (lo.toNat : Int) = rs.toInt * rt.toInt
  | multu => hi.toNat * 2 ^ 32 + lo.toNat = rs.toNat * rt.toNat
  | div =>
    rt ≠ 0 → rs = lo * rt + hi ∧ hi.toInt.natAbs < rt.toInt.natAbs ∧ (hi = 0 ∨ hi.msb = rs.msb)
  | divu => rt ≠ 0 → rs.toNat = lo.toNat * rt.toNat + hi.toNat ∧ hi.toNat < rt.toNat

/-- The division that the host traps on. -/
def Overflow (op : Muldiv) (rs rt : Word) : Prop := op = div ∧ rs = 0x80000000 ∧ rt = 0xffffffff

/-- The values that the source puts into `hi` and `lo`. -/
def eval (op : Muldiv) (rs rt : Word) : Word × Word :=
  match op with
  | mult =>
    let t64 := rs.signExtend 64 * rt.signExtend 64
    ((t64 >>> 32).setWidth 32, t64.setWidth 32)
  | multu =>
    let t64 := rs.setWidth 64 * rt.setWidth 64
    ((t64 >>> 32).setWidth 32, t64.setWidth 32)
  | div =>
    if rt = 0 then (0, if rs.slt 0 then 0xffffffff else 0x7fffffff) else (rs.srem rt, rs.sdiv rt)
  | divu => if rt = 0 then (0, 0xffffffff) else (rs % rt, rs / rt)

variable (op : Muldiv)

theorem opm_encode (x y : Reg) : opm (op.encode x y) = .special := by
  unfold opm encode
  simp (disch := decide) only [BitVec.extractLsb'_append_eq_of_le, Nat.reduceSub,
    BitVec.extractLsb'_eq_self]
  rfl

theorem funct_encode (x y : Reg) : (op.encode x y).extractLsb' 0 6 = op.funct := by
  unfold encode
  simp (disch := decide) only [BitVec.extractLsb'_append_eq_of_add_le, BitVec.extractLsb'_eq_self]

@[simp] theorem rs_encode (x y : Reg) : rs (op.encode x y) = x := by
  unfold rs encode
  simp (disch := decide) only [BitVec.extractLsb'_append_eq_of_le,
    BitVec.extractLsb'_append_eq_of_add_le, Nat.reduceSub, BitVec.extractLsb'_eq_self]

@[simp] theorem rt_encode (x y : Reg) : rt (op.encode x y) = y := by
  unfold rt encode
  simp (disch := decide) only [BitVec.extractLsb'_append_eq_of_le,
    BitVec.extractLsb'_append_eq_of_add_le, Nat.reduceSub, BitVec.extractLsb'_eq_self]

theorem stalls_encode (x y : Reg) (c : Mipscpu) : stalls (op.encode x y) c = whilo c := by
  unfold stalls ops
  rw [opm_encode, funct_encode]
  cases op <;> rfl

/-- Where the host computes it, it is exact. -/
theorem exact_eval (x y : Word) : op.Exact x y (op.eval x y).1 (op.eval x y).2 := by
  cases op with
  | mult => exact (CInt.toInt_halves _).trans (CInt.toInt_mul_signExtend x y)
  | multu => exact (CInt.toNat_halves _).trans (CInt.toNat_mul_setWidth x y)
  | div =>
    intro hy
    simp only [eval, if_neg hy]
    exact ⟨(CInt.sdiv_mul_add_srem x y).symm, CInt.natAbs_srem_lt x hy, CInt.srem_sign x y⟩
  | divu =>
    intro hy
    have hPos : 0 < y.toNat := Nat.pos_of_ne_zero fun h => hy (BitVec.eq_of_toNat_eq h)
    simp only [eval, if_neg hy, BitVec.toNat_udiv, BitVec.toNat_umod]
    exact ⟨(Nat.div_add_mod' _ _).symm, Nat.mod_lt _ hPos⟩

end Muldiv

section Execute

variable (op : Muldiv) (x y : Reg) (m : Machine δ)

/-- What is asked of the instruction where it does not have to wait: `hi` and `lo` are exact; and
the host computes it. -/
def Muldiv.Meets : Prop :=
  After (execute b i (op.encode x y))
    (fun _ t => whilo (m.mycpus i) = true ∨
      op.Exact ((m.mycpus i).r x) ((m.mycpus i).r y) (t.mycpus i).hi (t.mycpus i).lo)
    (fun e _ => ∀ msg, e ≠ .undefined msg) m

variable {op x y m}

theorem phonyException_defined {Q : Unit → Machine δ → Prop} (hQ : ∀ t, Q () t) (m : Machine δ) :
    After (phonyException b i) Q (fun e _ => ∀ msg, e ≠ .undefined msg) m := by
  rw [after_phonyException]
  dsimp only
  split
  · simp
  · split
    · simp
    · exact hQ _

theorem run_setHilo (insn : Word) (f : Word → Word → Word × Word)
    (hReady : whilo (m.mycpus i) = false) :
    (setHilo b i insn f).run m = .ok () (m.modCpu i fun c =>
      { c with
        hi := (f (c.r (rs insn)) (c.r (rt insn))).1
        lo := (f (c.r (rs insn)) (c.r (rt insn))).2
        hiwait := 2
        lowait := 2 }) := by
  have hRun : (setHilo b i insn f).run m =
      (if whilo (m.mycpus i) = true then phonyException b i
        else modCpu i fun c =>
          { c with
            hi := (f (c.r (rs insn)) (c.r (rt insn))).1
            lo := (f (c.r (rs insn)) (c.r (rt insn))).2
            hiwait := 2
            lowait := 2 }).run m := rfl
  rw [hRun, hReady]
  rfl

theorem execute_encode : execute b i (op.encode x y) =
    (match op with
      | .mult => mxMult b i (op.encode x y)
      | .multu => mxMultu b i (op.encode x y)
      | .div => mxDiv b i (op.encode x y)
      | .divu => mxDivu b i (op.encode x y) : M δ Unit) := by
  unfold execute executeSpecial ops
  rw [op.opm_encode, op.funct_encode]
  cases op <;> rfl

theorem run_mxDiv (insn : Word) (m : Machine δ) :
    (mxDiv b i insn).run m =
      if whilo (m.mycpus i) = false ∧ (m.mycpus i).r (rs insn) = 0x80000000 ∧
          (m.mycpus i).r (rt insn) = 0xffffffff then
        .error (.undefined "division overflow") m
      else (setHilo b i insn fun x y => Muldiv.div.eval x y).run m := by
  have hRun : (mxDiv b i insn).run m =
      (if whilo (m.mycpus i) = false ∧ (m.mycpus i).r (rs insn) = 0x80000000 ∧
          (m.mycpus i).r (rt insn) = 0xffffffff then
        throw (.undefined "division overflow")
      else setHilo b i insn fun x y => Muldiv.div.eval x y).run m := rfl
  rw [hRun]
  split <;> rfl

theorem run_execute_muldiv (hReady : whilo (m.mycpus i) = false)
    (hFits : ¬op.Overflow ((m.mycpus i).r x) ((m.mycpus i).r y)) :
    (execute b i (op.encode x y)).run m = .ok () (m.modCpu i fun c =>
      { c with
        hi := (op.eval (c.r x) (c.r y)).1
        lo := (op.eval (c.r x) (c.r y)).2
        hiwait := 2
        lowait := 2 }) := by
  have hHilo := run_setHilo b i (op.encode x y) op.eval hReady
  rw [op.rs_encode, op.rt_encode] at hHilo
  rw [execute_encode]
  cases op with
  | div =>
    rw [run_mxDiv, Muldiv.rs_encode, Muldiv.rt_encode, if_neg fun h => hFits ⟨rfl, h.2⟩]
    exact hHilo
  | _ => exact hHilo

theorem not_meets_of_overflow (hReady : whilo (m.mycpus i) = false)
    (hOverflow : op.Overflow ((m.mycpus i).r x) ((m.mycpus i).r y)) : ¬op.Meets b i x y m := by
  obtain ⟨rfl, hx, hy⟩ := hOverflow
  intro hMeets
  unfold Muldiv.Meets After at hMeets
  rw [execute_encode] at hMeets
  dsimp only at hMeets
  rw [run_mxDiv, Muldiv.rs_encode, Muldiv.rt_encode, if_pos ⟨hReady, hx, hy⟩] at hMeets
  exact hMeets _ rfl

/-- The host does all of them but one. -/
theorem muldiv_meets_iff (op : Muldiv) (x y : Reg) (m : Machine δ) :
    op.Meets b i x y m ↔
      ¬(whilo (m.mycpus i) = false ∧ op.Overflow ((m.mycpus i).r x) ((m.mycpus i).r y)) := by
  constructor
  · rintro hMeets ⟨hReady, hOverflow⟩
    exact not_meets_of_overflow b i hReady hOverflow hMeets
  · intro hFits
    cases hWait : whilo (m.mycpus i) with
    | true =>
      have hStalls : stalls (op.encode x y) (m.mycpus i) = true := by
        rw [Muldiv.stalls_encode, hWait]
      unfold Muldiv.Meets
      rw [after_execute_stall i hStalls]
      exact phonyException_defined b i (fun _ => .inl hWait) m
    | false =>
      have hRun := run_execute_muldiv b i hWait fun h => hFits ⟨hWait, h⟩
      unfold Muldiv.Meets After
      rw [hRun]
      dsimp only
      rw [Machine.modCpu_mycpus_self]
      exact .inr (op.exact_eval _ _)

end Execute

/-- The least integer divided by -1, by a program in user mode or any other. -/
theorem not_muldiv_meets :
    ¬∀ (b : Board Unit) (i : Nat) (op : Muldiv) (x y : Reg) (m : Machine Unit),
      op.Meets b i x y m := by
  intro h
  refine not_meets_of_overflow bareBoard 0 ?_ ?_ (h bareBoard 0 .div 1 2
    ((machineInit () false).modCpu 0 fun c =>
      { c with r := fun rg => if rg = 1 then 0x80000000 else 0xffffffff }))
  · rfl
  · rw [Machine.modCpu_mycpus_self]
    exact ⟨rfl, rfl, rfl⟩

end Sys161.Mips
