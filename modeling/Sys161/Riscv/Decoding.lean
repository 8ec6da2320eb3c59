import Mathlib.Tactic.IntervalCases
import Sys161.Riscv.Encoding

/-!
# The decoder and the instruction set

Which words the dispatch of `insn32` carries out as the architecture has them. A
word is taken apart into the fields of the R-type format and put together again;
the immediates are functions of these. The offset of `jal` comes out wrong where
it is far and negative, and the words that belong to no instruction are not all
refused.
-/

namespace Sys161.Riscv

set_option autoImplicit false

variable (insn : Word)

/-! ## Fields -/

section Fields

variable (d r1 r2 : Reg) (f3 : BitVec 3) (op : BitVec 5) (f7 : BitVec 7)

@[simp] theorem rd_rType : rd (rType d r1 r2 f3 op f7) = d := by
  unfold rd rType
  simp (disch := decide) only [BitVec.extractLsb'_append_eq_of_le,
    BitVec.extractLsb'_append_eq_of_add_le, Nat.reduceSub, BitVec.extractLsb'_eq_self]

@[simp] theorem rs1_rType : rs1 (rType d r1 r2 f3 op f7) = r1 := by
  unfold rs1 rType
  simp (disch := decide) only [BitVec.extractLsb'_append_eq_of_le,
    BitVec.extractLsb'_append_eq_of_add_le, Nat.reduceSub, BitVec.extractLsb'_eq_self]

@[simp] theorem rs2_rType : rs2 (rType d r1 r2 f3 op f7) = r2 := by
  unfold rs2 rType
  simp (disch := decide) only [BitVec.extractLsb'_append_eq_of_le,
    BitVec.extractLsb'_append_eq_of_add_le, Nat.reduceSub, BitVec.extractLsb'_eq_self]

@[simp] theorem funct3_rType : funct3 (rType d r1 r2 f3 op f7) = f3 := by
  unfold funct3 rType
  simp (disch := decide) only [BitVec.extractLsb'_append_eq_of_le,
    BitVec.extractLsb'_append_eq_of_add_le, Nat.reduceSub, BitVec.extractLsb'_eq_self]

@[simp] theorem op32_rType : op32 (rType d r1 r2 f3 op f7) = op := by
  unfold op32 rType
  simp (disch := decide) only [BitVec.extractLsb'_append_eq_of_le,
    BitVec.extractLsb'_append_eq_of_add_le, Nat.reduceSub, BitVec.extractLsb'_eq_self]

@[simp] theorem funct7_rType : funct7 (rType d r1 r2 f3 op f7) = f7 := by
  unfold funct7 rType
  simp (disch := decide) only [BitVec.extractLsb'_append_eq_of_le, Nat.reduceSub,
    BitVec.extractLsb'_eq_self]

/-- A word of four bytes is the one that its fields make up. -/
theorem rType_fields (hLow : insn &&& 0x3 = 0x3) :
    rType (rd insn) (rs1 insn) (rs2 insn) (funct3 insn) (op32 insn) (funct7 insn) = insn := by
  have hBit0 : insn[0] = true := by
    have hBit := congrArg (BitVec.getLsbD · 0) hLow
    simpa using hBit
  have hBit1 : insn[1] = true := by
    have hBit := congrArg (BitVec.getLsbD · 1) hLow
    simpa using hBit
  apply BitVec.eq_of_getLsbD_eq
  intro j hj
  simp only [rType, rd, rs1, rs2, funct3, op32, funct7, BitVec.getLsbD_append,
    BitVec.getLsbD_extractLsb']
  interval_cases j <;> simp [hBit0, hBit1]

end Fields

/-! ## Immediates -/

section Immediates

variable (d r1 r2 : Reg) (f3 : BitVec 3) (op : BitVec 5) (f7 : BitVec 7)

/-- The immediate of a B-type word with these fields. -/
def branchImm (d : Reg) (f7 : BitVec 7) : BitVec 12 :=
  f7.extractLsb' 6 1 ++ d.extractLsb' 0 1 ++ f7.extractLsb' 0 6 ++ d.extractLsb' 1 4

/-- The immediate of a J-type word with these fields. -/
def jumpImm (r1 r2 : Reg) (f3 : BitVec 3) (f7 : BitVec 7) : BitVec 20 :=
  f7.extractLsb' 6 1 ++ r1 ++ f3 ++ r2.extractLsb' 0 1 ++ f7.extractLsb' 0 6 ++ r2.extractLsb' 1 4

theorem iType_append : iType d r1 f3 op (f7 ++ r2) = rType d r1 r2 f3 op f7 := by
  rw [iType, BitVec.extractLsb'_append_eq_right, BitVec.extractLsb'_append_eq_left]

theorem sType_append : sType r1 r2 f3 op (f7 ++ d) = rType d r1 r2 f3 op f7 := by
  rw [sType, BitVec.extractLsb'_append_eq_right, BitVec.extractLsb'_append_eq_left]

theorem bType_branchImm : bType r1 r2 f3 op (branchImm d f7) = rType d r1 r2 f3 op f7 := by
  apply BitVec.eq_of_getLsbD_eq
  intro j hj
  simp only [bType, rType, branchImm, BitVec.getLsbD_append, BitVec.getLsbD_extractLsb']
  interval_cases j <;> simp

theorem uType_append : uType d op (f7 ++ r2 ++ r1 ++ f3) = rType d r1 r2 f3 op f7 := by
  apply BitVec.eq_of_getLsbD_eq
  intro j hj
  simp only [uType, rType, BitVec.getLsbD_append, BitVec.getLsbD_extractLsb']
  interval_cases j <;> simp

theorem jType_jumpImm : jType d op (jumpImm r1 r2 f3 f7) = rType d r1 r2 f3 op f7 := by
  apply BitVec.eq_of_getLsbD_eq
  intro j hj
  simp only [jType, rType, jumpImm, BitVec.getLsbD_append, BitVec.getLsbD_extractLsb']
  interval_cases j <;> simp

theorem signext_eq (k : Nat) :
    signext insn k = if insn.msb then BitVec.allOnes 32 <<< k else 0 := by
  have hMsb : insn &&& 0x80000000 ≠ 0 ↔ insn.msb = true := by
    rw [BitVec.msb_eq_getLsbD_last, show (0x80000000 : Word) = BitVec.twoPow 32 31 from rfl,
      BitVec.and_twoPow]
    split <;> simp_all
  have hShift : ((0xffffffff <<< k : Nat) : Word) = BitVec.allOnes 32 <<< k := by
    apply BitVec.eq_of_toNat_eq
    rw [BitVec.toNat_shiftLeft, BitVec.toNat_allOnes]
    change _ % _ = _
    rfl
  unfold signext
  rw [hShift]
  by_cases h : insn.msb = true
  · rw [if_pos (hMsb.mpr h), if_pos h]
  · rw [if_neg (mt hMsb.mp h), if_neg h]

theorem getLsbD_signext (k : Nat) {j : Nat} (hj : j < 32) :
    (signext insn k).getLsbD j = (decide (k ≤ j) && insn.getLsbD 31) := by
  rw [← BitVec.msb_eq_getLsbD_last insn, signext_eq]
  cases insn.msb with
  | false => simp
  | true =>
    simp only [if_true, BitVec.getLsbD_shiftLeft, BitVec.getLsbD_allOnes, hj, decide_true,
      Bool.true_and, Bool.and_true]
    by_cases hLow : j < k
    · simp [hLow]
    · have hIn : j - k < 32 := by omega
      simp [hLow, hIn]
      omega



theorem iImm_iType (imm : BitVec 12) : iImm (iType d r1 f3 op imm) = imm.signExtend 32 := by
  apply BitVec.eq_of_getLsbD_eq
  intro j hj
  simp only [iImm, iType, rType, BitVec.getLsbD_or, BitVec.getLsbD_ushiftRight,
    getLsbD_signext _ _ hj, BitVec.getLsbD_signExtend, BitVec.msb_eq_getLsbD_last,
    BitVec.getLsbD_append, BitVec.getLsbD_extractLsb']
  interval_cases j <;> simp

theorem sImm_sType (imm : BitVec 12) : sImm (sType r1 r2 f3 op imm) = imm.signExtend 32 := by
  apply BitVec.eq_of_getLsbD_eq
  intro j hj
  simp only [sImm, sType, rType, BitVec.getLsbD_or, BitVec.getLsbD_and,
    BitVec.getLsbD_ushiftRight, getLsbD_signext _ _ hj, BitVec.getLsbD_signExtend,
    BitVec.msb_eq_getLsbD_last, BitVec.getLsbD_append, BitVec.getLsbD_extractLsb']
  interval_cases j <;> simp

theorem bImm_bType (imm : BitVec 12) :
    bImm (bType r1 r2 f3 op imm) = (imm ++ 0#1).signExtend 32 := by
  apply BitVec.eq_of_getLsbD_eq
  intro j hj
  simp only [bImm, bType, rType, BitVec.getLsbD_or, BitVec.getLsbD_and,
    BitVec.getLsbD_ushiftRight, BitVec.getLsbD_shiftLeft, getLsbD_signext _ _ hj,
    BitVec.getLsbD_signExtend, BitVec.msb_eq_getLsbD_last, BitVec.getLsbD_append,
    BitVec.getLsbD_extractLsb']
  interval_cases j <;> simp

theorem uImm_uType (imm : BitVec 20) : uImm (uType d op imm) = imm ++ 0#12 := by
  apply BitVec.eq_of_getLsbD_eq
  intro j hj
  simp only [uImm, uType, rType, BitVec.getLsbD_and, BitVec.getLsbD_append,
    BitVec.getLsbD_extractLsb']
  interval_cases j <;> simp

/-- The sign is extended from one bit too low: bit 19 of the offset is set wherever it is
negative. -/
theorem jImm_jType (imm : BitVec 20) :
    jImm (jType d op imm) =
      (imm ++ 0#1).signExtend 32 ||| (if imm[19] then 0x00080000 else 0) := by
  apply BitVec.eq_of_getLsbD_eq
  intro j hj
  simp only [jImm, jType, rType, BitVec.getLsbD_or, BitVec.getLsbD_and,
    BitVec.getLsbD_ushiftRight, getLsbD_signext _ _ hj, BitVec.getLsbD_signExtend,
    BitVec.msb_eq_getLsbD_last, BitVec.getLsbD_append, BitVec.getLsbD_extractLsb']
  cases hSign : imm[19] <;> interval_cases j <;> simp [hSign]

end Immediates

/-! ## Instructions as they are encoded -/

theorem Csr.ofBits_congr {num num' : Word} (h : num &&& 0xfff = num' &&& 0xfff) :
    Csr.ofBits num = Csr.ofBits num' := by
  unfold Csr.ofBits
  rw [h]

/-- The number of a register counts by its low bits only. -/
theorem Csrop.run_congr {num num' : Word} (h : num &&& 0xfff = num' &&& 0xfff) (op : Csrop)
    (c : Riscvcpu) (d src : Reg) : op.run c d src num = op.run c d src num' := by
  have hRead : ∀ c : Riscvcpu, c.csrread num = c.csrread num' := by
    intro c
    unfold Riscvcpu.csrread
    rw [Csr.ofBits_congr h]
  have hWrite : ∀ (c : Riscvcpu) val, c.csrwrite num val = c.csrwrite num' val := by
    intro c val
    unfold Riscvcpu.csrwrite
    rw [Csr.ofBits_congr h]
  cases op <;> simp only [Csrop.run, Riscvcpu.rxDoCsrrw, Riscvcpu.rxDoCsrrsc, Riscvcpu.rxDoCsrX,
    Riscvcpu.rxDoCsrRc, Riscvcpu.rxDoCsrR, hRead, hWrite]

theorem signExtend_low (num : BitVec 12) : num.signExtend 32 &&& 0xfff = num.setWidth 32 &&& 0xfff := by
  apply BitVec.eq_of_getLsbD_eq
  intro j hj
  simp only [BitVec.getLsbD_and, BitVec.getLsbD_signExtend, BitVec.getLsbD_setWidth]
  interval_cases j <;> simp

theorem shImm_rType (d r1 shamt : Reg) (f3 : BitVec 3) (op : BitVec 5) (f7 : BitVec 7) :
    shImm (rType d r1 shamt f3 op f7) = shamt.setWidth 32 := by
  rw [shImm, ← iType_append, iImm_iType]
  apply BitVec.eq_of_getLsbD_eq
  intro j hj
  simp only [BitVec.getLsbD_and, BitVec.getLsbD_signExtend, BitVec.getLsbD_setWidth,
    BitVec.getLsbD_append, BitVec.msb_eq_getLsbD_last]
  interval_cases j <;> simp

/-- The order bits of an atomic operation are not part of its number. -/
theorem funct5_append (f5 : BitVec 5) (aqrl : BitVec 2) : (f5 ++ aqrl).toNat >>> 2 = f5.toNat := by
  rw [BitVec.toNat_append, ← Nat.shiftLeft_add_eq_or_of_lt aqrl.isLt,
    Nat.shiftLeft_eq, Nat.shiftRight_eq_div_pow]
  omega

/-- An instruction with a far jump backwards, over more than half of the range. -/
def Rv32.FarBack : Rv32 → Prop
  | .jal _ imm => imm[19] = true ∧ imm[18] = false
  | _ => False

theorem decode32_encode (instr : Rv32) (hNear : ¬instr.FarBack) :
    decode32 instr.encode = instr.call ∨ ∃ op d src num, instr = .csr op d src num := by
  cases instr with
  | lui d imm => exact .inl (by simp [Rv32.encode, Rv32.call, decode32, uImm_uType])
  | auipc d imm => exact .inl (by simp [Rv32.encode, Rv32.call, decode32, uImm_uType])
  | jal d imm =>
    have hImm : jImm (jType d 27 imm) = (imm ++ 0#1).signExtend 32 := by
      rw [jImm_jType]
      split
      next hBack =>
        have hBit : imm[18] = true := by
          by_contra hClear
          exact hNear ⟨hBack, by simpa using hClear⟩
        apply BitVec.eq_of_getLsbD_eq
        intro j hj
        simp only [BitVec.getLsbD_or, BitVec.getLsbD_signExtend, BitVec.getLsbD_append]
        interval_cases j <;> simp [hBit]
      next hForward => simp
    left
    simp [Rv32.encode, Rv32.call, decode32]
    exact hImm
  | jalr d r1 imm => exact .inl (by simp [Rv32.encode, Rv32.call, decode32, iImm_iType])
  | branch op r1 r2 imm => 
    left
    cases op <;> simp [Rv32.encode, Rv32.call, decode32, decodeBranch, Branch.funct3, bImm_bType]
  | load ms d r1 imm => 
    left
    cases ms <;> simp [Rv32.encode, Rv32.call, decode32, decodeLoad, Memstyles.funct3, iImm_iType]
  | store width r2 r1 imm =>
    left
    cases width <;> simp [Rv32.encode, Rv32.call, decode32, decodeStore, Width.funct3, Width.style,
      sImm_sType]
  | opImm op d r1 imm =>
    left
    cases op <;> simp [Rv32.encode, Rv32.call, decode32, decodeOpimm, Immop.funct3, Immop.fn,
      iImm_iType]
  | shift op d r1 shamt =>
    left
    cases op <;> simp [Rv32.encode, Rv32.call, decode32, decodeOpimm, Shiftop.funct3,
      Shiftop.funct7, Shiftop.fn, shImm_rType]
  | alu op d r1 r2 =>
    left
    cases op <;> simp [Rv32.encode, Rv32.call, decode32, decodeOp, arithOp, muldivOp,
      Alu.funct3, Alu.funct7]
  | fence d r1 imm => exact .inl (by simp [Rv32.encode, Rv32.call, decode32, decodeMiscmem])
  | fenceI d r1 imm => exact .inl (by simp [Rv32.encode, Rv32.call, decode32, decodeMiscmem])
  | ecall => exact .inl (by decide)
  | ebreak => exact .inl (by decide)
  | csr op d src num => exact .inr ⟨op, d, src, num, rfl⟩
  | lr aqrl d r1 => exact .inl (by simp [Rv32.encode, Rv32.call, decode32, decodeAmo, funct5_append])
  | sc aqrl d r1 r2 => exact .inl (by simp [Rv32.encode, Rv32.call, decode32, decodeAmo, funct5_append])
  | amo op aqrl d r1 r2 =>
    left
    cases op <;> simp [Rv32.encode, Rv32.call, decode32, decodeAmo, Amo.funct5, funct5_append]
  | sret => exact .inl (by decide)
  | wfi => exact .inl (by decide)
  | sfenceVma r1 r2 => exact .inl (by simp [Rv32.encode, Rv32.call, decode32, decodeSystem])

/-! ## Words that are refused -/

theorem decodeLoad_cases : decodeLoad insn = .ill insn ∨ ∃ ms : Memstyles, funct3 insn = ms.funct3 := by
  unfold decodeLoad
  split
  next h => exact .inr ⟨.sbyte, BitVec.eq_of_toNat_eq h⟩
  next h => exact .inr ⟨.shalf, BitVec.eq_of_toNat_eq h⟩
  next h => exact .inr ⟨.word, BitVec.eq_of_toNat_eq h⟩
  next h => exact .inr ⟨.ubyte, BitVec.eq_of_toNat_eq h⟩
  next h => exact .inr ⟨.uhalf, BitVec.eq_of_toNat_eq h⟩
  · exact .inl rfl

theorem decodeStore_cases :
    decodeStore insn = .ill insn ∨ ∃ width : Width, funct3 insn = width.funct3 := by
  unfold decodeStore
  split
  next h => exact .inr ⟨.byte, BitVec.eq_of_toNat_eq h⟩
  next h => exact .inr ⟨.half, BitVec.eq_of_toNat_eq h⟩
  next h => exact .inr ⟨.word, BitVec.eq_of_toNat_eq h⟩
  · exact .inl rfl

theorem decodeBranch_cases :
    decodeBranch insn = .ill insn ∨ ∃ op : Branch, funct3 insn = op.funct3 := by
  unfold decodeBranch
  split
  next h => exact .inr ⟨.beq, BitVec.eq_of_toNat_eq h⟩
  next h => exact .inr ⟨.bne, BitVec.eq_of_toNat_eq h⟩
  next h => exact .inr ⟨.blt, BitVec.eq_of_toNat_eq h⟩
  next h => exact .inr ⟨.bge, BitVec.eq_of_toNat_eq h⟩
  next h => exact .inr ⟨.bltu, BitVec.eq_of_toNat_eq h⟩
  next h => exact .inr ⟨.bgeu, BitVec.eq_of_toNat_eq h⟩
  · exact .inl rfl

theorem decodeOpimm_cases :
    decodeOpimm insn = .ill insn ∨ (∃ op : Immop, funct3 insn = op.funct3) ∨
      ∃ op : Shiftop, funct3 insn = op.funct3 ∧ funct7 insn = op.funct7 := by
  unfold decodeOpimm
  split
  next h => exact .inr (.inl ⟨.addi, BitVec.eq_of_toNat_eq h⟩)
  next h =>
    split
    next h' => exact .inr (.inr ⟨.slli, BitVec.eq_of_toNat_eq h, BitVec.eq_of_toNat_eq h'⟩)
    · exact .inl rfl
  next h => exact .inr (.inl ⟨.slti, BitVec.eq_of_toNat_eq h⟩)
  next h => exact .inr (.inl ⟨.sltiu, BitVec.eq_of_toNat_eq h⟩)
  next h => exact .inr (.inl ⟨.xori, BitVec.eq_of_toNat_eq h⟩)
  next h =>
    split
    next h' => exact .inr (.inr ⟨.srli, BitVec.eq_of_toNat_eq h, BitVec.eq_of_toNat_eq h'⟩)
    next h' => exact .inr (.inr ⟨.srai, BitVec.eq_of_toNat_eq h, BitVec.eq_of_toNat_eq h'⟩)
    · exact .inl rfl
  next h => exact .inr (.inl ⟨.ori, BitVec.eq_of_toNat_eq h⟩)
  next =>
    have hLast : (funct3 insn).toNat = 7 := by
      have hLt := (funct3 insn).isLt
      simp only [imp_false] at *
      omega
    exact .inr (.inl ⟨.andi, BitVec.eq_of_toNat_eq hLast⟩)

theorem decodeOp_cases :
    decodeOp insn = .ill insn ∨
      ∃ op : Alu, funct3 insn = op.funct3 ∧ funct7 insn = op.funct7 := by
  have hEach : ∀ (f : BitVec 3 → Alu), (∀ f3, (f f3).funct3 = f3) → ∀ f7, (∀ f3, (f f3).funct7 = f7) →
      funct7 insn = f7 → ∃ op : Alu, funct3 insn = op.funct3 ∧ funct7 insn = op.funct7 := by
    intro f hFunct3 f7 hFunct7 h
    exact ⟨f (funct3 insn), (hFunct3 _).symm, h.trans (hFunct7 _).symm⟩
  unfold decodeOp
  split
  next h => exact .inr (hEach arithOp (by decide) 0 (by decide) (BitVec.eq_of_toNat_eq h))
  next h => exact .inr (hEach muldivOp (by decide) 1 (by decide) (BitVec.eq_of_toNat_eq h))
  next h =>
    split
    next h' => exact .inr ⟨.sub, BitVec.eq_of_toNat_eq h', BitVec.eq_of_toNat_eq h⟩
    next h' => exact .inr ⟨.sra, BitVec.eq_of_toNat_eq h', BitVec.eq_of_toNat_eq h⟩
    · exact .inl rfl
  · exact .inl rfl

theorem decodeAmo_cases :
    decodeAmo insn = .ill insn ∨ funct3 insn = 2 ∧
      ((funct7 insn).extractLsb' 2 5 = 2 ∨ (funct7 insn).extractLsb' 2 5 = 3 ∨
        ∃ op : Amo, (funct7 insn).extractLsb' 2 5 = op.funct5) := by
  have hTop : ∀ n, (funct7 insn >>> 2).toNat = n → ((funct7 insn).extractLsb' 2 5).toNat = n := by
    intro n h
    have hLt := (funct7 insn).isLt
    rw [BitVec.toNat_ushiftRight, Nat.shiftRight_eq_div_pow] at h
    rw [BitVec.extractLsb'_toNat, Nat.shiftRight_eq_div_pow]
    omega
  unfold decodeAmo
  split
  · exact .inl rfl
  next h3 =>
    have hWord : funct3 insn = 2 := BitVec.eq_of_toNat_eq (not_not.mp h3)
    have hOp : ∀ op : Amo, (funct7 insn >>> 2).toNat = op.funct5.toNat → funct3 insn = 2 ∧
        ((funct7 insn).extractLsb' 2 5 = 2 ∨ (funct7 insn).extractLsb' 2 5 = 3 ∨
          ∃ op : Amo, (funct7 insn).extractLsb' 2 5 = op.funct5) :=
      fun op h => ⟨hWord, .inr (.inr ⟨op, BitVec.eq_of_toNat_eq (hTop _ h)⟩)⟩
    split
    next h => exact .inr (hOp .amoadd h)
    next h => exact .inr (hOp .amoswap h)
    next h => exact .inr ⟨hWord, .inl (BitVec.eq_of_toNat_eq (hTop _ h))⟩
    next h => exact .inr ⟨hWord, .inr (.inl (BitVec.eq_of_toNat_eq (hTop _ h)))⟩
    next h => exact .inr (hOp .amoxor h)
    next h => exact .inr (hOp .amoand h)
    next h => exact .inr (hOp .amoor h)
    next h => exact .inr (hOp .amomin h)
    next h => exact .inr (hOp .amomax h)
    next h => exact .inr (hOp .amominu h)
    next h => exact .inr (hOp .amomaxu h)
    · exact .inl rfl

/-- What `insn32` does with a word of the system opcode that it takes for no access to a register. -/
theorem decodeSystem_cases :
    decodeSystem insn = .ill insn ∨ (∃ op : Csrop, funct3 insn = op.funct3) ∨
      funct3 insn = 0 ∧
        (funct7 insn = 0 ∧ (rs2 insn = 0 ∨ rs2 insn = 1) ∨
          funct7 insn = 8 ∧ (rs2 insn = 2 ∧ decodeSystem insn = .sret insn ∨
            rs2 insn = 5 ∧ decodeSystem insn = .wfi insn) ∨
          funct7 insn = 9 ∧ decodeSystem insn = .sfenceVma insn) := by
  unfold decodeSystem
  split
  next h =>
    have hPriv : funct3 insn = 0 := BitVec.eq_of_toNat_eq h
    split
    next h7 h2 =>
      exact .inr (.inr ⟨hPriv, .inl ⟨BitVec.eq_of_toNat_eq h7, .inl (BitVec.eq_of_toNat_eq h2)⟩⟩)
    next h7 h2 =>
      exact .inr (.inr ⟨hPriv, .inl ⟨BitVec.eq_of_toNat_eq h7, .inr (BitVec.eq_of_toNat_eq h2)⟩⟩)
    next h7 h2 =>
      exact .inr (.inr ⟨hPriv, .inr (.inl ⟨BitVec.eq_of_toNat_eq h7,
        .inl ⟨BitVec.eq_of_toNat_eq h2, rfl⟩⟩)⟩)
    next h7 h2 =>
      exact .inr (.inr ⟨hPriv, .inr (.inl ⟨BitVec.eq_of_toNat_eq h7,
        .inr ⟨BitVec.eq_of_toNat_eq h2, rfl⟩⟩)⟩)
    next h7 => exact .inr (.inr ⟨hPriv, .inr (.inr ⟨BitVec.eq_of_toNat_eq h7, rfl⟩)⟩)
    · exact .inl rfl
  next h => exact .inr (.inl ⟨.csrrw, BitVec.eq_of_toNat_eq h⟩)
  next h => exact .inr (.inl ⟨.csrrs, BitVec.eq_of_toNat_eq h⟩)
  next h => exact .inr (.inl ⟨.csrrc, BitVec.eq_of_toNat_eq h⟩)
  next h => exact .inr (.inl ⟨.csrrwi, BitVec.eq_of_toNat_eq h⟩)
  next h => exact .inr (.inl ⟨.csrrsi, BitVec.eq_of_toNat_eq h⟩)
  next h => exact .inr (.inl ⟨.csrrci, BitVec.eq_of_toNat_eq h⟩)
  · exact .inl rfl

/-- A word stands for an instruction. -/
def Encodes : Prop := ∃ instr : Rv32, instr.encode = insn

/-- The opcodes that the dispatch has no case for. -/
def unassigned : List (BitVec 5) := [2, 7, 10, 15, 21, 22, 23, 26, 29, 30, 31]

/-- The words of no instruction that are taken for one: the dispatch does not look at a field that is
to be zero. -/
def Lax (super : Bool) : Prop :=
  op32 insn = 11 ∧ funct3 insn = 2 ∧ (funct7 insn).extractLsb' 2 5 = 2 ∧ rs2 insn ≠ 0 ∨
    op32 insn = 28 ∧ funct3 insn = 0 ∧
      (funct7 insn = 0 ∧ (rs2 insn = 0 ∨ rs2 insn = 1) ∧ (rd insn ≠ 0 ∨ rs1 insn ≠ 0) ∨
        super = true ∧ funct7 insn = 8 ∧ (rs2 insn = 2 ∨ rs2 insn = 5) ∧
          (rd insn ≠ 0 ∨ rs1 insn ≠ 0) ∨
        super = true ∧ funct7 insn = 9 ∧ rd insn ≠ 0)

/-- The two parts of the field of an atomic operation. -/
theorem append_funct5 (f7 : BitVec 7) : f7.extractLsb' 2 5 ++ f7.extractLsb' 0 2 = f7 := by
  apply BitVec.eq_of_getLsbD_eq
  intro j hj
  simp only [BitVec.getLsbD_append, BitVec.getLsbD_extractLsb']
  interval_cases j <;> simp

section Encodes

variable {insn : Word} (hLow : insn &&& 0x3 = 0x3)

include hLow

theorem encodes_of_rType (instr : Rv32)
    (h : instr.encode =
      rType (rd insn) (rs1 insn) (rs2 insn) (funct3 insn) (op32 insn) (funct7 insn)) :
    Encodes insn := ⟨instr, h.trans (rType_fields insn hLow)⟩

/-- The word of an instruction whose immediate may be any. -/
theorem encodes_of_iType (f3 : BitVec 3) (op : BitVec 5) (instr : BitVec 12 → Rv32)
    (hFn : funct3 insn = f3) (hOp : op32 insn = op)
    (hInstr : ∀ imm, (instr imm).encode = iType (rd insn) (rs1 insn) f3 op imm) : Encodes insn := by
  apply encodes_of_rType hLow (instr (funct7 insn ++ rs2 insn))
  rw [hInstr, iType_append, hFn, hOp]

theorem encodes_amo (hOp : op32 insn = 11) (hWord : funct3 insn = 2)
    (hLr : (funct7 insn).extractLsb' 2 5 = 2 → rs2 insn = 0)
    (hAmo : (funct7 insn).extractLsb' 2 5 = 2 ∨ (funct7 insn).extractLsb' 2 5 = 3 ∨
      ∃ op : Amo, (funct7 insn).extractLsb' 2 5 = op.funct5) : Encodes insn := by
  have hInstr : ∀ (f5 : BitVec 5) (instr : BitVec 2 → Rv32), (funct7 insn).extractLsb' 2 5 = f5 →
      (∀ aqrl, (instr aqrl).encode =
        rType (rd insn) (rs1 insn) (rs2 insn) 2 11 (f5 ++ aqrl)) → Encodes insn := by
    rintro f5 instr rfl hInstr
    apply encodes_of_rType hLow (instr ((funct7 insn).extractLsb' 0 2))
    rw [hInstr, append_funct5, hOp, hWord]
  rcases hAmo with h | h | ⟨op, h⟩
  · exact hInstr 2 (.lr · (rd insn) (rs1 insn)) h fun _ => by
      rw [Rv32.encode, hLr h]
      rfl
  · exact hInstr 3 (.sc · (rd insn) (rs1 insn) (rs2 insn)) h fun _ => rfl
  · exact hInstr op.funct5 (.amo op · (rd insn) (rs1 insn) (rs2 insn)) h fun _ => rfl

theorem decodeSystem_encodes {super : Bool} (hOp : op32 insn = 28) (hLax : ¬Lax insn super) :
    decodeSystem insn = .ill insn ∨ Encodes insn ∨
      super = false ∧ (decodeSystem insn = .sret insn ∨ decodeSystem insn = .wfi insn ∨
        decodeSystem insn = .sfenceVma insn) := by
  have hPriv : ∀ f7 r2 (instr : Rv32), funct3 insn = 0 → funct7 insn = f7 → rs2 insn = r2 →
      rd insn = 0 → rs1 insn = 0 → instr.encode = rType 0 0 r2 0 28 f7 → Encodes insn := by
    intro f7 r2 instr h3 h7 h2 hd h1 hInstr
    apply encodes_of_rType hLow instr
    rw [hInstr, h3, h7, h2, hd, h1, hOp]
  rcases decodeSystem_cases insn with hIll | ⟨op, hFn⟩ | ⟨h3, ⟨h7, h2⟩ | ⟨h7, h2⟩ | ⟨h7, hCall⟩⟩
  · exact .inl hIll
  · exact .inr (.inl (encodes_of_iType hLow _ 28 (.csr op _ _) hFn hOp fun _ => rfl))
  · have hZero : rd insn = 0 ∧ rs1 insn = 0 := by
      by_contra hNot
      exact hLax (.inr ⟨hOp, h3, .inl ⟨h7, h2, not_and_or.mp hNot⟩⟩)
    rcases h2 with h2 | h2
    · exact .inr (.inl (hPriv 0 0 .ecall h3 h7 h2 hZero.1 hZero.2 rfl))
    · exact .inr (.inl (hPriv 0 1 .ebreak h3 h7 h2 hZero.1 hZero.2 rfl))
  · cases super with
    | false =>
      refine .inr (.inr ⟨rfl, ?_⟩)
      rcases h2 with ⟨-, hCall⟩ | ⟨-, hCall⟩
      · exact .inl hCall
      · exact .inr (.inl hCall)
    | true =>
      have hZero : rd insn = 0 ∧ rs1 insn = 0 := by
        by_contra hNot
        refine hLax (.inr ⟨hOp, h3, .inr (.inl ⟨rfl, h7, ?_, not_and_or.mp hNot⟩)⟩)
        rcases h2 with ⟨h2, -⟩ | ⟨h2, -⟩
        · exact .inl h2
        · exact .inr h2
      rcases h2 with ⟨h2, -⟩ | ⟨h2, -⟩
      · exact .inr (.inl (hPriv 8 2 .sret h3 h7 h2 hZero.1 hZero.2 rfl))
      · exact .inr (.inl (hPriv 8 5 .wfi h3 h7 h2 hZero.1 hZero.2 rfl))
  · cases super with
    | false => exact .inr (.inr ⟨rfl, .inr (.inr hCall)⟩)
    | true =>
      have hZero : rd insn = 0 := by
        by_contra hNot
        exact hLax (.inr ⟨hOp, h3, .inr (.inr ⟨rfl, h7, hNot⟩)⟩)
      refine .inr (.inl (encodes_of_rType hLow (.sfenceVma (rs1 insn) (rs2 insn)) ?_))
      rw [Rv32.encode, h3, h7, hZero, hOp]

/-- A word that the dispatch does not mistake is refused, or is that of an instruction, or is one
that only the supervisor may use. -/
theorem decode32_cases {super : Bool} (hOp : op32 insn ∉ unassigned) (hLax : ¬Lax insn super) :
    decode32 insn = .ill insn ∨ Encodes insn ∨
      super = false ∧ (decode32 insn = .sret insn ∨ decode32 insn = .wfi insn ∨
        decode32 insn = .sfenceVma insn) := by
  have hCode : ∀ k : BitVec 5, (op32 insn).toNat = k.toNat → op32 insn = k :=
    fun _ h => BitVec.eq_of_toNat_eq h
  unfold decode32
  split
  next h =>
    rcases decodeLoad_cases insn with hIll | ⟨ms, hFn⟩
    · exact .inl hIll
    · exact .inr (.inl (encodes_of_iType hLow _ 0 (.load ms _ _) hFn (hCode 0 h) fun _ => rfl))
  next h =>
    unfold decodeMiscmem
    split
    next h3 =>
      exact .inr (.inl (encodes_of_iType hLow 0 3 (.fence _ _) (BitVec.eq_of_toNat_eq h3)
        (hCode 3 h) fun _ => rfl))
    next h3 =>
      exact .inr (.inl (encodes_of_iType hLow 1 3 (.fenceI _ _) (BitVec.eq_of_toNat_eq h3)
        (hCode 3 h) fun _ => rfl))
    · exact .inl rfl
  next h =>
    rcases decodeOpimm_cases insn with hIll | ⟨op, hFn⟩ | ⟨op, hFn, hFn7⟩
    · exact .inl hIll
    · exact .inr (.inl (encodes_of_iType hLow _ 4 (.opImm op _ _) hFn (hCode 4 h) fun _ => rfl))
    · refine .inr (.inl (encodes_of_rType hLow (.shift op (rd insn) (rs1 insn) (rs2 insn)) ?_))
      rw [Rv32.encode, hFn, hFn7, hCode 4 h]
  next h =>
    refine .inr (.inl (encodes_of_rType hLow
      (.auipc (rd insn) (funct7 insn ++ rs2 insn ++ rs1 insn ++ funct3 insn)) ?_))
    rw [Rv32.encode, uType_append, hCode 5 h]
  next h =>
    rcases decodeStore_cases insn with hIll | ⟨width, hFn⟩
    · exact .inl hIll
    · refine .inr (.inl (encodes_of_rType hLow
        (.store width (rs2 insn) (rs1 insn) (funct7 insn ++ rd insn)) ?_))
      rw [Rv32.encode, sType_append, hFn, hCode 8 h]
  next h =>
    rcases decodeAmo_cases insn with hIll | ⟨hWord, hAmo⟩
    · exact .inl hIll
    · refine .inr (.inl (encodes_amo hLow (hCode 11 h) hWord ?_ hAmo))
      intro hLr
      by_contra hNot
      exact hLax (.inl ⟨hCode 11 h, hWord, hLr, hNot⟩)
  next h =>
    rcases decodeOp_cases insn with hIll | ⟨op, hFn, hFn7⟩
    · exact .inl hIll
    · refine .inr (.inl (encodes_of_rType hLow (.alu op (rd insn) (rs1 insn) (rs2 insn)) ?_))
      rw [Rv32.encode, hFn, hFn7, hCode 12 h]
  next h =>
    refine .inr (.inl (encodes_of_rType hLow
      (.lui (rd insn) (funct7 insn ++ rs2 insn ++ rs1 insn ++ funct3 insn)) ?_))
    rw [Rv32.encode, uType_append, hCode 13 h]
  iterate 9 exact .inl rfl
  next h =>
    rcases decodeBranch_cases insn with hIll | ⟨op, hFn⟩
    · exact .inl hIll
    · refine .inr (.inl (encodes_of_rType hLow
        (.branch op (rs1 insn) (rs2 insn) (branchImm (rd insn) (funct7 insn))) ?_))
      rw [Rv32.encode, bType_branchImm, hFn, hCode 24 h]
  next h =>
    split
    next h3 =>
      exact .inr (.inl (encodes_of_iType hLow 0 25 (.jalr _ _) (BitVec.eq_of_toNat_eq h3)
        (hCode 25 h) fun _ => rfl))
    · exact .inl rfl
  next h =>
    refine .inr (.inl (encodes_of_rType hLow
      (.jal (rd insn) (jumpImm (rs1 insn) (rs2 insn) (funct3 insn) (funct7 insn))) ?_))
    rw [Rv32.encode, jType_jumpImm, hCode 27 h]
  next h => exact decodeSystem_encodes hLow (hCode 28 h) hLax
  next =>
    refine absurd ?_ hOp
    have hLt := (op32 insn).isLt
    have hOf : op32 insn = BitVec.ofNat 5 (op32 insn).toNat := by simp
    rw [hOf]
    simp only [imp_false] at *
    generalize (op32 insn).toNat = k at *
    interval_cases k <;> first | contradiction | decide

end Encodes


theorem op32_encode (instr : Rv32) : op32 instr.encode ∉ unassigned := by
  cases instr <;> simp [Rv32.encode, unassigned]

theorem not_lax_encode (instr : Rv32) (super : Bool) : ¬Lax instr.encode super := by
  cases instr with
  | sc aqrl d r1 r2 =>
    have hTop : (3#5 ++ aqrl).extractLsb' 2 5 = 3#5 := BitVec.extractLsb'_append_eq_left
    simp [Lax, Rv32.encode, hTop]
  | amo op aqrl d r1 r2 =>
    have hTop : (op.funct5 ++ aqrl).extractLsb' 2 5 = op.funct5 := BitVec.extractLsb'_append_eq_left
    have hNot : op.funct5 ≠ 2 := by cases op <;> decide
    simp only [Lax, Rv32.encode, op32_rType, funct3_rType, funct7_rType, hTop, hNot]
    simp
  | csr op d src num => cases op <;> simp [Lax, Rv32.encode, Csrop.funct3]
  | _ => simp [Lax, Rv32.encode]

end Sys161.Riscv
