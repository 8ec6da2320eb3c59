import Sys161.Riscv.Insns

/-!
# Decoding

The opcode dispatch of `insn32` and `insn16`. What they have in common is that
each instruction comes to one call of an `rx_do_` function; such a call is an
`Insn`, and the two dispatches say which one a word stands for.
-/

namespace Sys161.Riscv

open Mips (Board)

set_option autoImplicit false

variable {δ : Type} (b : Board δ) (i : Nat)

/-- The calls that the dispatch makes. -/
inductive Insn where
  | alui (op : Alui) (rd rs1 : Reg) (imm : Word)
  | lui (rd : Reg) (imm : Word)
  | auipc (rd : Reg) (imm : Word)
  | alu (op : Alu) (rd rs1 rs2 : Reg)
  | load (ms : Memstyles) (rd rs1 : Reg) (imm : Word)
  | store (ms : Memstyles) (rs2 rs1 : Reg) (imm : Word)
  | jal (rd : Reg) (imm : Word)
  | jalr (rd rs1 : Reg) (imm : Word)
  | branch (op : Branch) (rs1 rs2 : Reg) (imm : Word)
  | lr (rd rs1 : Reg)
  | sc (rd rs1 rs2 : Reg)
  | amo (op : Amo) (rd rs1 rs2 : Reg)
  | csr (op : Csrop) (rd rs1 : Reg) (num insn : Word)
  | ecall
  | ebreak
  | sret (insn : Word)
  | wfi (insn : Word)
  | sfenceVma (insn : Word)
  /-- A fence, a hint, or a word that the dispatch has no case for: nothing is called. -/
  | nothing
  | ill (insn : Word)
  deriving DecidableEq

/-- The call, in an instruction of a number of bytes; the answer is whether the debugger has taken a
breakpoint. -/
def Insn.exec (len : Word) : Insn → M δ Bool
  | alui op rd rs1 imm => do modCpu i fun c => c.setX rd (op.eval (c.x rs1) imm); return false
  | lui rd imm => do setX i rd imm; return false
  | auipc rd imm => do modCpu i fun c => c.setX rd (c.pc + imm); return false
  | alu op rd rs1 rs2 => do
    modCpu i fun c => c.setX rd (op.eval (c.x rs1) (c.x rs2))
    return false
  | load ms rd rs1 imm => do rxDoLoad b i ms rd rs1 imm; return false
  | store ms rs2 rs1 imm => do rxDoStore b i ms rs2 rs1 imm; return false
  | jal rd imm => do rxDoJal b i rd imm ((← getCpu i).pc + len); return false
  | jalr rd rs1 imm => do rxDoJalr b i rd rs1 imm ((← getCpu i).pc + len); return false
  | branch op rs1 rs2 imm => do rxDoBranch b i op rs1 rs2 imm; return false
  | lr rd rs1 => do rxDoLr b i rd rs1; return false
  | sc rd rs1 rs2 => do rxDoSc b i rd rs1 rs2; return false
  | amo op rd rs1 rs2 => do rxDoAmo b i op rd rs1 rs2; return false
  | csr op rd rs1 num insn => do rxCsr i op rd rs1 num insn; return false
  | ecall => do rxDoEcall; return false
  | ebreak => do
    if ← tryBreakpoint i then
      return true
    else
      rxDoEbreak
      return false
  | sret insn => do ifSuper i insn (rxDoSret b i); return false
  | wfi insn => do ifSuper i insn (rxDoWfi i); return false
  | sfenceVma insn => do ifSuper i insn (rxDoSfenceVma b i); return false
  | nothing => return false
  | ill insn => do rxIll insn; return false

/-! ## 32-bit instructions -/

section Fields

variable (insn : Word)

def rs1 : Reg := insn.extractLsb' 15 5

def rs2 : Reg := insn.extractLsb' 20 5

def rd : Reg := insn.extractLsb' 7 5

def op32 : BitVec 5 := insn.extractLsb' 2 5

def funct3 : BitVec 3 := insn.extractLsb' 12 3

def funct7 : BitVec 7 := insn.extractLsb' 25 7

/-- `SIGNEXT` -/
def signext (k : Nat) : Word := if insn &&& 0x80000000 ≠ 0 then 0xffffffff <<< k else 0

def iImm : Word := signext insn 12 ||| (insn >>> 20)

def sImm : Word :=
  signext insn 12 ||| ((insn &&& 0xfe000000) >>> 20) ||| ((insn &&& 0x00000f80) >>> 7)

def bImm : Word :=
  signext insn 12 ||| ((insn &&& 0x7e000000) >>> 20) ||| ((insn &&& 0x00000f00) >>> 7) |||
    ((insn &&& 0x00000080) <<< 4)

def uImm : Word := insn &&& 0xfffff000

def jImm : Word :=
  signext insn 19 ||| (insn &&& 0x000ff000) ||| ((insn &&& 0x00100000) >>> 9) |||
    ((insn &&& 0x7fe00000) >>> 20)

def shImm : Word := iImm insn &&& 31

def decodeLoad : Insn :=
  match (funct3 insn).toNat with
  | 0 => .load .sbyte (rd insn) (rs1 insn) (iImm insn)
  | 1 => .load .shalf (rd insn) (rs1 insn) (iImm insn)
  | 2 => .load .word (rd insn) (rs1 insn) (iImm insn)
  | 4 => .load .ubyte (rd insn) (rs1 insn) (iImm insn)
  | 5 => .load .uhalf (rd insn) (rs1 insn) (iImm insn)
  | _ => .ill insn

/-- The fences do nothing. -/
def decodeMiscmem : Insn :=
  match (funct3 insn).toNat with
  | 0 => .nothing
  | 1 => .nothing
  | _ => .ill insn

def decodeOpimm : Insn :=
  match (funct3 insn).toNat with
  | 0 => .alui .addi (rd insn) (rs1 insn) (iImm insn)
  | 1 =>
    match (funct7 insn).toNat with
    | 0 => .alui .slli (rd insn) (rs1 insn) (shImm insn)
    | _ => .ill insn
  | 2 => .alui .slti (rd insn) (rs1 insn) (iImm insn)
  | 3 => .alui .sltiu (rd insn) (rs1 insn) (iImm insn)
  | 4 => .alui .xori (rd insn) (rs1 insn) (iImm insn)
  | 5 =>
    match (funct7 insn).toNat with
    | 0 => .alui .srli (rd insn) (rs1 insn) (shImm insn)
    | 32 => .alui .srai (rd insn) (rs1 insn) (shImm insn)
    | _ => .ill insn
  | 6 => .alui .ori (rd insn) (rs1 insn) (iImm insn)
  | _ => .alui .andi (rd insn) (rs1 insn) (iImm insn)

def decodeStore : Insn :=
  match (funct3 insn).toNat with
  | 0 => .store .ubyte (rs2 insn) (rs1 insn) (sImm insn)
  | 1 => .store .uhalf (rs2 insn) (rs1 insn) (sImm insn)
  | 2 => .store .word (rs2 insn) (rs1 insn) (sImm insn)
  | _ => .ill insn

def decodeAmo : Insn :=
  if (funct3 insn).toNat ≠ 2 then .ill insn
  else
    match (funct7 insn >>> 2).toNat with
    | 0 => .amo .amoadd (rd insn) (rs1 insn) (rs2 insn)
    | 1 => .amo .amoswap (rd insn) (rs1 insn) (rs2 insn)
    | 2 => .lr (rd insn) (rs1 insn)
    | 3 => .sc (rd insn) (rs1 insn) (rs2 insn)
    | 4 => .amo .amoxor (rd insn) (rs1 insn) (rs2 insn)
    | 8 => .amo .amoand (rd insn) (rs1 insn) (rs2 insn)
    | 12 => .amo .amoor (rd insn) (rs1 insn) (rs2 insn)
    | 16 => .amo .amomin (rd insn) (rs1 insn) (rs2 insn)
    | 20 => .amo .amomax (rd insn) (rs1 insn) (rs2 insn)
    | 24 => .amo .amominu (rd insn) (rs1 insn) (rs2 insn)
    | 28 => .amo .amomaxu (rd insn) (rs1 insn) (rs2 insn)
    | _ => .ill insn

def arithOp : BitVec 3 → Alu
  | 0 => .add
  | 1 => .sll
  | 2 => .slt
  | 3 => .sltu
  | 4 => .xor
  | 5 => .srl
  | 6 => .or
  | _ => .and

def muldivOp : BitVec 3 → Alu
  | 0 => .mul
  | 1 => .mulh
  | 2 => .mulhsu
  | 3 => .mulhu
  | 4 => .div
  | 5 => .divu
  | 6 => .rem
  | _ => .remu

def decodeOp : Insn :=
  match (funct7 insn).toNat with
  | 0 => .alu (arithOp (funct3 insn)) (rd insn) (rs1 insn) (rs2 insn)
  | 1 => .alu (muldivOp (funct3 insn)) (rd insn) (rs1 insn) (rs2 insn)
  | 32 =>
    match (funct3 insn).toNat with
    | 0 => .alu .sub (rd insn) (rs1 insn) (rs2 insn)
    | 5 => .alu .sra (rd insn) (rs1 insn) (rs2 insn)
    | _ => .ill insn
  | _ => .ill insn

def decodeBranch : Insn :=
  match (funct3 insn).toNat with
  | 0 => .branch .beq (rs1 insn) (rs2 insn) (bImm insn)
  | 1 => .branch .bne (rs1 insn) (rs2 insn) (bImm insn)
  | 4 => .branch .blt (rs1 insn) (rs2 insn) (bImm insn)
  | 5 => .branch .bge (rs1 insn) (rs2 insn) (bImm insn)
  | 6 => .branch .bltu (rs1 insn) (rs2 insn) (bImm insn)
  | 7 => .branch .bgeu (rs1 insn) (rs2 insn) (bImm insn)
  | _ => .ill insn

def decodeSystem : Insn :=
  match (funct3 insn).toNat with
  | 0 =>
    match (funct7 insn).toNat, (rs2 insn).toNat with
    | 0, 0 => .ecall
    | 0, 1 => .ebreak
    | 8, 2 => .sret insn
    | 8, 5 => .wfi insn
    | 9, _ => .sfenceVma insn
    | _, _ => .ill insn
  | 1 => .csr .csrrw (rd insn) (rs1 insn) (iImm insn) insn
  | 2 => .csr .csrrs (rd insn) (rs1 insn) (iImm insn) insn
  | 3 => .csr .csrrc (rd insn) (rs1 insn) (iImm insn) insn
  | 5 => .csr .csrrwi (rd insn) (rs1 insn) (iImm insn) insn
  | 6 => .csr .csrrsi (rd insn) (rs1 insn) (iImm insn) insn
  | 7 => .csr .csrrci (rd insn) (rs1 insn) (iImm insn) insn
  | _ => .ill insn

/-- The dispatch of `insn32`. It has no case for the major opcodes that are not assigned, and none
for those of longer instructions. -/
def decode32 : Insn :=
  match (op32 insn).toNat with
  | 0 => decodeLoad insn
  | 3 => decodeMiscmem insn
  | 4 => decodeOpimm insn
  | 5 => .auipc (rd insn) (uImm insn)
  | 8 => decodeStore insn
  | 11 => decodeAmo insn
  | 12 => decodeOp insn
  | 13 => .lui (rd insn) (uImm insn)
  | 1 | 6 | 9 | 14 | 16 | 17 | 18 | 19 | 20 => .ill insn
  | 24 => decodeBranch insn
  | 25 =>
    match (funct3 insn).toNat with
    | 0 => .jalr (rd insn) (rs1 insn) (iImm insn)
    | _ => .ill insn
  | 27 => .jal (rd insn) (jImm insn)
  | 28 => decodeSystem insn
  | _ => .nothing

end Fields

def insn32 (insn : Word) : M δ Bool := (decode32 insn).exec b i 4

/-! ## 16-bit instructions -/

section Compressed

variable (insn : Word)

/-- Any of the bits of a mask. -/
def bits (mask : Word) : Bool := insn &&& mask ≠ 0

/-- `r1`, out of bits 7 to 9. -/
def r1 : Reg := 0x8 ||| (if insn &&& 0x0380 > 7 then 1 else 0)

/-- `r2`, out of bits 2 to 4. -/
def r2 : Reg := 0x8 ||| (if insn &&& 0x001c > 2 then 1 else 0)

/-- The full register field in bits 7 to 11. -/
def fullRd : Reg := insn.extractLsb' 7 5

/-- The full register field in bits 2 to 6. -/
def fullRs2 : Reg := insn.extractLsb' 2 5

def op16 : BitVec 3 := insn.extractLsb' 13 3

/-- The immediate with the bits above it set where bit 12 of the instruction is. -/
def orSign (high imm : Word) : Word := if bits insn 0x1000 then imm ||| high else imm

def addi4spnImm : Word :=
  ((insn &&& 0x0780) >>> 1) ||| ((insn &&& 0x1800) >>> 7) ||| ((insn &&& 0x0020) >>> 2) |||
    ((insn &&& 0x0040) >>> 4)

def lwImm : Word :=
  ((insn &&& 0x0020) <<< 1) ||| ((insn &&& 0x1c00) >>> 7) ||| ((insn &&& 0x0010) >>> 2)

/-- The six bits of `C.ADDI` before their extension. -/
def sixImm : Word := ((insn &&& 0x007c) >>> 2) ||| ((insn &&& 0x1000) >>> 7)

def addiImm : Word := orSign insn 0xffffffc0 (sixImm insn)

def cjImm : Word :=
  orSign insn 0xfffff000
    (((insn &&& 0x1000) >>> 1) ||| ((insn &&& 0x0100) <<< 2) ||| ((insn &&& 0x0600) >>> 1) |||
      ((insn &&& 0x0040) <<< 1) ||| ((insn &&& 0x0080) >>> 1) ||| ((insn &&& 0x0004) <<< 3) |||
      ((insn &&& 0x0800) >>> 7) ||| ((insn &&& 0x0038) >>> 2))

def addi16spImm : Word :=
  orSign insn 0xfffffe00
    (((insn &&& 0x1000) >>> 3) ||| ((insn &&& 0x0018) <<< 4) ||| ((insn &&& 0x0020) <<< 1) |||
      ((insn &&& 0x0004) <<< 3) ||| ((insn &&& 0x0040) >>> 2))

def cluiImm : Word :=
  orSign insn 0xfffc0000 (((insn &&& 0x007c) <<< 10) ||| ((insn &&& 0x1000) <<< 5))

def cbImm : Word :=
  orSign insn 0xfffffe00
    (((insn &&& 0x1000) >>> 4) ||| ((insn &&& 0x0060) <<< 1) ||| ((insn &&& 0x0004) <<< 3) |||
      ((insn &&& 0x0c00) >>> 7) ||| ((insn &&& 0x0018) >>> 2))

def lwspImm : Word :=
  ((insn &&& 0x1000) >>> 7) ||| ((insn &&& 0x0070) >>> 2) ||| ((insn &&& 0x000c) <<< 4)

def swspImm : Word := ((insn &&& 0x0180) >>> 1) ||| ((insn &&& 0x1e00) >>> 7)

/-- The upper half of the word is not part of the instruction. -/
def ill16 : Insn := .ill (insn &&& 0xffff)

def quadrant0 : Insn :=
  match (op16 insn).toNat with
  | 0 =>
    if addi4spnImm insn = 0 then ill16 insn
    else .alui .addi (r2 insn) 2 (addi4spnImm insn)
  | 2 => .load .word (r2 insn) (r1 insn) (lwImm insn)
  | 6 => .store .word (r2 insn) (r1 insn) (lwImm insn)
  | _ => ill16 insn

/-- `C.ADDI16SP` and `C.LUI`. -/
def quadrant1Lui : Insn :=
  if fullRd insn = 0 then .nothing
  else if fullRd insn = 2 then
    if addi16spImm insn = 0 then ill16 insn else .alui .addi 2 2 (addi16spImm insn)
  else if cluiImm insn = 0 then ill16 insn
  else .lui (fullRd insn) (cluiImm insn)

def quadrant1Arith : Insn :=
  match (insn.extractLsb' 10 2).toNat with
  | 0 =>
    if bits insn 0x1000 then ill16 insn
    else .alui .srli (r1 insn) (r1 insn) (sixImm insn)
  | 1 =>
    if bits insn 0x1000 then ill16 insn
    else .alui .srai (r1 insn) (r1 insn) (sixImm insn)
  | 2 => .alui .andi (r1 insn) (r1 insn) (addiImm insn)
  | _ =>
    if bits insn 0x1000 then ill16 insn
    else
      match (insn.extractLsb' 5 2).toNat with
      | 0 => .alu .sub (r1 insn) (r1 insn) (r2 insn)
      | 1 => .alu .xor (r1 insn) (r1 insn) (r2 insn)
      | 2 => .alu .or (r1 insn) (r1 insn) (r2 insn)
      | _ => .alu .and (r1 insn) (r1 insn) (r2 insn)

def quadrant1 : Insn :=
  match (op16 insn).toNat with
  | 0 => .alui .addi (fullRd insn) (fullRd insn) (addiImm insn)
  | 1 => .jal 1 (cjImm insn)
  | 2 => if fullRd insn = 0 then .nothing else .alui .addi (fullRd insn) 0 (addiImm insn)
  | 3 => quadrant1Lui insn
  | 4 => quadrant1Arith insn
  | 5 => .jal 0 (cjImm insn)
  | _ =>
    if bits insn 0x2000 then .branch .beq (r1 insn) 0 (cbImm insn)
    else .branch .bne (r1 insn) 0 (cbImm insn)

/-- `C.JR`, `C.MV`, `C.EBREAK`, `C.JALR` and `C.ADD`. The return address of `C.JR` is 0 in the
source; it is stored nowhere. -/
def quadrant2Jump : Insn :=
  if bits insn 0x1000 then
    if fullRd insn = 0 ∧ fullRs2 insn = 0 then .ebreak
    else if fullRs2 insn = 0 then .jalr 1 (fullRd insn) 0
    else .alu .add (fullRd insn) (fullRd insn) (fullRs2 insn)
  else if fullRs2 insn = 0 ∧ fullRd insn = 0 then ill16 insn
  else if fullRs2 insn = 0 then .jalr 0 (fullRd insn) 0
  else .alu .add (fullRd insn) 0 (fullRs2 insn)

def quadrant2 : Insn :=
  match (op16 insn).toNat with
  | 0 =>
    -- the shift amount is taken for the number of a register
    if bits insn 0x1000 then ill16 insn
    else .alu .sll (fullRd insn) (fullRd insn) (fullRs2 insn)
  | 2 =>
    if fullRd insn = 0 then ill16 insn else .load .word (fullRd insn) 2 (lwspImm insn)
  | 4 => quadrant2Jump insn
  | 6 => .store .word (fullRs2 insn) 2 (swspImm insn)
  | _ => ill16 insn

/-- The dispatch of `insn16`, or none where it fails an assertion. -/
def decode16 : Option Insn :=
  match (insn.extractLsb' 0 2).toNat with
  | 0 => some (quadrant0 insn)
  | 1 => some (quadrant1 insn)
  | 2 => some (quadrant2 insn)
  | _ => none

end Compressed

def insn16 (insn : Word) : M δ Bool :=
  match decode16 insn with
  | some insn => insn.exec b i 2
  | none => throw (.smoke "Assertion failed")

end Sys161.Riscv
