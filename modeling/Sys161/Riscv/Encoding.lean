import Sys161.Riscv.Decode

/-!
# The instruction set

The instructions of RV32IMA with Zicsr, Zifencei and the privileged ones, as the
architecture encodes them. Nothing here is taken from the decoder: an
instruction has its operands, a word, and the call of the core that carries it
out, with the immediate extended from its own width.
-/

namespace Sys161.Riscv

set_option autoImplicit false

/-! ## Formats -/

section Formats

variable (rd rs1 rs2 : Reg) (f3 : BitVec 3) (op : BitVec 5)

/-- The fields of a word, from the top; the size bits are at its end. -/
def rType (f7 : BitVec 7) : Word := f7 ++ rs2 ++ rs1 ++ f3 ++ rd ++ op ++ 3#2

/-- The immediate stands in the fields of `funct7` and `rs2`. -/
abbrev iType (imm : BitVec 12) : Word :=
  rType rd rs1 (imm.extractLsb' 0 5) f3 op (imm.extractLsb' 5 7)

abbrev sType (imm : BitVec 12) : Word :=
  rType (imm.extractLsb' 0 5) rs1 rs2 f3 op (imm.extractLsb' 5 7)

/-- `imm` is the offset in units of two bytes, here and in `jType`. -/
abbrev bType (imm : BitVec 12) : Word :=
  rType (imm.extractLsb' 0 4 ++ imm.extractLsb' 10 1) rs1 rs2 f3 op
    (imm.extractLsb' 11 1 ++ imm.extractLsb' 4 6)

abbrev uType (imm : BitVec 20) : Word :=
  rType rd (imm.extractLsb' 3 5) (imm.extractLsb' 8 5) (imm.extractLsb' 0 3) op
    (imm.extractLsb' 13 7)

abbrev jType (imm : BitVec 20) : Word :=
  rType rd (imm.extractLsb' 14 5) (imm.extractLsb' 0 4 ++ imm.extractLsb' 10 1)
    (imm.extractLsb' 11 3) op (imm.extractLsb' 19 1 ++ imm.extractLsb' 4 6)

end Formats

/-! ## Function codes -/

def Branch.funct3 : Branch → BitVec 3
  | beq => 0
  | bne => 1
  | blt => 4
  | bge => 5
  | bltu => 6
  | bgeu => 7

/-- The code of a load. -/
def Memstyles.funct3 : Memstyles → BitVec 3
  | sbyte => 0
  | shalf => 1
  | word => 2
  | ubyte => 4
  | uhalf => 5

/-- How much a store writes. -/
inductive Width where
  | byte
  | half
  | word

namespace Width

def funct3 : Width → BitVec 3
  | byte => 0
  | half => 1
  | word => 2

def style : Width → Memstyles
  | byte => .ubyte
  | half => .uhalf
  | word => .word

end Width

/-- The operations with an immediate of twelve bits. -/
inductive Immop where
  | addi
  | slti
  | sltiu
  | xori
  | ori
  | andi

namespace Immop

def funct3 : Immop → BitVec 3
  | addi => 0
  | slti => 2
  | sltiu => 3
  | xori => 4
  | ori => 6
  | andi => 7

def fn : Immop → Alui
  | addi => .addi
  | slti => .slti
  | sltiu => .sltiu
  | xori => .xori
  | ori => .ori
  | andi => .andi

end Immop

/-- The shifts by a constant. -/
inductive Shiftop where
  | slli
  | srli
  | srai

namespace Shiftop

def funct3 : Shiftop → BitVec 3
  | slli => 1
  | srli => 5
  | srai => 5

def funct7 : Shiftop → BitVec 7
  | slli => 0
  | srli => 0
  | srai => 32

def fn : Shiftop → Alui
  | slli => .slli
  | srli => .srli
  | srai => .srai

end Shiftop

namespace Alu

def funct3 : Alu → BitVec 3
  | add | sub | mul => 0
  | sll | mulh => 1
  | slt | mulhsu => 2
  | sltu | mulhu => 3
  | xor | div => 4
  | srl | sra | divu => 5
  | or | rem => 6
  | and | remu => 7

def funct7 : Alu → BitVec 7
  | add | sll | slt | sltu | xor | srl | or | and => 0
  | mul | mulh | mulhsu | mulhu | div | divu | rem | remu => 1
  | sub | sra => 32

end Alu

def Amo.funct5 : Amo → BitVec 5
  | amoadd => 0
  | amoswap => 1
  | amoxor => 4
  | amoand => 8
  | amoor => 12
  | amomin => 16
  | amomax => 20
  | amominu => 24
  | amomaxu => 28

def Csrop.funct3 : Csrop → BitVec 3
  | csrrw => 1
  | csrrs => 2
  | csrrc => 3
  | csrrwi => 5
  | csrrsi => 6
  | csrrci => 7

/-! ## Instructions -/

inductive Rv32 where
  | lui (rd : Reg) (imm : BitVec 20)
  | auipc (rd : Reg) (imm : BitVec 20)
  | jal (rd : Reg) (imm : BitVec 20)
  | jalr (rd rs1 : Reg) (imm : BitVec 12)
  | branch (op : Branch) (rs1 rs2 : Reg) (imm : BitVec 12)
  | load (ms : Memstyles) (rd rs1 : Reg) (imm : BitVec 12)
  | store (width : Width) (rs2 rs1 : Reg) (imm : BitVec 12)
  | opImm (op : Immop) (rd rs1 : Reg) (imm : BitVec 12)
  | shift (op : Shiftop) (rd rs1 shamt : Reg)
  | alu (op : Alu) (rd rs1 rs2 : Reg)
  /-- The fields that order nothing here are for finer fences, and ignored. -/
  | fence (rd rs1 : Reg) (imm : BitVec 12)
  | fenceI (rd rs1 : Reg) (imm : BitVec 12)
  | ecall
  | ebreak
  | csr (op : Csrop) (rd src : Reg) (num : BitVec 12)
  | lr (aqrl : BitVec 2) (rd rs1 : Reg)
  | sc (aqrl : BitVec 2) (rd rs1 rs2 : Reg)
  | amo (op : Amo) (aqrl : BitVec 2) (rd rs1 rs2 : Reg)
  | sret
  | wfi
  | sfenceVma (rs1 rs2 : Reg)

namespace Rv32

def encode : Rv32 → Word
  | load ms rd rs1 imm => iType rd rs1 ms.funct3 0 imm
  | fence rd rs1 imm => iType rd rs1 0 3 imm
  | fenceI rd rs1 imm => iType rd rs1 1 3 imm
  | opImm op rd rs1 imm => iType rd rs1 op.funct3 4 imm
  | shift op rd rs1 shamt => rType rd rs1 shamt op.funct3 4 op.funct7
  | auipc rd imm => uType rd 5 imm
  | store width rs2 rs1 imm => sType rs1 rs2 width.funct3 8 imm
  | lr aqrl rd rs1 => rType rd rs1 0 2 11 (2#5 ++ aqrl)
  | sc aqrl rd rs1 rs2 => rType rd rs1 rs2 2 11 (3#5 ++ aqrl)
  | amo op aqrl rd rs1 rs2 => rType rd rs1 rs2 2 11 (op.funct5 ++ aqrl)
  | alu op rd rs1 rs2 => rType rd rs1 rs2 op.funct3 12 op.funct7
  | lui rd imm => uType rd 13 imm
  | branch op rs1 rs2 imm => bType rs1 rs2 op.funct3 24 imm
  | jalr rd rs1 imm => iType rd rs1 0 25 imm
  | jal rd imm => jType rd 27 imm
  | ecall => rType 0 0 0 0 28 0
  | ebreak => rType 0 0 1 0 28 0
  | sret => rType 0 0 2 0 28 8
  | wfi => rType 0 0 5 0 28 8
  | sfenceVma rs1 rs2 => rType 0 rs1 rs2 0 28 9
  | csr op rd src num => iType rd src op.funct3 28 num

/-- The call that carries an instruction out. -/
def call (instr : Rv32) : Insn :=
  match instr with
  | lui rd imm => .lui rd (imm ++ 0#12)
  | auipc rd imm => .auipc rd (imm ++ 0#12)
  | jal rd imm => .jal rd ((imm ++ 0#1).signExtend 32)
  | jalr rd rs1 imm => .jalr rd rs1 (imm.signExtend 32)
  | branch op rs1 rs2 imm => .branch op rs1 rs2 ((imm ++ 0#1).signExtend 32)
  | load ms rd rs1 imm => .load ms rd rs1 (imm.signExtend 32)
  | store width rs2 rs1 imm => .store width.style rs2 rs1 (imm.signExtend 32)
  | opImm op rd rs1 imm => .alui op.fn rd rs1 (imm.signExtend 32)
  | shift op rd rs1 shamt => .alui op.fn rd rs1 (shamt.setWidth 32)
  | alu op rd rs1 rs2 => .alu op rd rs1 rs2
  | fence _ _ _ | fenceI _ _ _ => .nothing
  | ecall => .ecall
  | ebreak => .ebreak
  | csr op rd src num => .csr op rd src (num.setWidth 32) instr.encode
  | lr _ rd rs1 => .lr rd rs1
  | sc _ rd rs1 rs2 => .sc rd rs1 rs2
  | amo op _ rd rs1 rs2 => .amo op rd rs1 rs2
  | sret => .sret instr.encode
  | wfi => .wfi instr.encode
  | sfenceVma _ _ => .sfenceVma instr.encode

end Rv32

end Sys161.Riscv
