import Sys161.Mips.Lamebus

/-!
# Loads, stores, branches and the instruction handlers

The functions of `mipscore.h` from `doload` to `mx_copz`. Handlers that differ
only in an operator or a condition are members of one family.
-/

namespace Sys161.Mips

set_option autoImplicit false

variable {δ : Type} (b : Board δ) (i : Nat)

/-! ## Loads and stores -/

inductive Memstyles where
  | sbyte
  | ubyte
  | shalf
  | uhalf
  | wordl
  | wordr
  deriving DecidableEq

def selectByte (addr val : Word) : BitVec 8 :=
  match (addr &&& 3).toNat with
  | 0 => val.extractLsb' 24 8
  | 1 => val.extractLsb' 16 8
  | 2 => val.extractLsb' 8 8
  | _ => val.extractLsb' 0 8

def selectHalf (addr val : Word) : BitVec 16 :=
  if addr &&& 2 = 0 then val.extractLsb' 16 16 else val.extractLsb' 0 16

/-- Mask and shift of `lwl`, by the two low bits of the address. -/
def loadWordl (addr : Word) : Word × Nat :=
  match (addr &&& 3).toNat with
  | 0 => (0xffffffff, 0)
  | 1 => (0xffffff00, 8)
  | 2 => (0xffff0000, 16)
  | _ => (0xff000000, 24)

def loadWordr (addr : Word) : Word × Nat :=
  match (addr &&& 3).toNat with
  | 0 => (0x000000ff, 24)
  | 1 => (0x0000ffff, 16)
  | 2 => (0x00ffffff, 8)
  | _ => (0xffffffff, 0)

/-- `doload`; `res` is what the destination held. -/
def doload (ms : Memstyles) (addr res : Word) : M δ Word :=
  match ms with
  | .sbyte => do
    let val ← domemFetch b i (addr &&& 0xfffffffc) false
    return (selectByte addr val).signExtend 32
  | .ubyte => do
    let val ← domemFetch b i (addr &&& 0xfffffffc) false
    return (selectByte addr val).setWidth 32
  | .shalf => do
    let val ← domemFetch b i (addr &&& 0xfffffffd) false
    return (selectHalf addr val).signExtend 32
  | .uhalf => do
    let val ← domemFetch b i (addr &&& 0xfffffffd) false
    return (selectHalf addr val).setWidth 32
  | .wordl => do
    let val ← domemFetch b i (addr &&& 0xfffffffc) false
    let (mask, shift) := loadWordl addr
    return (res &&& ~~~mask) ||| ((val <<< shift) &&& mask)
  | .wordr => do
    let val ← domemFetch b i (addr &&& 0xfffffffc) false
    let (mask, shift) := loadWordr addr
    return (res &&& ~~~mask) ||| ((val >>> shift) &&& mask)

def storeByte (addr : Word) : Word × Nat :=
  match (addr &&& 3).toNat with
  | 0 => (0xff000000, 24)
  | 1 => (0x00ff0000, 16)
  | 2 => (0x0000ff00, 8)
  | _ => (0x000000ff, 0)

def storeHalf (addr : Word) : Word × Nat :=
  if addr &&& 2 = 0 then (0xffff0000, 16) else (0x0000ffff, 0)

def storeWordl (addr : Word) : Word × Nat :=
  match (addr &&& 3).toNat with
  | 0 => (0xffffffff, 0)
  | 1 => (0x00ffffff, 8)
  | 2 => (0x0000ffff, 16)
  | _ => (0x000000ff, 24)

def storeWordr (addr : Word) : Word × Nat :=
  match (addr &&& 3).toNat with
  | 0 => (0xff000000, 24)
  | 1 => (0xffff0000, 16)
  | 2 => (0xffffff00, 8)
  | _ => (0xffffffff, 0)

/-- The word at an address is read, changed and written back. -/
def modifyWord (addr : Word) (f : Word → Word) : M δ Unit := do
  let wval ← domemFetch b i addr true
  domemStore b i addr (f wval)

/-- The word that a store makes of the one that is there. -/
def mergeStore (ms : Memstyles) (addr val wval : Word) : Word :=
  match ms with
  | .sbyte | .ubyte =>
    let (mask, shift) := storeByte addr
    (wval &&& ~~~mask) ||| ((val &&& 0xff) <<< shift)
  | .shalf | .uhalf =>
    let (mask, shift) := storeHalf addr
    (wval &&& ~~~mask) ||| ((val &&& 0xffff) <<< shift)
  | .wordl =>
    let (mask, shift) := storeWordl addr
    (wval &&& ~~~mask) ||| ((val >>> shift) &&& mask)
  | .wordr =>
    let (mask, shift) := storeWordr addr
    (wval &&& ~~~mask) ||| ((val <<< shift) &&& mask)

/-- The address of that word, which is aligned unless that of a half-word is odd. -/
def storeAddr (ms : Memstyles) (addr : Word) : Word :=
  match ms with
  | .shalf | .uhalf => addr &&& 0xfffffffd
  | _ => addr &&& 0xfffffffc

def dostore (ms : Memstyles) (addr val : Word) : M δ Unit :=
  match ms with
  | .sbyte | .shalf => throw (.smoke "dostore: Illegal addressing mode")
  | _ => modifyWord b i (storeAddr ms addr) (mergeStore ms addr val)

/-! ## Branches -/

/-- `bus_use_map` on a page pointer of the cpu. -/
def useMap (page : Option Page) (pageoffset : Word) : M δ Word := do
  match page with
  | some page => return busUseMap (← get).ram page pageoffset
  | none => throw (.undefined "null page pointer")

def abranch (addr : Word) : M δ Unit := do
  if addr &&& 0x3 ≠ 0 then
    raise b i ⟨.adel, 0, addr⟩
  else
    modCpu i fun c => { c with nextpc := addr, jumping := true }
    let c ← getCpu i
    if (← useMap c.pcpage c.pcoff) = fullopRfe then
      modCpu i fun c => { c with nextpcpage := none, nextpcoff := 0 }
    else
      precomputeNextpc b i

def ibranch (imm : Word) : M δ Unit := do
  abranch b i (((← getCpu i).pc &&& 0xf0000000) ||| imm)

def rbranch (rel : Word) : M δ Unit := do
  abranch b i ((← getCpu i).pc + rel)

/-! ## Cop0 registers -/

def Mipscpu.getstatus (c : Mipscpu) : Word :=
  c.statusCopenable ||| c.statusBootvectors ||| c.statusHardmaskTimer ||| c.statusHardmaskVoid |||
    c.statusHardmaskFpu ||| c.statusHardmaskIpi ||| c.statusHardmaskLb ||| c.statusSoftmask |||
    (if c.oldUsermode then 0x20 else 0) ||| (if c.oldIrqon then 0x10 else 0) |||
    (if c.prevUsermode then 0x8 else 0) ||| (if c.prevIrqon then 0x4 else 0) |||
    (if c.currentUsermode then 0x2 else 0) ||| (if c.currentIrqon then 0x1 else 0)

def Mipscpu.setstatus (c : Mipscpu) (val : Word) : Mipscpu :=
  { c with
    statusCopenable := val &&& 0xf0000000
    statusBootvectors := val &&& 0x00400000
    statusHardmaskTimer := val &&& 0x00008000
    statusHardmaskVoid := val &&& 0x00005000
    statusHardmaskFpu := val &&& 0x00002000
    statusHardmaskIpi := val &&& 0x00000800
    statusHardmaskLb := val &&& 0x00000400
    statusSoftmask := val &&& 0x00000300
    oldUsermode := val &&& 0x20 ≠ 0
    oldIrqon := val &&& 0x10 ≠ 0
    prevUsermode := val &&& 0x8 ≠ 0
    prevIrqon := val &&& 0x4 ≠ 0
    currentUsermode := val &&& 0x2 ≠ 0
    currentIrqon := val &&& 0x1 ≠ 0 }

def Mipscpu.getcause (c : Mipscpu) : Word :=
  c.causeCe ||| c.causeSoftirq ||| c.causeCode ||| (if c.causeBd then 0x80000000 else 0) |||
    (if c.irqLamebus then 0x00000400 else 0) ||| (if c.irqIpi then 0x00000800 else 0) |||
    (if c.irqTimer then 0x00008000 else 0)

def Mipscpu.getindex (c : Mipscpu) : Word :=
  (BitVec.ofNat 32 c.tlbindex <<< 8) ||| (if c.tlbpf then 0x80000000 else 0)

def Mipscpu.setindex (c : Mipscpu) (val : Word) : Mipscpu :=
  { c with tlbindex := ((val >>> 8) &&& 63).toNat, tlbpf := val &&& 0x80000000 ≠ 0 }

/-- `tlbrandom %= RANDREG_MAX`, a remainder of signed ints. -/
def Mipscpu.reduceRandom (c : Mipscpu) : Mipscpu :=
  { c with tlbrandom := c.tlbrandom.srem randregMax }

inductive C0 where
  | index
  | random
  | tlblo
  | context
  | vaddr
  | count
  | tlbhi
  | compare
  | status
  | cause
  | epc
  | prid
  | cfeat
  | ifeat
  | config0
  | config1
  /-- `C0_CONFIG2` to `C0_CONFIG7`: writes are ignored, reads are not there yet. -/
  | config2to7
  deriving DecidableEq

/-- `REGSEL`. -/
def C0.ofRegsel (reg : Reg) (sel : BitVec 3) : Option C0 :=
  match reg.toNat, sel.toNat with
  | 0, 0 => some index
  | 1, 0 => some random
  | 2, 0 => some tlblo
  | 4, 0 => some context
  | 8, 0 => some vaddr
  | 9, 0 => some count
  | 10, 0 => some tlbhi
  | 11, 0 => some compare
  | 12, 0 => some status
  | 13, 0 => some cause
  | 14, 0 => some epc
  | 15, 0 => some prid
  | 15, 1 => some cfeat
  | 15, 2 => some ifeat
  | 16, 0 => some config0
  | 16, 1 => some config1
  | 16, _ => some config2to7
  | _, _ => none

/-- What `domf` reads; RANDOM is reduced first. -/
def Mipscpu.mfc0 (c : Mipscpu) : C0 → Option Word
  | .index => some c.getindex
  | .random => some ((c.tlbrandom + BitVec.ofNat 32 randregOffset) <<< 8)
  | .tlblo => some (tlbgetlo c.tlbentry)
  | .context => some c.exContext
  | .vaddr => some c.exVaddr
  | .count => some c.exCount
  | .tlbhi => some (tlbgethi c.tlbentry)
  | .compare => some c.exCompare
  | .status => some c.getstatus
  | .cause => some c.getcause
  | .epc => some c.exEpc
  | .prid => some c.exPrid
  | .cfeat => some c.exCfeat
  | .ifeat => some c.exIfeat
  | .config0 => some c.exConfig0
  | .config1 => some c.exConfig1
  | .config2to7 => none

def domf (cn : Word) (reg : Reg) (sel : BitVec 3) : M δ Word := do
  let c ← getCpu i
  if cn ≠ 0 ∨ c.currentUsermode = true then
    raise b i ⟨.cpu, cn, 0⟩
  else
    match C0.ofRegsel reg sel with
    | some .random =>
      modCpu i Mipscpu.reduceRandom
      return ((c.reduceRandom).mfc0 .random).getD 0
    | some c0 =>
      match c.mfc0 c0 with
      | some val => return val
      | none => raise b i ⟨.ri, cn, 0⟩
    | none => raise b i ⟨.ri, cn, 0⟩

/-- What `domt` writes; the registers not listed are read-only, or their writes are ignored. -/
def Mipscpu.mtc0 (c : Mipscpu) (greg : Word) : C0 → Mipscpu
  | .index => c.setindex greg
  | .tlblo => { c with tlbentry := tlbsetlo c.tlbentry greg }
  | .context => { c with exContext := greg }
  | .vaddr => { c with exVaddr := greg }
  | .count => { c with exCount := greg }
  | .tlbhi => { c with tlbentry := tlbsethi c.tlbentry greg }
  | .compare =>
    { c with
      exCompare := greg
      exCompareUsed := true
      exCount := if greg < c.exCount then 0 else c.exCount
      irqTimer := false }
  | .status => c.setstatus greg
  | .cause => { c with causeSoftirq := greg &&& 0x300 }
  | .random | .epc | .prid | .cfeat | .ifeat | .config0 | .config1 | .config2to7 => c

/-- The R3000 cache control bits are not there. -/
def domt (cn : Word) (reg : Reg) (sel : BitVec 3) (greg : Word) : M δ Unit := do
  let c ← getCpu i
  if cn ≠ 0 ∨ c.currentUsermode = true then
    raise b i ⟨.cpu, cn, 0⟩
  else
    match C0.ofRegsel reg sel with
    | some c0 =>
      if c0 = .status ∧ greg &&& 0x00030000 ≠ 0 then
        hang .statusRegisterWrite
      modCpu i fun c => c.mtc0 greg c0
    | none => raise b i ⟨.ri, cn, 0⟩

/-! ## Fields of an instruction -/

section Fields

variable (insn : Word)

def rs : Reg := insn.extractLsb' 21 5

def rt : Reg := insn.extractLsb' 16 5

def rd : Reg := insn.extractLsb' 11 5

def targ : Word := insn &&& 0x03ffffff

def sh : BitVec 5 := insn.extractLsb' 6 5

def cn : Word := (insn &&& 0x0c000000) >>> 26

def sel : BitVec 3 := insn.extractLsb' 0 3

def imm : Word := insn &&& 0x0000ffff

def smm : Word := (insn.setWidth 16).signExtend 32

end Fields

/-- `NEEDADDR`. -/
def needaddr (c : Mipscpu) (insn : Word) : Word := c.r (rs insn) + smm insn

/-! ## Families of handlers -/

section Families

variable (insn : Word)

def ofBool (p : Bool) : Word := if p then 1 else 0

/-- `RDx` from the two source registers. -/
def rdOp (f : Word → Word → Word) : M δ Unit := do
  let c ← getCpu i
  setReg i (rd insn) (f (c.r (rs insn)) (c.r (rt insn)))

/-- `RDx` from one source register and the shift count. -/
def rdShift (f : Word → Nat → Word) : M δ Unit := do
  let c ← getCpu i
  setReg i (rd insn) (f (c.r (rt insn)) (sh insn).toNat)

/-- `RTx` from one source register and an immediate value. -/
def rtOp (f : Word → Word) : M δ Unit := do
  let c ← getCpu i
  setReg i (rt insn) (f (c.r (rs insn)))

/-- `CHKOVF`, and the value if it passes. -/
def chkovf (dest : Reg) (t64 : BitVec 64) : M δ Unit :=
  if (t64.setWidth 32).signExtend 64 ≠ t64 then
    raise b i ⟨.ovf, 0, 0⟩
  else
    setReg i dest (t64.setWidth 32)

/-- A coprocessor that is not there. -/
def copUnusable (cn : Word) : M δ Unit := raise b i ⟨.cpu, cn, 0⟩

/-- `LINK2`. -/
def link2 (rg : Reg) : M δ Unit := do
  setReg i rg (← getCpu i).nextpc

/-- A conditional branch. -/
def branchIf (cond : Word → Word → Bool) : M δ Unit := do
  let c ← getCpu i
  if cond (c.r (rs insn)) (c.r (rt insn)) then
    rbranch b i (smm insn <<< 2)

/-- A conditional branch with `LINK`, which comes before the test. -/
def branchLinkIf (cond : Word → Bool) : M δ Unit := do
  link2 i 31
  branchIf b i insn fun x _ => cond x

def loadOp (ms : Memstyles) : M δ Unit := do
  let c ← getCpu i
  let val ← doload b i ms (needaddr c insn) (c.r (rt insn))
  setReg i (rt insn) val

def storeOp (ms : Memstyles) : M δ Unit := do
  let c ← getCpu i
  dostore b i ms (needaddr c insn) (c.r (rt insn))

/-- The interlock macros: if the condition holds the instruction is tried again. -/
def stallOr (wait : Mipscpu → Bool) (x : M δ Unit) : M δ Unit := do
  if wait (← getCpu i) then
    phonyException b i
  else x

def whilo (c : Mipscpu) : Bool := 0 < c.hiwait || 0 < c.lowait

def whi (c : Mipscpu) : Bool := 0 < c.hiwait

def wlo (c : Mipscpu) : Bool := 0 < c.lowait

/-- `hi` and `lo` from the two source registers, then `SETHILO(2)`. -/
def setHilo (f : Word → Word → Word × Word) : M δ Unit :=
  stallOr b i whilo do
    modCpu i fun c =>
      { c with
        hi := (f (c.r (rs insn)) (c.r (rt insn))).1
        lo := (f (c.r (rs insn)) (c.r (rt insn))).2
        hiwait := 2
        lowait := 2 }

end Families

/-! ## The handlers -/

section Handlers

variable (insn : Word)

def mxAdd : M δ Unit := do
  let c ← getCpu i
  chkovf b i (rd insn) ((c.r (rs insn)).signExtend 64 + (c.r (rt insn)).signExtend 64)

def mxAddi : M δ Unit := do
  let c ← getCpu i
  chkovf b i (rt insn) ((c.r (rs insn)).signExtend 64 + (smm insn).signExtend 64)

def mxAddiu : M δ Unit := rtOp i insn (· + smm insn)

def mxAddu : M δ Unit := rdOp i insn (· + ·)

def mxAnd : M δ Unit := rdOp i insn (· &&& ·)

def mxAndi : M δ Unit := rtOp i insn (· &&& imm insn)

def mxBcf : M δ Unit := copUnusable b i (cn insn)

def mxBct : M δ Unit := copUnusable b i (cn insn)

def mxBeq : M δ Unit := branchIf b i insn (· == ·)

def mxBgezal : M δ Unit := branchLinkIf b i insn fun x => !x.slt 0

def mxBgez : M δ Unit := branchIf b i insn fun x _ => !x.slt 0

def mxBltzal : M δ Unit := branchLinkIf b i insn fun x => x.slt 0

def mxBltz : M δ Unit := branchIf b i insn fun x _ => x.slt 0

def mxBgtz : M δ Unit := branchIf b i insn fun x _ => BitVec.slt 0 x

def mxBlez : M δ Unit := branchIf b i insn fun x _ => x.sle 0

def mxBne : M δ Unit := branchIf b i insn (· != ·)

/-- Cache control does nothing, but checks the mode, and translates the address that some of the
operations take. -/
def mxCache : M δ Unit := do
  let c ← getCpu i
  if c.currentUsermode = true then
    raise b i ⟨.cpu, 0, 0⟩
  else if 4 ≤ (rt insn).toNat % 8 then
    let _ ← translatemem b i (needaddr c insn) false

def mxCf : M δ Unit := copUnusable b i (cn insn)

def mxCt : M δ Unit := copUnusable b i (cn insn)

def mxJ : M δ Unit := ibranch b i (targ insn <<< 2)

def mxJal : M δ Unit := do
  link2 i 31
  ibranch b i (targ insn <<< 2)

def mxLb : M δ Unit := loadOp b i insn .sbyte

def mxLbu : M δ Unit := loadOp b i insn .ubyte

def mxLh : M δ Unit := loadOp b i insn .shalf

def mxLhu : M δ Unit := loadOp b i insn .uhalf

def mxLl : M δ Unit := do
  let addr := needaddr (← getCpu i) insn
  let val ← domemFetch b i addr false
  setReg i (rt insn) val
  modCpu i fun c => { c with llActive := true, llAddr := addr, llValue := c.r (rt insn) }

def mxLui : M δ Unit := setReg i (rt insn) (imm insn <<< 16)

def mxLw : M δ Unit := do
  let val ← domemFetch b i (needaddr (← getCpu i) insn) false
  setReg i (rt insn) val

def mxLwc : M δ Unit := copUnusable b i (cn insn)

def mxLwl : M δ Unit := loadOp b i insn .wordl

def mxLwr : M δ Unit := loadOp b i insn .wordr

def mxSb : M δ Unit := storeOp b i insn .ubyte

/-- Store conditional: the word is read again, and written if it is what LL returned. -/
def mxSc : M δ Unit := do
  let c ← getCpu i
  let addr := needaddr c insn
  if !c.llActive || c.llAddr ≠ addr then
    setReg i (rt insn) 0
  else
    let temp ← domemFetch b i addr true
    if temp ≠ c.llValue then
      setReg i (rt insn) 0
    else
      domemStore b i addr (c.r (rt insn))
      setReg i (rt insn) 1

def mxSh : M δ Unit := storeOp b i insn .uhalf

def mxSw : M δ Unit := do
  let c ← getCpu i
  domemStore b i (needaddr c insn) (c.r (rt insn))

def mxSwc : M δ Unit := copUnusable b i (cn insn)

def mxSwl : M δ Unit := storeOp b i insn .wordl

def mxSwr : M δ Unit := storeOp b i insn .wordr

def mxBreak : M δ Unit := raise b i ⟨.bp, 0, 0⟩

/-- The quotient of the least integer by -1 does not exist; the host traps. -/
def mxDiv : M δ Unit := do
  let c ← getCpu i
  if whilo c = false ∧ c.r (rs insn) = 0x80000000 ∧ c.r (rt insn) = 0xffffffff then
    throw (.undefined "division overflow")
  else
    setHilo b i insn fun x y =>
      if y = 0 then (0, if x.slt 0 then 0xffffffff else 0x7fffffff) else (x.srem y, x.sdiv y)

def mxDivu : M δ Unit :=
  setHilo b i insn fun x y => if y = 0 then (0, 0xffffffff) else (x % y, x / y)

def mxJr : M δ Unit := do
  abranch b i ((← getCpu i).r (rs insn))

def mxJalr : M δ Unit := do
  link2 i (rd insn)
  abranch b i ((← getCpu i).r (rs insn))

def mxMf : M δ Unit := do
  let val ← domf b i (cn insn) (rd insn) (sel insn)
  setReg i (rt insn) val

def mxMfhi : M δ Unit :=
  stallOr b i whi do
    modCpu i fun c => { c with r := Function.update c.r (rd insn) c.hi, hiwait := 2 }

def mxMflo : M δ Unit :=
  stallOr b i wlo do
    modCpu i fun c => { c with r := Function.update c.r (rd insn) c.lo, lowait := 2 }

def mxMt : M δ Unit := do
  domt b i (cn insn) (rd insn) (sel insn) ((← getCpu i).r (rt insn))

def mxMthi : M δ Unit :=
  stallOr b i whi do
    modCpu i fun c => { c with hi := c.r (rs insn), hiwait := 2 }

def mxMtlo : M δ Unit :=
  stallOr b i wlo do
    modCpu i fun c => { c with lo := c.r (rs insn), lowait := 2 }

def mxMult : M δ Unit :=
  setHilo b i insn fun x y =>
    let t64 := x.signExtend 64 * y.signExtend 64
    ((t64 >>> 32).setWidth 32, t64.setWidth 32)

def mxMultu : M δ Unit :=
  setHilo b i insn fun x y =>
    let t64 := x.setWidth 64 * y.setWidth 64
    ((t64 >>> 32).setWidth 32, t64.setWidth 32)

def mxNor : M δ Unit := rdOp i insn fun x y => ~~~(x ||| y)

def mxOr : M δ Unit := rdOp i insn (· ||| ·)

def mxOri : M δ Unit := rtOp i insn (· ||| imm insn)

def mxRfe : M δ Unit := doRfe b i

def mxSll : M δ Unit := rdShift i insn fun x n => x <<< n

def mxSllv : M δ Unit := rdOp i insn fun x y => y <<< (x &&& 31).toNat

def mxSlt : M δ Unit := rdOp i insn fun x y => ofBool (x.slt y)

def mxSlti : M δ Unit := rtOp i insn fun x => ofBool (x.slt (smm insn))

def mxSltiu : M δ Unit := rtOp i insn fun x => ofBool (x.ult (smm insn))

def mxSltu : M δ Unit := rdOp i insn fun x y => ofBool (x.ult y)

def signedshift (val : Word) (amt : Nat) : Word :=
  if val &&& 0x80000000 ≠ 0 then (val >>> amt) ||| (0xffffffff <<< (31 - amt)) else val >>> amt

def mxSra : M δ Unit := rdShift i insn signedshift

def mxSrav : M δ Unit := rdOp i insn fun x y => signedshift y (x &&& 31).toNat

def mxSrl : M δ Unit := rdShift i insn fun x n => x >>> n

def mxSrlv : M δ Unit := rdOp i insn fun x y => y >>> (x &&& 31).toNat

def mxSub : M δ Unit := do
  let c ← getCpu i
  chkovf b i (rd insn) ((c.r (rs insn)).signExtend 64 - (c.r (rt insn)).signExtend 64)

def mxSubu : M δ Unit := rdOp i insn (· - ·)

/-- There are no pending memory accesses to flush. -/
def mxSync : M δ Unit := pure ()

def mxSyscall : M δ Unit := raise b i ⟨.sys, 0, 0⟩

def mxTlbp : M δ Unit := probetlb i

def mxTlbr : M δ Unit := modCpu i fun c => { c with tlbentry := c.tlb c.tlbindex }

def mxTlbwi : M δ Unit := do
  writetlb b i (← getCpu i).tlbindex

def mxTlbwr : M δ Unit := do
  modCpu i Mipscpu.reduceRandom
  writetlb b i ((← getCpu i).tlbrandom.toInt + randregOffset)

def mxWait : M δ Unit := doWait i

def mxXor : M δ Unit := rdOp i insn (· ^^^ ·)

def mxXori : M δ Unit := rtOp i insn (· ^^^ imm insn)

def mxIll : M δ Unit := raise b i ⟨.ri, 0, 0⟩

/-- The operations of the system coprocessor proper. -/
def mxCop0 : M δ Unit :=
  match (insn &&& 0x01ffffff).toNat with
  | 1 => mxTlbr i
  | 2 => mxTlbwi b i
  | 6 => mxTlbwr b i
  | 8 => mxTlbp i
  | 16 => mxRfe b i
  | 32 => mxWait i
  | _ => mxIll b i

def mxCopz : M δ Unit := do
  let c ← getCpu i
  if cn insn ≠ 0 ∨ c.currentUsermode = true then
    raise b i ⟨.cpu, cn insn, 0⟩
  else if 16 ≤ (rs insn).toNat then
    mxCop0 b i insn
  else
    match (rs insn).toNat with
    | 0 => mxMf b i insn
    | 2 => mxCf b i insn
    | 4 => mxMt b i insn
    | 6 => mxCt b i insn
    | 8 | 12 => if insn &&& 0x00010000 ≠ 0 then mxBcf b i insn else mxBct b i insn
    | _ => mxIll b i

end Handlers

end Sys161.Mips
