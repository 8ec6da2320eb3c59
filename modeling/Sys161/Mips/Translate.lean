import Sys161.Mips.State

/-!
# Address translation, exceptions and the fetch position

The functions of `mipscore.h` from `findtlb` to `precompute_nextpc`, with the
TLB registers and `check_tlb_dups` of `mips.c`.
-/

namespace Sys161.Mips

set_option autoImplicit false

variable {δ : Type} (b : Board δ) (i : Nat)

/-! ## The TLB -/

def resetTlbentry (index : Nat) : Mipstlb where
  mtGlobal := false
  mtValid := false
  mtDirty := false
  mtNocache := false
  mtPfn := 0
  mtVpn := 0x81000000 + BitVec.ofNat 32 index * 0x1000
  mtPid := 0

def tlbgetlo (mt : Mipstlb) : Word :=
  mt.mtPfn ||| (if mt.mtGlobal then 0x100 else 0) ||| (if mt.mtValid then 0x200 else 0) |||
    (if mt.mtDirty then 0x400 else 0) ||| (if mt.mtNocache then 0x800 else 0)

def tlbgethi (mt : Mipstlb) : Word := mt.mtVpn ||| (mt.mtPid <<< 6)

def tlbsetlo (mt : Mipstlb) (val : Word) : Mipstlb :=
  { mt with
    mtGlobal := val &&& 0x100 ≠ 0
    mtValid := val &&& 0x200 ≠ 0
    mtDirty := val &&& 0x400 ≠ 0
    mtNocache := val &&& 0x800 ≠ 0
    mtPfn := val &&& 0xfffff000 }

def tlbsethi (mt : Mipstlb) (val : Word) : Mipstlb :=
  { mt with
    mtVpn := val &&& 0xfffff000
    mtPid := (val &&& 0xfc0) >>> 6 }

/-- The test of the loop in `findtlb`. -/
def Mipstlb.hits (mt : Mipstlb) (vpage pid : Word) : Bool :=
  mt.mtVpn == vpage && (mt.mtPid == pid || mt.mtGlobal)

def findtlb (c : Mipscpu) (vpage : Word) : Option Nat :=
  (List.range ntlb).find? fun ix => (c.tlb ix).hits vpage c.tlbentry.mtPid

/-- The test of the loop in `check_tlb_dups`: both entries would match at once. -/
def Mipstlb.dup (mt mt' : Mipstlb) : Bool :=
  mt.mtVpn == mt'.mtVpn && (mt.mtGlobal || mt'.mtGlobal || mt.mtPid == mt'.mtPid)

def checkTlbDups (newix : Nat) : M δ Unit := do
  let c ← getCpu i
  (List.range ntlb).forM fun ix =>
    if ix ≠ newix ∧ (c.tlb newix).dup (c.tlb ix) = true then
      hang (.duplicateTlbEntries (c.tlb ix).mtVpn)
    else
      pure ()

/-! ## Memory pages -/

def romWords : Nat := 1024

/-- Words of the boot ROM: no-operations, and a breakpoint at its end. -/
def fakerom (index : Nat) : Word := if index = 1023 then 0x0000000d else 0

def busMemMap (offset : Word) : Option Page :=
  if b.busRamsize ≤ offset then none else some (.ram offset)

def bootromMap (offset : Word) : Option Page :=
  if romWords * 4 ≤ offset.toNat then none else some (.rom offset)

def mapmem (paddr : Word) : Option Page :=
  let paddr := paddr &&& 0xfffff000
  if paddr < 0x1fc00000 then busMemMap b paddr
  else if paddr < 0x1fe00000 then bootromMap (paddr - 0x1fc00000)
  else if paddr < 0x20000000 then none
  else busMemMap b (paddr - 0x00400000)

/-- The word of main memory at a byte offset. -/
def wordIndex (offset : Word) : BitVec 30 := offset.extractLsb' 2 30

def busUseMap (ram : BitVec 30 → Word) (page : Page) (pageoffset : Word) : Word :=
  match page with
  | .ram base => ram (wordIndex (base + pageoffset))
  | .rom base => fakerom ((base + pageoffset).toNat / 4)

/-! ## Exceptions -/

/-- What `exception()` does before it recomputes the fetch position. -/
def Mipscpu.exceptionRegs (c : Mipscpu) (e : Exn) : Mipscpu :=
  let boot := c.statusBootvectors ≠ 0
  let pc := if (e.code = .tlbl ∨ e.code = .tlbs) ∧ e.cnOrUser ≠ 0 then
      if boot then 0xbfc00100 else 0x80000000
    else if boot then 0xbfc00180 else 0x80000080
  { c with
    causeBd := c.inJumpdelay
    causeCe := if e.code = .cpu then e.cnOrUser <<< 28 else 0
    causeCode := e.code.code <<< 2
    jumping := false
    inJumpdelay := false
    llActive := false
    oldUsermode := c.prevUsermode
    oldIrqon := c.prevIrqon
    prevUsermode := c.currentUsermode
    prevIrqon := c.currentIrqon
    currentUsermode := false
    currentIrqon := false
    exVaddr := e.vaddr
    exContext := (c.exContext &&& 0xffe00000) ||| ((e.vaddr &&& 0x7ffff000) >>> 10)
    exEpc := c.expc
    pc := pc
    nextpc := pc + 4 }

/-- The fetch position of a kernel address in kseg0 or kseg1. -/
def Mipscpu.precomputeVector (c : Mipscpu) : Mipscpu :=
  { c with
    pcpage := mapmem b (c.pc &&& 0x1fffffff)
    pcoff := c.pc &&& 0xfff
    nextpcpage := mapmem b (c.nextpc &&& 0x1fffffff)
    nextpcoff := c.nextpc &&& 0xfff }

/-- `exception()`. The vectors lie in unmapped segments, on pages that always exist, so the calls of
`precompute_pc` and `precompute_nextpc` at its end only strip the segment; see
`exception_precomputed`. -/
def Mipscpu.exception (c : Mipscpu) (e : Exn) : Mipscpu :=
  (c.exceptionRegs e).precomputeVector b

/-- Post an exception; the functions in between return at once. -/
def raise {α : Type} (e : Exn) : M δ α := do
  modCpu i fun c => c.exception b e
  throw .exception

def Mipscpu.setVpn (c : Mipscpu) (vpage : Word) : Mipscpu :=
  { c with tlbentry := { c.tlbentry with mtVpn := vpage } }

/-- What `translatemem` makes of the TLB entry it has found, or not. -/
def mapped (vaddr : Word) (iswrite : Bool) : Option Mipstlb → Except Exn Word
  | none => .error ⟨if iswrite then .tlbs else .tlbl, if vaddr < 0x80000000 then 1 else 0, vaddr⟩
  | some mt =>
    if mt.mtValid = false then .error ⟨if iswrite then .tlbs else .tlbl, 0, vaddr⟩
    else if iswrite = true ∧ mt.mtDirty = false then .error ⟨.mod, 0, vaddr⟩
    else .ok (mt.mtPfn ||| (vaddr &&& 0xfff))

/-- The checks of `translatemem`, and the cpu with TLBHI as it leaves it. -/
def translate (c : Mipscpu) (vaddr : Word) (iswrite : Bool) : Except Exn Word × Mipscpu :=
  if (0x80000000 ≤ vaddr ∧ c.currentUsermode = true) ∨ vaddr &&& 0x3 ≠ 0 then
    (.error ⟨if iswrite then .ades else .adel, 0, vaddr⟩, c)
  else if vaddr >>> 30 = 2 then
    (.ok (vaddr &&& 0x1fffffff), c)
  else
    let vpage := vaddr &&& 0xfffff000
    let c := c.setVpn vpage
    (mapped vaddr iswrite ((findtlb c vpage).map c.tlb), c)

def translatemem (vaddr : Word) (iswrite : Bool) : M δ Word := do
  let (ret, c) := translate (← getCpu i) vaddr iswrite
  modCpu i fun _ => c
  match ret with
  | .ok paddr => return paddr
  | .error e => raise b i e

def precomputePc : M δ Unit := do
  let physpc ← translatemem b i (← getCpu i).pc false
  modCpu i fun c => { c with pcpage := mapmem b physpc }
  if mapmem b physpc = none then
    raise b i ⟨.ibe, 0, 0⟩
  else
    modCpu i fun c => { c with pcoff := physpc &&& 0xfff }

def precomputeNextpc : M δ Unit := do
  let physnext ← translatemem b i (← getCpu i).nextpc false
  modCpu i fun c => { c with nextpcpage := mapmem b physnext }
  if mapmem b physnext = none then
    raise b i ⟨.ibe, 0, 0⟩
  else
    modCpu i fun c => { c with nextpcoff := physnext &&& 0xfff }

def phonyException : M δ Unit := do
  modCpu i fun c =>
    { c with jumping := false, inJumpdelay := false, pc := c.expc, nextpc := c.expc + 4 }
  if ← attempt (precomputePc b i) then
    if ← attempt (precomputeNextpc b i) then
      pure ()
    else
      throw (.smoke "precompute_nextpc failed in phony_exception")
  else
    throw (.smoke "precompute_pc failed in phony_exception")

/-- Both translations are brought up to date; what they raise needs no more care. -/
def precomputeBoth : M δ Unit := do
  let _ ← attempt (precomputePc b i)
  let _ ← attempt (precomputeNextpc b i)

def probetlb : M δ Unit := do
  let c ← getCpu i
  match findtlb c c.tlbentry.mtVpn with
  | none => modCpu i fun c => { c with tlbpf := true }
  | some ix => modCpu i fun c => { c with tlbindex := ix, tlbpf := false }

def writetlb (ix : Int) : M δ Unit := do
  if 0 ≤ ix ∧ ix < ntlb then
    modCpu i fun c => { c with tlb := Function.update c.tlb ix.toNat c.tlbentry }
    checkTlbDups i ix.toNat
    precomputeBoth b i
  else
    throw (.undefined "tlb index out of range")

def doWait : M δ Unit := do
  let c ← getCpu i
  if !c.irqLamebus && !c.irqIpi && !c.irqTimer then
    modCpu i fun c => { c with state := .idle }
    runningMaskOff c.cpunum

def doRfe : M δ Unit := do
  if (← getCpu i).currentUsermode = true then
    throw (.smoke "RFE in usermode not caught by instruction decoder")
  else
    modCpu i fun c =>
      { c with
        currentUsermode := c.prevUsermode
        currentIrqon := c.prevIrqon
        prevUsermode := c.oldUsermode
        prevIrqon := c.oldIrqon
        inJumpdelay := false
        expc := c.pc }
    precomputeBoth b i

end Sys161.Mips
