import Sys161.Riscv.Lamebus

/-!
# Address translation, traps and the fetch position

The functions of `riscvcore.h` from `trap` to `reload_pagetables`.
-/

namespace Sys161.Riscv

open Mips (Board Page)

set_option autoImplicit false

variable {δ : Type} (b : Board δ) (i : Nat)

/-! ## The page walk -/

def pagefault (vaddr : Word) (rwx : Memrwx) : Trap :=
  .exception (match rwx with
    | .read => .lpage
    | .write => .spage
    | .execute => .ipage) vaddr

def accessfault (vaddr : Word) (rwx : Memrwx) : Trap :=
  .exception (match rwx with
    | .read => .laccess
    | .write => .saccess
    | .execute => .iaccess) vaddr

def pteV : Word := 0x00000001

def pteR : Word := 0x00000002

def pteW : Word := 0x00000004

def pteX : Word := 0x00000008

def pteU : Word := 0x00000010

def pteA : Word := 0x00000040

def pteD : Word := 0x00000080

def ptePpn : Word := 0x3ffffc00

def pteUpperPpn : Word := 0xc0000000

/-- The entry of the page table that a translation ends at. -/
structure Leaf where
  entry : Word
  superpage : Bool
  deriving DecidableEq

namespace Leaf

variable (leaf : Leaf)

/-- `paddr` of `translatemem`. -/
def base : Word := (leaf.entry &&& ptePpn) <<< 2

def offset (vaddr : Word) : Word :=
  if leaf.superpage then vaddr &&& 0x003fffff else vaddr &&& 0x00000fff

/-- The permission bit of an access. -/
def allows (rwx : Memrwx) : Bool :=
  match rwx with
  | .read => leaf.entry &&& pteR ≠ 0
  | .write => leaf.entry &&& pteW ≠ 0
  | .execute => leaf.entry &&& pteX ≠ 0

/-- The page is refused for the mode the cpu is in. -/
def modeRefused (super sum : Bool) (rwx : Memrwx) : Bool :=
  if super ∧ leaf.entry &&& pteU ≠ 0 then rwx = .execute ∨ sum = false
  else !super ∧ leaf.entry &&& pteU = 0

/-- The checks of `translatemem` after it has found the entry. -/
def check (super sum : Bool) (vaddr : Word) (rwx : Memrwx) : Except Trap Word :=
  if leaf.modeRefused super sum rwx then .error (pagefault vaddr rwx)
  else if leaf.allows rwx = false then .error (pagefault vaddr rwx)
  else if rwx = .write ∧ leaf.entry &&& pteD = 0 then .error (pagefault vaddr rwx)
  else if leaf.entry &&& pteA = 0 then .error (pagefault vaddr rwx)
  else if leaf.entry &&& pteUpperPpn ≠ 0 then .error (accessfault vaddr rwx)
  else .ok (leaf.base ||| leaf.offset vaddr)

end Leaf

/-- Index of the top level. -/
def topIx (vaddr : Word) : Word := (vaddr &&& 0xffc00000) >>> 20

/-- Index of the second level. -/
def secondIx (vaddr : Word) : Word := (vaddr &&& 0x003ff000) >>> 10

/-- What the entry of the top level comes to: the address of the second-level page, or the leaf
itself. -/
def topEntry (entry vaddr : Word) (rwx : Memrwx) : Except Trap (Word ⊕ Leaf) :=
  if entry &&& pteV = 0 then .error (pagefault vaddr rwx)
  else if entry &&& (pteR ||| pteW ||| pteX) ≠ 0 then
    -- a superpage that is not aligned is a page fault
    if ((entry &&& ptePpn) <<< 2) &&& 0x003ff000 ≠ 0 then .error (pagefault vaddr rwx)
    else .ok (.inr ⟨entry, true⟩)
  else if entry &&& pteUpperPpn ≠ 0 then .error (accessfault vaddr rwx)
  else .ok (.inl ((entry &&& ptePpn) <<< 2))

def secondEntry (entry vaddr : Word) (rwx : Memrwx) : Except Trap Leaf :=
  if entry &&& pteV = 0 then .error (pagefault vaddr rwx)
  else if entry &&& pteUpperPpn ≠ 0 then .error (accessfault vaddr rwx)
  else .ok ⟨entry, false⟩

def liftTrap {α : Type} : Except Trap α → M δ α
  | .ok a => return a
  | .error t => throw (.trap t)

/-- The visit to the page table. -/
def findLeaf (vaddr : Word) (rwx : Memrwx) : M δ Leaf := do
  match (← getCpu i).mmuPttoppage with
  | none => throw (.trap (accessfault vaddr rwx))
  | some page =>
    let entry := busUseMap (← get).ram page (topIx vaddr)
    match ← liftTrap (topEntry entry vaddr rwx) with
    | .inr leaf => return leaf
    | .inl ptpaddr =>
      match ← fetchPhys b i (ptpaddr + secondIx vaddr) with
      | none => throw (.trap (accessfault vaddr rwx))
      | some entry => liftTrap (secondEntry entry vaddr rwx)

/-- The cache takes up a leaf; the cached page is never a superpage. -/
def Riscvcpu.fill (c : Riscvcpu) (vaddr : Word) (leaf : Leaf) : Riscvcpu :=
  if leaf.superpage then c
  else
    { c with
      mmuCachedVpage := vaddr &&& 0xfffff000
      mmuCachedPpage := leaf.base
      mmuCachedReadable := leaf.entry &&& pteR ≠ 0
      mmuCachedWriteable := leaf.entry &&& (pteW ||| pteD) = pteW ||| pteD
      mmuCachedExecutable := leaf.entry &&& pteX ≠ 0 }

/-- `translatemem` after the test of the cache. -/
def walk (vaddr : Word) (rwx : Memrwx) : M δ Word := do
  let leaf ← findLeaf b i vaddr rwx
  let c ← getCpu i
  let paddr ← liftTrap (leaf.check c.super c.statusSum vaddr rwx)
  modCpu i fun c => c.fill vaddr leaf
  return paddr

def Riscvcpu.cachedAllows (c : Riscvcpu) (rwx : Memrwx) : Bool :=
  match rwx with
  | .read => c.mmuCachedReadable
  | .write => c.mmuCachedWriteable
  | .execute => c.mmuCachedExecutable

def translatemem (vaddr : Word) (rwx : Memrwx) : M δ Word := do
  if vaddr &&& 0x1 ≠ 0 then
    throw (.smoke "Assertion failed")
  else
    let c ← getCpu i
    if c.mmuEnable = false then
      return vaddr
    else if vaddr &&& 0xfffff000 = c.mmuCachedVpage then
      if c.cachedAllows rwx then
        return c.mmuCachedPpage ||| (vaddr &&& 0x00000fff)
      else
        throw (.trap (pagefault vaddr rwx))
    else
      walk b i vaddr rwx

/-! ## The fetch position -/

/-- A page that is not there is an access fault; the trap handler that this enters has a page. -/
def precomputePc : M δ Unit := do
  let pc := (← getCpu i).pc
  let physpc ← translatemem b i pc .execute
  modCpu i fun c => { c with pcpage := mapmem b physpc }
  if mapmem b physpc = none then
    raise .iaccess pc
  else
    modCpu i fun c => { c with pcoff := physpc &&& 0xfff, nextpcoff := physpc &&& 0xfff }

def reloadPagetables : M δ Unit := do
  let c ← getCpu i
  modCpu i fun c => { c with mmuPttoppage := mapmem b c.mmuPtbasePa }
  if mapmem b c.mmuPtbasePa = none then
    raise .laccess c.pc

/-! ## Traps -/

/-- What `trap()` does before it looks up the page of the handler. -/
def Riscvcpu.enterTrap (c : Riscvcpu) (t : Trap) : Riscvcpu :=
  { c with
    scauseInterrupt := t.isirq
    scauseTrapcode := t.code
    stval := t.val
    statusSpp := c.super
    statusSpie := c.statusSie
    statusSie := false
    super := true
    sepc := c.pc
    pc := c.stvec
    nextpc := c.stvec
    trapped := true }

/-- Faulted entering the trap handler. -/
def recursiveTrap : M δ Unit := do
  hang .wedged
  throw .crashdie

/-- `trap()`. It calls itself when the handler itself cannot be fetched, and then finds the pc at
the handler. -/
def trap (t : Trap) : M δ Unit := do
  let c ← getCpu i
  if c.pc = c.stvec then
    recursiveTrap
  else
    modCpu i fun c => c.enterTrap t
    tryCatch (precomputePc b i) fun
      | .trap _ => recursiveTrap
      | e => throw e

/-- Run a part of the core; where it traps, take the trap and go on with `handled`. -/
def trapping {α : Type} (x : M δ α) (handled : α) : M δ α :=
  tryCatch x fun
    | .trap t => do
      trap b i t
      return handled
    | e => throw e

/-- Run a part of the core and say whether it came to its end without a trap. -/
def attempt (x : M δ Unit) : M δ Bool :=
  trapping b i (do x; return true) false

end Sys161.Riscv
