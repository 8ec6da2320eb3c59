import Sys161.Bus.Event
import Mathlib.Algebra.Order.Ring.Int

/-!
# Loading the kernel

The boot image is read header by header, its segments are put into RAM, and the
argument string at RAM's end. What is written is kept in order, by its distance
from the start of RAM.
-/

namespace Sys161.Bus

set_option autoImplicit false

/-! ## The cpu's part -/

/-- The macro of both cpus. -/
def between (addr size base top : BitVec 32) : Bool :=
  decide (base ≤ addr) && decide (size ≤ top - base) && decide (addr + size < top)

structure BootCpu where
  getRamPaddr : BitVec 32
  getLoadPaddr : BitVec 32 → BitVec 32 → Option (BitVec 32)
  getLoadVaddr : BitVec 32 → BitVec 32 → Option (BitVec 32)
  bigEndian : Bool
  elfdata : BitVec 8
  machine : BitVec 16

namespace Mips

def kseg0 : BitVec 32 := 0x80000000

def kseg1 : BitVec 32 := 0xa0000000

def kseg2 : BitVec 32 := 0xc0000000

def bootCpu : BootCpu where
  getRamPaddr := 0
  getLoadPaddr vaddr size :=
    if !between vaddr size kseg0 kseg2 then none
    else if kseg1 ≤ vaddr then some (vaddr - kseg1)
    else some (vaddr - kseg0)
  getLoadVaddr paddr size :=
    if !between paddr size 0 (kseg1 - kseg0) then none else some (paddr + kseg0)
  bigEndian := true
  elfdata := 2
  machine := 8

end Mips

namespace Riscv

def paddrRambase : BitVec 32 := 0xc0000000

def paddrRombase : BitVec 32 := 0xffc00000

def bootCpu : BootCpu where
  getRamPaddr := paddrRambase
  getLoadPaddr vaddr size :=
    if !between vaddr size paddrRambase paddrRombase then none else some vaddr
  getLoadVaddr paddr size :=
    if !between paddr size paddrRambase paddrRombase then none else some paddr
  bigEndian := false
  elfdata := 1
  machine := 243

end Riscv

def maxmem : BitVec 32 := 16 * 1024 * 1024

/-- The sizes of RAM that `bus_config` allows. -/
structure Ramsize where
  size : BitVec 32
  ne : size ≠ 0
  page : size &&& 0xfff = 0
  le : size ≤ maxmem

/-! ## What is written -/

/-- What is put into RAM: a segment at a distance from its start, or the argument string. -/
inductive BootItem where
  | segment (offset : Int) (memsz : Nat)
  | argument (size : Nat)
deriving DecidableEq

structure RamWrite where
  item : BootItem
  offset : Int
  bytes : List (BitVec 8)
deriving DecidableEq

/-- What a function of the loader has written, and what it returns or dies with. -/
structure Boot (α : Type) where
  writes : List RamWrite
  result : Except String α

/-! ## Headers -/

def ctoh16 (bigEndian : Bool) (bytes : List (BitVec 8)) (offset : Nat) : BitVec 16 :=
  let lo := bytes.getD offset 0
  let hi := bytes.getD (offset + 1) 0
  if bigEndian then lo ++ hi else hi ++ lo

def ctoh32 (bigEndian : Bool) (bytes : List (BitVec 8)) (offset : Nat) : BitVec 32 :=
  getWord bigEndian (fun i => bytes.getD i 0) offset

def unexpectedEof : String := "read: boot image: unexpected EOF"

/-- `doread` into a header. -/
def doread (image : List (BitVec 8)) (pos len : Nat) : Except String (List (BitVec 8)) :=
  let bytes := (image.drop pos).take len
  if bytes.length < len then .error unexpectedEof else .ok bytes

structure ElfEhdr where
  eEntry : BitVec 32
  ePhoff : BitVec 32
  ePhentsize : BitVec 16
  ePhnum : BitVec 16

def sizeofEhdr : Nat := 52

/-- The header of the file with all that `load_elf` checks of it. -/
def readEhdr (c : BootCpu) (image : List (BitVec 8)) : Except String ElfEhdr := do
  let eh ← doread image 0 sizeofEhdr
  if eh.take 4 ≠ [0x7f, 0x45, 0x4c, 0x46] then throw "Boot image is not an ELF executable"
  if eh.getD 4 0 ≠ 1 then throw "Boot image is not a 32-bit executable"
  if eh.getD 5 0 ≠ c.elfdata then throw "Boot image has the wrong endianness"
  if eh.getD 6 0 ≠ 1 ∨ ctoh32 c.bigEndian eh 20 ≠ 1 then throw "Boot image is wrong ELF version"
  if ctoh16 c.bigEndian eh 16 ≠ 2 then throw "Boot image is ELF but not an executable"
  if ctoh16 c.bigEndian eh 18 ≠ c.machine then throw "Boot image is for wrong processor type"
  pure {
    eEntry := ctoh32 c.bigEndian eh 24
    ePhoff := ctoh32 c.bigEndian eh 28
    ePhentsize := ctoh16 c.bigEndian eh 42
    ePhnum := ctoh16 c.bigEndian eh 44 }

structure ElfPhdr where
  pType : BitVec 32
  pOffset : BitVec 32
  pVaddr : BitVec 32
  pFilesz : BitVec 32
  pMemsz : BitVec 32

def sizeofPhdr : Nat := 32

def ptNull : BitVec 32 := 0

def ptLoad : BitVec 32 := 1

def ptNote : BitVec 32 := 4

def ptPhdr : BitVec 32 := 6

def ptMipsReginfo : BitVec 32 := 0x70000000

def readPhdr (c : BootCpu) (image : List (BitVec 8)) (pos : BitVec 32) : Except String ElfPhdr := do
  let ph ← doread image pos.toNat sizeofPhdr
  pure {
    pType := ctoh32 c.bigEndian ph 0
    pOffset := ctoh32 c.bigEndian ph 4
    pVaddr := ctoh32 c.bigEndian ph 8
    pFilesz := ctoh32 c.bigEndian ph 16
    pMemsz := ctoh32 c.bigEndian ph 20 }

/-! ## Segments and argument -/

def ElfPhdr.skipped (ph : ElfPhdr) : Bool :=
  ph.pType == ptNull || ph.pType == ptPhdr || ph.pType == ptMipsReginfo || ph.pType == ptNote

/-- The part of a segment that comes from the file. -/
def ElfPhdr.filesz (ph : ElfPhdr) : BitVec 32 :=
  if ph.pFilesz > ph.pMemsz then ph.pMemsz else ph.pFilesz

/-- What the file holds of it. -/
def ElfPhdr.data (ph : ElfPhdr) (image : List (BitVec 8)) : List (BitVec 8) :=
  (image.drop ph.pOffset.toNat).take ph.filesz.toNat

/-- One turn of the loop in `load_elf`. -/
def loadSegment (c : BootCpu) (ramsize : Ramsize) (image : List (BitVec 8)) (ph : ElfPhdr) :
    Boot Unit :=
  if ph.skipped then ⟨[], .ok ()⟩
  else if ph.pType ≠ ptLoad then
    ⟨[], .error s!"Boot image contained unknown segment type {ph.pType.toInt}"⟩
  else
    match c.getLoadPaddr ph.pVaddr ph.pMemsz with
    | none =>
      ⟨[], .error (s!"Invalidly placed segment in boot image " ++
        s!"(load address {ph.pVaddr.toNat}, size {ph.pMemsz.toNat})")⟩
    | some paddr =>
      if c.getRamPaddr + ramsize.size ≤ paddr + ph.pMemsz then
        ⟨[], .error "Boot image contained segment that did not fit in RAM"⟩
      else
        let item : BootItem := .segment (paddr.toNat - c.getRamPaddr.toNat) ph.pMemsz.toNat
        let fromFile : RamWrite :=
          ⟨item, paddr.toNat - c.getRamPaddr.toNat, ph.data image⟩
        if (ph.data image).length < ph.filesz.toNat then ⟨[fromFile], .error unexpectedEof⟩
        else
          let paddr := paddr + ph.filesz
          let zeros := List.replicate (ph.pMemsz - ph.filesz).toNat 0
          ⟨[fromFile, ⟨item, paddr.toNat - c.getRamPaddr.toNat, zeros⟩], .ok ()⟩

/-- The turns for the headers from one on. -/
def loadSegments (c : BootCpu) (ramsize : Ramsize) (image : List (BitVec 8)) (eh : ElfEhdr) :
    Nat → BitVec 32 → Boot Unit
  | 0, _ => ⟨[], .ok ()⟩
  | n + 1, i =>
    match readPhdr c image (eh.ePhoff + i * eh.ePhentsize.setWidth 32) with
    | .error e => ⟨[], .error e⟩
    | .ok ph =>
      let b := loadSegment c ramsize image ph
      match b.result with
      | .error e => ⟨b.writes, .error e⟩
      | .ok () =>
        let rest := loadSegments c ramsize image eh n (i + 1)
        ⟨b.writes ++ rest.writes, rest.result⟩

/-- `load_elf`, with the entry point. -/
def loadElf (c : BootCpu) (ramsize : Ramsize) (image : List (BitVec 8)) : Boot (BitVec 32) :=
  match readEhdr c image with
  | .error e => ⟨[], .error e⟩
  | .ok eh =>
    let b := loadSegments c ramsize image eh eh.ePhnum.toNat 0
    ⟨b.writes, b.result.map fun _ => eh.eEntry⟩

/-- `setstack`, with the stack pointer and the address of the argument. -/
def setstack (c : BootCpu) (ramsize : Ramsize) (argument : List (BitVec 8)) :
    Boot (BitVec 32 × BitVec 32) :=
  let size := BitVec.ofNat 32 (argument.length + 1)
  -- align size upwards
  let size := (size + 3) &&& ~~~3
  let paddr := c.getRamPaddr + ramsize.size - size
  let copy : RamWrite :=
    ⟨.argument (argument.length + 1), paddr.toNat - c.getRamPaddr.toNat, argument ++ [0]⟩
  match c.getLoadVaddr paddr size with
  | none => ⟨[copy], .error "setstack: could not get initial stack vaddr"⟩
  | some vaddr => ⟨[copy], .ok (vaddr - 4, vaddr)⟩

end Sys161.Bus
