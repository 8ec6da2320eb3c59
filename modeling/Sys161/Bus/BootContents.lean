import Sys161.Bus.BootEntry
import Sys161.Lib.Buffer

/-!
# What the kernel finds

The loader's writes are put into RAM one after another, and RAM is compared with the
image: what a segment's header says is in a cell, the argument at the end, and everything
else as it was. The first cpu is at the entry of the image, if it can execute there.
-/

namespace Sys161.Bus

set_option autoImplicit false

/-! ## Loading -/

/-- What `load_kernel` sets in the first cpu. -/
structure BootRegs where
  entry : BootEntry
  stackaddr : BitVec 32
  argument : BitVec 32
deriving DecidableEq

/-- The image is the file, or the host's words for why it cannot be opened. -/
def loadKernel (core : Core) (ramsize : Ramsize) (name : String)
    (image : Except String (List (BitVec 8))) (argument : List (BitVec 8)) : Boot BootRegs :=
  match image with
  | .error e => ⟨[], .error s!"Cannot open boot image {name}: {e}"⟩
  | .ok image =>
    let b := loadElf core.bootCpu ramsize image
    match b.result with
    | .error e => ⟨b.writes, .error e⟩
    | .ok eEntry =>
      match core.setEntrypoint ramsize eEntry with
      -- this is for the model only: see `setEntrypoint_eq`
      | none => ⟨b.writes, .error "cpu_set_entrypoint does not return"⟩
      | some entry =>
        let s := setstack core.bootCpu ramsize argument
        ⟨b.writes ++ s.writes, s.result.map fun (stackaddr, addr) => ⟨entry, stackaddr, addr⟩⟩

/-- RAM by the distance from its start, with what is written into it. -/
def Boot.ram {α : Type} (b : Boot α) (ram : Nat → BitVec 8) : Nat → BitVec 8 :=
  Buffer.stores ram (b.writes.map fun w => (w.offset.toNat, w.bytes))

/-! ## What the image says -/

/-- The byte at a distance from the start of RAM, where it belongs to the segment: from the file, or
zero behind the part that the file has. -/
def ElfPhdr.byteAt (ph : ElfPhdr) (c : BootCpu) (image : List (BitVec 8)) (k : Nat) :
    Option (BitVec 8) :=
  if ph.pType ≠ ptLoad then none
  else
    match c.getLoadPaddr ph.pVaddr ph.pMemsz with
    | none => none
    | some paddr =>
      let start := paddr.toNat - c.getRamPaddr.toNat
      if start ≤ k ∧ k < start + ph.pMemsz.toNat then
        some (if k - start < ph.pFilesz.toNat then image.getD (ph.pOffset.toNat + (k - start)) 0
          else 0)
      else none

/-- These are the headers from one on. -/
def HeadersFrom (c : BootCpu) (image : List (BitVec 8)) (eh : ElfEhdr) (i : BitVec 32)
    (phs : List ElfPhdr) : Prop :=
  ∀ j, (h : j < phs.length) →
    readPhdr c image (eh.ePhoff + (i + BitVec.ofNat 32 j) * eh.ePhentsize.setWidth 32) = .ok phs[j]

/-- The image has all its headers, and every segment passes the checks. -/
structure Loadable (c : BootCpu) (r : Ramsize) (image : List (BitVec 8)) (eh : ElfEhdr)
    (phs : List ElfPhdr) : Prop where
  ehdr : readEhdr c image = .ok eh
  count : phs.length = eh.ePhnum.toNat
  phdrs : HeadersFrom c image eh 0 phs
  passes : ∀ ph ∈ phs, ph.passes c r image = true

/-- Where the argument is, counted from the start of RAM: at the last word that leaves room. -/
def argumentStart (r : Ramsize) (argument : List (BitVec 8)) : Nat :=
  r.size.toNat - (argument.length + 1 + 3) / 4 * 4

/-- A cell of RAM when the kernel starts. The last segment in the image wins, and the argument over
all segments. -/
def loadedByte (c : BootCpu) (r : Ramsize) (image argument : List (BitVec 8)) (phs : List ElfPhdr)
    (ram : Nat → BitVec 8) (k : Nat) : BitVec 8 :=
  match Buffer.cell (argumentStart r argument) (argument ++ [0]) k with
  | some byte => byte
  | none => (phs.reverse.findSome? fun ph => ph.byteAt c image k).getD (ram k)

/-! ## One segment -/

theorem headersFrom_nil (c : BootCpu) (image : List (BitVec 8)) (eh : ElfEhdr) (i : BitVec 32) :
    HeadersFrom c image eh i [] :=
  fun _ h => absurd h (Nat.not_lt_zero _)

theorem headersFrom_cons {c : BootCpu} {image : List (BitVec 8)} {eh : ElfEhdr} {i : BitVec 32}
    {ph : ElfPhdr} {phs : List ElfPhdr} :
    HeadersFrom c image eh i (ph :: phs) ↔
      readPhdr c image (eh.ePhoff + i * eh.ePhentsize.setWidth 32) = .ok ph ∧
        HeadersFrom c image eh (i + 1) phs := by
  have hNext (j : Nat) : i + 1 + BitVec.ofNat 32 j = i + BitVec.ofNat 32 (j + 1) := by
    rw [BitVec.add_assoc, BitVec.add_comm 1, BitVec.ofNat_add]
    rfl
  constructor
  · intro h
    constructor
    · have hHead := h 0 (Nat.zero_lt_succ _)
      rwa [BitVec.add_zero] at hHead
    · intro j hj
      rw [hNext]
      exact h (j + 1) (Nat.succ_lt_succ hj)
  · rintro ⟨hHead, hTail⟩ j hj
    cases j with
    | zero =>
      rw [BitVec.add_zero]
      exact hHead
    | succ j =>
      rw [← hNext]
      exact hTail j (Nat.lt_of_succ_lt_succ hj)

section

variable {c : BootCpu} {r : Ramsize} {image : List (BitVec 8)} {ph : ElfPhdr}

/-- What is put into a cell by these writes. -/
def lastByte (writes : List RamWrite) (k : Nat) : Option (BitVec 8) :=
  writes.reverse.findSome? fun w => Buffer.cell w.offset.toNat w.bytes k

theorem Boot.ram_eq {α : Type} (b : Boot α) (ram : Nat → BitVec 8) (k : Nat) :
    b.ram ram k = (lastByte b.writes k).getD (ram k) := by
  rw [Boot.ram, Buffer.stores_eq, ← List.map_reverse, List.findSome?_map]
  rfl

theorem lastByte_append (ws vs : List RamWrite) (k : Nat) :
    lastByte (ws ++ vs) k = (lastByte vs k).or (lastByte ws k) := by
  rw [lastByte, List.reverse_append, List.findSome?_append]
  rfl

theorem byteAt_of_skipped (h : ph.skipped = true) (k : Nat) : ph.byteAt c image k = none := by
  rw [ElfPhdr.byteAt, if_pos]
  intro hLoad
  rw [ElfPhdr.skipped, hLoad] at h
  exact absurd h (by decide)

/-- What the segment's two writes leave is what its header says. -/
theorem lastByte_segment {paddr : BitVec 32} (hc : c.Placed) (hPlaced : ph.PlacedAt c r paddr)
    (hFits : (ph.item c paddr).Fits r) (hWhole : ph.filesz.toNat ≤ image.length - ph.pOffset.toNat)
    (k : Nat) :
    lastByte [⟨ph.item c paddr, paddr.toNat - c.getRamPaddr.toNat, ph.data image⟩,
        ⟨ph.item c paddr, (paddr + ph.filesz).toNat - c.getRamPaddr.toNat,
          List.replicate (ph.pMemsz - ph.filesz).toNat 0⟩] k = ph.byteAt c image k := by
  have hLe := ph.filesz_le
  have hRam := hc.end_lt
  have hSize := r.toNat_le
  have hBase : c.getRamPaddr.toNat ≤ paddr.toNat := hc.base_le hPlaced.2.2.1
  have hEnd := (hPlaced.fits_iff hc).mp hFits
  have hZeros : (ph.pMemsz - ph.filesz).toNat = ph.pMemsz.toNat - ph.filesz.toNat :=
    BitVec.toNat_sub_of_le hLe
  have hSum : (paddr + ph.filesz).toNat = paddr.toNat + ph.filesz.toNat :=
    BitVec.toNat_add_of_lt (by omega)
  have hMin : ph.filesz.toNat = min ph.pFilesz.toNat ph.pMemsz.toNat := by
    rw [ElfPhdr.filesz]
    split
    · next hLt =>
      have hLtNat : ph.pMemsz.toNat < ph.pFilesz.toNat := hLt
      omega
    · next hGe =>
      have hGeNat : ph.pFilesz.toNat ≤ ph.pMemsz.toNat := BitVec.not_lt.mp hGe
      omega
  rw [ElfPhdr.byteAt, if_neg (not_not.mpr hPlaced.2.1), hPlaced.2.2.1]
  dsimp only
  generalize hStart : paddr.toNat - c.getRamPaddr.toNat = start
  have hFirst : ((paddr.toNat : Int) - c.getRamPaddr.toNat).toNat = start := by omega
  have hSecond : (((paddr + ph.filesz).toNat : Int) - c.getRamPaddr.toNat).toNat =
      start + ph.filesz.toNat := by omega
  have hData (h : k - start < ph.filesz.toNat) :
      (ph.data image)[k - start]? = some (image.getD (ph.pOffset.toNat + (k - start)) 0) := by
    have hIn : ph.pOffset.toNat + (k - start) < image.length := by omega
    rw [ElfPhdr.data, List.getElem?_take_of_lt h, List.getElem?_drop, List.getD_eq_getElem?_getD,
      List.getElem?_eq_getElem hIn]
    rfl
  have hShort (h : ¬ k - start < ph.filesz.toNat) : (ph.data image)[k - start]? = none := by
    rw [List.getElem?_eq_none_iff, ph.length_data]
    omega
  simp only [lastByte, List.reverse_cons, List.reverse_nil, List.nil_append, List.singleton_append,
    List.findSome?_cons, List.findSome?_nil, hFirst, hSecond, Buffer.cell, hZeros,
    List.getElem?_replicate]
  by_cases hBefore : start ≤ k
  · by_cases hFile : k - start < ph.filesz.toNat
    · rw [if_neg (by omega), if_pos hBefore, hData hFile, if_pos (by omega), if_pos (by omega)]
    · rw [if_pos (by omega), if_pos hBefore, hShort hFile]
      by_cases hIn : k < start + ph.pMemsz.toNat
      · rw [if_pos (by omega), if_pos (by omega), if_neg (by omega)]
      · rw [if_neg (by omega), if_neg (by omega)]
  · rw [if_neg (by omega), if_neg hBefore, if_neg (by omega)]

theorem loadSegment_contents (hc : c.Placed) (hOver : ¬ ph.Overruns c r image)
    (hOk : (loadSegment c r image ph).result = .ok ()) (k : Nat) :
    lastByte (loadSegment c r image ph).writes k = ph.byteAt c image k := by
  have hFitsAll := fits_of_accepted hc ((within_loadSegment hc).mpr hOver) hOk
  rcases loadSegment_cases c r image ph with
    ⟨hNone, hPasses, hNot⟩ | ⟨paddr, hPlaced, ⟨-, -, hEq⟩ | ⟨hWhole, -, hEq⟩⟩
  · rw [hNone]
    have hPass := hPasses.mp hOk
    rw [ElfPhdr.passes, Bool.or_eq_true] at hPass
    rcases hPass with hSkip | hPass
    · rw [byteAt_of_skipped hSkip]
      rfl
    · simp only [Bool.and_eq_true, beq_iff_eq] at hPass
      obtain ⟨⟨hLoad, hPlace⟩, -⟩ := hPass
      cases hPaddr : c.getLoadPaddr ph.pVaddr ph.pMemsz with
      | none =>
        rw [hPaddr] at hPlace
        cases hPlace
      | some paddr =>
        rw [hPaddr] at hPlace
        refine absurd ⟨?_, hLoad, hPaddr, of_decide_eq_true hPlace⟩ (hNot paddr)
        rw [ElfPhdr.skipped, hLoad]
        rfl
  · rw [hEq] at hOk
    cases hOk
  · rw [hEq] at hFitsAll ⊢
    exact lastByte_segment hc hPlaced (hFitsAll _ (List.mem_cons_self ..)) hWhole k

/-! ## The loop -/

theorem reachedFrom_eq {eh : ElfEhdr} {phs : List ElfPhdr} {i : BitVec 32}
    (hRead : HeadersFrom c image eh i phs) (hPasses : ∀ ph ∈ phs, ph.passes c r image = true) :
    reachedFrom c r image eh phs.length i = phs := by
  induction phs generalizing i with
  | nil => rfl
  | cons ph phs ih =>
    obtain ⟨hHead, hTail⟩ := headersFrom_cons.mp hRead
    obtain ⟨hPass, hRest⟩ := List.forall_mem_cons.mp hPasses
    rw [List.length_cons, reachedFrom, hHead]
    dsimp only
    rw [if_pos hPass, ih hTail hRest]

theorem loadSegments_ok_iff (eh : ElfEhdr) (n : Nat) (i : BitVec 32) :
    (loadSegments c r image eh n i).result = .ok () ↔
      ∃ phs, phs.length = n ∧ HeadersFrom c image eh i phs ∧
        ∀ ph ∈ phs, ph.passes c r image = true := by
  induction n generalizing i with
  | zero =>
    refine iff_of_true rfl ⟨[], rfl, headersFrom_nil c image eh i, ?_⟩
    intro ph hPh
    cases hPh
  | succ n ih =>
    rw [loadSegments]
    constructor
    · intro h
      split at h
      · cases h
      · next ph hRead =>
        dsimp only at h
        split at h
        · cases h
        · next hSegment =>
          obtain ⟨phs, hLength, hTail, hPasses⟩ := (ih (i + 1)).mp h
          refine ⟨ph :: phs, congrArg Nat.succ hLength, headersFrom_cons.mpr ⟨hRead, hTail⟩, ?_⟩
          exact List.forall_mem_cons.mpr ⟨loadSegment_ok_iff.mp hSegment, hPasses⟩
    · rintro ⟨phs, hLength, hRead, hPasses⟩
      cases phs with
      | nil => cases hLength
      | cons ph phs =>
        obtain ⟨hHead, hTail⟩ := headersFrom_cons.mp hRead
        obtain ⟨hPass, hRest⟩ := List.forall_mem_cons.mp hPasses
        rw [hHead]
        dsimp only
        rw [loadSegment_ok_iff.mpr hPass]
        exact (ih (i + 1)).mpr ⟨phs, Nat.succ.inj hLength, hTail, hRest⟩

theorem loadSegments_contents (hc : c.Placed) {eh : ElfEhdr} {phs : List ElfPhdr} {i : BitVec 32}
    (hRead : HeadersFrom c image eh i phs) (hPasses : ∀ ph ∈ phs, ph.passes c r image = true)
    (hOver : ∀ ph ∈ phs, ¬ ph.Overruns c r image) (k : Nat) :
    lastByte (loadSegments c r image eh phs.length i).writes k =
      phs.reverse.findSome? fun ph => ph.byteAt c image k := by
  induction phs generalizing i with
  | nil => rfl
  | cons ph phs ih =>
    obtain ⟨hHead, hTail⟩ := headersFrom_cons.mp hRead
    obtain ⟨hPass, hRest⟩ := List.forall_mem_cons.mp hPasses
    obtain ⟨hFits, hFitsRest⟩ := List.forall_mem_cons.mp hOver
    have hOk := loadSegment_ok_iff.mpr hPass
    rw [List.length_cons, loadSegments, hHead]
    dsimp only
    rw [hOk]
    dsimp only
    rw [lastByte_append, ih hTail hRest hFitsRest, loadSegment_contents hc hFits hOk,
      List.reverse_cons, List.findSome?_append]
    simp

/-! ## The argument -/

/-- The room for the argument, as `setstack` counts it. -/
def alignedSize (argument : List (BitVec 8)) : BitVec 32 :=
  (BitVec.ofNat 32 (argument.length + 1) + 3) &&& ~~~3

/-- What is common to the cpus: RAM can be addressed, and the loader's address is the one that is
translated back. -/
structure BootCpu.Addressed (c : BootCpu) : Prop where
  placed : c.Placed
  vaddr : ∀ {paddr size : BitVec 32}, c.getRamPaddr.toNat ≤ paddr.toNat →
    paddr.toNat + size.toNat ≤ c.getRamPaddr.toNat + maxmem.toNat →
      ∃ vaddr, c.getLoadVaddr paddr size = some vaddr ∧ c.getLoadPaddr vaddr size = some paddr

variable {argument : List (BitVec 8)}

theorem toNat_alignedSize (hArg : argument.length + 1 ≤ r.size.toNat) :
    (alignedSize argument).toNat = (argument.length + 1 + 3) / 4 * 4 := by
  have hSize := r.toNat_le
  have hMaxmem : maxmem.toNat = 0x1000000 := rfl
  have hWord := PageBits.toNat_word (BitVec.ofNat 32 (argument.length + 1) + 3)
  rw [BitVec.toNat_add, BitVec.toNat_ofNat] at hWord
  have hThree : (3 : BitVec 32).toNat = 3 := rfl
  have hMask : (~~~3 : BitVec 32) = 0xfffffffc := rfl
  rw [alignedSize, hMask, hWord]
  omega

theorem toNat_argumentAddr (hc : c.Placed) (hArg : argument.length + 1 ≤ r.size.toNat) :
    (c.getRamPaddr + r.size - alignedSize argument).toNat =
      c.getRamPaddr.toNat + argumentStart r argument := by
  have hRam := hc.end_lt
  have hSize := r.toNat_le
  have hPage := r.toNat_mod
  have hAligned := toNat_alignedSize hArg
  rw [BitVec.toNat_sub_of_le, BitVec.toNat_add_of_lt (by omega), hAligned, argumentStart]
  · omega
  · rw [BitVec.le_def, BitVec.toNat_add_of_lt (by omega), hAligned]
    omega

theorem setstack_spec (hc : c.Addressed) (hArg : argument.length + 1 ≤ r.size.toNat) :
    (∀ k, lastByte (setstack c r argument).writes k =
        Buffer.cell (argumentStart r argument) (argument ++ [0]) k) ∧
      ∃ vaddr paddr, (setstack c r argument).result = .ok (vaddr - 4, vaddr) ∧
        c.getLoadPaddr vaddr (alignedSize argument) = some paddr ∧
        paddr.toNat = c.getRamPaddr.toNat + argumentStart r argument := by
  have hSize := r.toNat_le
  have hPage := r.toNat_mod
  have hAligned := toNat_alignedSize hArg
  have hAddr := toNat_argumentAddr hc.placed hArg
  have hStart : argumentStart r argument + (alignedSize argument).toNat = r.size.toNat := by
    rw [argumentStart]
    omega
  obtain ⟨vaddr, hVaddr, hPaddr⟩ : ∃ vaddr,
      c.getLoadVaddr (c.getRamPaddr + r.size - alignedSize argument) (alignedSize argument) =
        some vaddr ∧
      c.getLoadPaddr vaddr (alignedSize argument) =
        some (c.getRamPaddr + r.size - alignedSize argument) := hc.vaddr (by omega) (by omega)
  have hEq : setstack c r argument = ⟨[⟨.argument (argument.length + 1),
      (c.getRamPaddr + r.size - alignedSize argument).toNat - c.getRamPaddr.toNat,
      argument ++ [0]⟩], .ok (vaddr - 4, vaddr)⟩ := by
    rw [setstack]
    change (match c.getLoadVaddr (c.getRamPaddr + r.size - alignedSize argument)
      (alignedSize argument) with | none => _ | some vaddr => _) = _
    rw [hVaddr]
    rfl
  rw [hEq]
  constructor
  · intro k
    have hOffset : (((c.getRamPaddr + r.size - alignedSize argument).toNat : Int) -
        c.getRamPaddr.toNat).toNat = argumentStart r argument := by omega
    rw [lastByte, List.reverse_singleton, List.findSome?_singleton, hOffset]
  · exact ⟨vaddr, _, rfl, hPaddr, hAddr⟩

/-! ## The kernel -/

/-- The kernel is in RAM, and the first cpu is set to start it. -/
structure Booted (core : Core) (r : Ramsize) (image argument : List (BitVec 8)) (eh : ElfEhdr)
    (phs : List ElfPhdr) (b : Boot BootRegs) (regs : BootRegs) : Prop where
  entry : regs.entry = core.enters r eh.eEntry
  stack : regs.stackaddr = regs.argument - 4
  addr : ∃ paddr, core.bootCpu.getLoadPaddr regs.argument (alignedSize argument) = some paddr ∧
    paddr.toNat = core.bootCpu.getRamPaddr.toNat + argumentStart r argument
  ram : ∀ ram k, b.ram ram k = loadedByte core.bootCpu r image argument phs ram k

/-- The cpu can execute at the entry as the image gives it. -/
def Core.CanStart (core : Core) (r : Ramsize) (eh : ElfEhdr) : Prop :=
  eh.eEntry &&& core.alignmask = eh.eEntry ∧ core.Enterable r eh.eEntry

theorem loadElf_ok_iff {entry : BitVec 32} :
    (loadElf c r image).result = .ok entry ↔
      ∃ eh phs, Loadable c r image eh phs ∧ eh.eEntry = entry := by
  rw [loadElf]
  constructor
  · intro h
    split at h
    · cases h
    · next eh hEhdr =>
      obtain ⟨⟨⟩, hSegments, hEntry⟩ := map_eq_ok h
      obtain ⟨phs, hCount, hPhdrs, hPasses⟩ := (loadSegments_ok_iff ..).mp hSegments
      exact ⟨eh, phs, ⟨hEhdr, hCount, hPhdrs, hPasses⟩, hEntry⟩
  · rintro ⟨eh, phs, hLoadable, rfl⟩
    rw [hLoadable.ehdr]
    dsimp only
    rw [(loadSegments_ok_iff ..).mpr ⟨phs, hLoadable.count, hLoadable.phdrs, hLoadable.passes⟩]
    rfl

theorem Loadable.contents (hc : c.Placed) {eh : ElfEhdr} {phs : List ElfPhdr}
    (h : Loadable c r image eh phs)
    (hOver : ∀ ph ∈ reachedHeaders c r image, ¬ ph.Overruns c r image) (k : Nat) :
    lastByte (loadElf c r image).writes k =
      phs.reverse.findSome? fun ph => ph.byteAt c image k := by
  rw [reachedHeaders, h.ehdr] at hOver
  dsimp only at hOver
  rw [← h.count, reachedFrom_eq h.phdrs h.passes] at hOver
  rw [loadElf, h.ehdr]
  dsimp only
  rw [← h.count]
  exact loadSegments_contents hc h.phdrs h.passes hOver k

variable {core : Core} {name : String}

theorem booted (hc : core.bootCpu.Addressed)
    (hOver : ∀ ph ∈ reachedHeaders core.bootCpu r image, ¬ ph.Overruns core.bootCpu r image)
    (hArg : argument.length + 1 ≤ r.size.toNat) {eh : ElfEhdr} {phs : List ElfPhdr}
    (h : Loadable core.bootCpu r image eh phs) :
    ∃ regs, (loadKernel core r name (.ok image) argument).result = .ok regs ∧
      Booted core r image argument eh phs (loadKernel core r name (.ok image) argument) regs := by
  obtain ⟨hStack, vaddr, paddr, hResult, hPaddr, hAddr⟩ := setstack_spec hc hArg
  have hElf := loadElf_ok_iff.mpr ⟨eh, phs, h, rfl⟩
  have hEq : loadKernel core r name (.ok image) argument =
      ⟨(loadElf core.bootCpu r image).writes ++ (setstack core.bootCpu r argument).writes,
        .ok ⟨core.enters r eh.eEntry, vaddr - 4, vaddr⟩⟩ := by
    rw [loadKernel]
    dsimp only
    rw [hElf]
    dsimp only
    rw [setEntrypoint_eq]
    dsimp only
    rw [hResult]
    rfl
  rw [hEq]
  refine ⟨_, rfl, rfl, rfl, ⟨paddr, hPaddr, hAddr⟩, ?_⟩
  intro ram k
  rw [Boot.ram_eq, lastByte_append, hStack, h.contents hc.placed hOver, loadedByte]
  cases Buffer.cell (argumentStart r argument) (argument ++ [0]) k <;> rfl

theorem loadable_of_ok {regs : BootRegs}
    (h : (loadKernel core r name (.ok image) argument).result = .ok regs) :
    ∃ eh phs, Loadable core.bootCpu r image eh phs := by
  rw [loadKernel] at h
  dsimp only at h
  split at h
  · cases h
  · next entry hElf =>
    obtain ⟨eh, phs, hLoadable, -⟩ := loadElf_ok_iff.mp hElf
    exact ⟨eh, phs, hLoadable⟩

end

/-! ## The two cpus -/

theorem mips_addressed : Mips.bootCpu.Addressed where
  placed := mips_placed
  vaddr {paddr size} _ hEnd := by
    have hMaxmem : maxmem.toNat = 0x1000000 := rfl
    have hBase : Mips.bootCpu.getRamPaddr.toNat = 0 := rfl
    have hKseg0 : Mips.kseg0.toNat = 0x80000000 := rfl
    have hKseg1 : Mips.kseg1.toNat = 0xa0000000 := rfl
    have hKseg2 : Mips.kseg2.toNat = 0xc0000000 := rfl
    have hSpan : (Mips.kseg2 - Mips.kseg0).toNat = 0x40000000 := rfl
    have hSpan0 : (Mips.kseg1 - Mips.kseg0).toNat = 0x20000000 := rfl
    have hZero : (0 : BitVec 32).toNat = 0 := rfl
    have hNone : Mips.kseg1 - Mips.kseg0 - 0 = Mips.kseg1 - Mips.kseg0 := rfl
    have hVaddr : (paddr + Mips.kseg0).toNat = paddr.toNat + 0x80000000 := by
      rw [BitVec.toNat_add_of_lt (by omega), hKseg0]
    have hIn : between paddr size 0 (Mips.kseg1 - Mips.kseg0) = true := by
      rw [between_iff, BitVec.le_def, BitVec.le_def, BitVec.lt_def,
        BitVec.toNat_add_of_lt (by omega), hNone]
      omega
    have hBack : between (paddr + Mips.kseg0) size Mips.kseg0 Mips.kseg2 = true := by
      have hEnds : (paddr + Mips.kseg0 + size).toNat = paddr.toNat + 0x80000000 + size.toNat := by
        rw [BitVec.toNat_add_of_lt (by omega), hVaddr]
      rw [between_iff, BitVec.le_def, BitVec.le_def, BitVec.lt_def, hEnds, hVaddr]
      omega
    have hLow : ¬ Mips.kseg1 ≤ paddr + Mips.kseg0 := by
      rw [BitVec.le_def]
      omega
    refine ⟨paddr + Mips.kseg0, ?_, ?_⟩
    · exact if_neg (by rw [hIn]; decide)
    · simp [Mips.bootCpu, hBack, hLow]

theorem riscv_addressed : Riscv.bootCpu.Addressed where
  placed := riscv_placed
  vaddr {paddr size} hStart hEnd := by
    have hMaxmem : maxmem.toNat = 0x1000000 := rfl
    have hBase : Riscv.bootCpu.getRamPaddr.toNat = 0xc0000000 := rfl
    have hRambase : Riscv.paddrRambase.toNat = 0xc0000000 := rfl
    have hRombase : Riscv.paddrRombase.toNat = 0xffc00000 := rfl
    have hSpan : (Riscv.paddrRombase - Riscv.paddrRambase).toNat = 0x3fc00000 := rfl
    have hIn : between paddr size Riscv.paddrRambase Riscv.paddrRombase = true := by
      rw [between_iff, BitVec.le_def, BitVec.le_def, BitVec.lt_def,
        BitVec.toNat_add_of_lt (by omega)]
      omega
    refine ⟨paddr, ?_, ?_⟩
    · simp [Riscv.bootCpu, hIn]
    · simp [Riscv.bootCpu, hIn]

/-- Everything that `booted` asks of the cpu and the image. -/
theorem Core.boots {core : Core} {r : Ramsize} {image argument : List (BitVec 8)}
    (hWrap : core = .riscv → ∀ ph ∈ reachedHeaders Riscv.bootCpu r image, ¬ ph.WrapsAround image)
    (hArg : argument.length + 1 ≤ r.size.toNat) (name : String) {eh : ElfEhdr} {phs : List ElfPhdr}
    (h : Loadable core.bootCpu r image eh phs) :
    ∃ regs, (loadKernel core r name (.ok image) argument).result = .ok regs ∧
      Booted core r image argument eh phs (loadKernel core r name (.ok image) argument) regs := by
  cases core with
  | mips =>
    have hCpu : Core.mips.bootCpu.Addressed := mips_addressed
    exact booted hCpu (fun _ _ => mips_not_overruns) hArg h
  | riscv =>
    have hCpu : Core.riscv.bootCpu.Addressed := riscv_addressed
    refine booted hCpu (fun ph hPh hOver => ?_) hArg h
    exact hWrap rfl ph hPh (riscv_overruns_iff.mp hOver)

/-- The kernel is loaded just where its image passes the checks; and then RAM holds in every cell
what the last of its segments there says, and at its end the argument, which is where the first cpu
is told that it is. That cpu starts without a hang just where it can execute at the entry of the
image, and then it is there. -/
theorem boot_contents {core : Core} {r : Ramsize} {image argument : List (BitVec 8)}
    (hWrap : core = .riscv → ∀ ph ∈ reachedHeaders Riscv.bootCpu r image, ¬ ph.WrapsAround image)
    (hArg : argument.length + 1 ≤ r.size.toNat) (name : String) :
    ((∃ regs, (loadKernel core r name (.ok image) argument).result = .ok regs) ↔
        ∃ eh phs, Loadable core.bootCpu r image eh phs) ∧
      ((∃ regs, (loadKernel core r name (.ok image) argument).result = .ok regs ∧
          regs.entry.hangs = []) ↔
        ∃ eh phs, Loadable core.bootCpu r image eh phs ∧ core.CanStart r eh) ∧
      ∀ eh phs regs, Loadable core.bootCpu r image eh phs →
        (loadKernel core r name (.ok image) argument).result = .ok regs →
          Booted core r image argument eh phs (loadKernel core r name (.ok image) argument) regs ∧
            (core.CanStart r eh → regs.entry.pc = eh.eEntry) := by
  have hBooted (eh : ElfEhdr) (phs : List ElfPhdr) (regs : BootRegs)
      (hLoadable : Loadable core.bootCpu r image eh phs)
      (hOk : (loadKernel core r name (.ok image) argument).result = .ok regs) :
      Booted core r image argument eh phs (loadKernel core r name (.ok image) argument) regs := by
    obtain ⟨regs', hOk', hBooted⟩ := core.boots hWrap hArg name hLoadable
    rw [hOk, Except.ok.injEq] at hOk'
    exact hOk' ▸ hBooted
  refine ⟨⟨?_, ?_⟩, ⟨?_, ?_⟩, ?_⟩
  · rintro ⟨regs, hOk⟩
    exact loadable_of_ok hOk
  · rintro ⟨eh, phs, hLoadable⟩
    obtain ⟨regs, hOk, -⟩ := core.boots hWrap hArg name hLoadable
    exact ⟨regs, hOk⟩
  · rintro ⟨regs, hOk, hHangs⟩
    obtain ⟨eh, phs, hLoadable⟩ := loadable_of_ok hOk
    rw [(hBooted eh phs regs hLoadable hOk).entry] at hHangs
    exact ⟨eh, phs, hLoadable, enters_hangs_eq_nil.mp hHangs⟩
  · rintro ⟨eh, phs, hLoadable, hStart⟩
    obtain ⟨regs, hOk, hAt⟩ := core.boots hWrap hArg name hLoadable
    refine ⟨regs, hOk, ?_⟩
    rw [hAt.entry]
    exact enters_hangs_eq_nil.mpr hStart
  · intro eh phs regs hLoadable hOk
    refine ⟨hBooted eh phs regs hLoadable hOk, ?_⟩
    rintro ⟨hAligned, hEnter⟩
    rw [(hBooted eh phs regs hLoadable hOk).entry, Core.enters, hAligned]
    exact if_pos hEnter

def be16 (v : BitVec 16) : List (BitVec 8) := (le16 v).reverse

def be32 (v : BitVec 32) : List (BitVec 8) := (le32 v).reverse

/-- A kernel for MIPS: a jump to itself, its delay slot, and eight zeros. -/
def haltImage : List (BitVec 8) :=
  [0x7f, 0x45, 0x4c, 0x46, 1, 2, 1, 0, 0, 0, 0, 0, 0, 0, 0, 0] ++ be16 2 ++ be16 8 ++ be32 1 ++
    be32 0x80000200 ++ be32 52 ++ be32 0 ++ be32 0 ++ be16 52 ++ be16 32 ++ be16 1 ++ be16 0 ++
    be16 0 ++ be16 0 ++
    (be32 1 ++ be32 84 ++ be32 0x80000200 ++ be32 0 ++ be32 8 ++ be32 16 ++ be32 7 ++ be32 4) ++
    (be32 0x08000080 ++ be32 0)

def haltPhdr : ElfPhdr := ⟨1, 84, 0x80000200, 8, 16⟩

theorem boot_contents_halt : ∃ regs,
    (loadKernel .mips onePage "kernel" (.ok haltImage) [0x78]).result = .ok regs ∧
      regs.entry = ⟨0x80000200, []⟩ ∧
      ∀ ram, (loadKernel .mips onePage "kernel" (.ok haltImage) [0x78]).ram ram 0x200 = 8 := by
  have hLoadable : Loadable Mips.bootCpu onePage haltImage ⟨0x80000200, 52, 32, 1⟩ [haltPhdr] := by
    refine ⟨rfl, rfl, headersFrom_cons.mpr ⟨rfl, headersFrom_nil Mips.bootCpu _ _ _⟩, ?_⟩
    intro ph hPh
    obtain rfl := List.mem_singleton.mp hPh
    decide
  have hStart : Core.mips.CanStart onePage ⟨0x80000200, 52, 32, 1⟩ := ⟨by decide, by decide⟩
  obtain ⟨-, hStarts, hAll⟩ := @boot_contents .mips onePage haltImage [0x78]
    (fun h => by cases h) (by decide) "kernel"
  obtain ⟨regs, hOk, hHangs⟩ := hStarts.mpr ⟨_, _, hLoadable, hStart⟩
  obtain ⟨hBooted, hPc⟩ := hAll _ _ regs hLoadable hOk
  refine ⟨regs, hOk, congr (congrArg BootEntry.mk (hPc hStart)) hHangs, ?_⟩
  intro ram
  rw [hBooted.ram]
  rfl

end Sys161.Bus
