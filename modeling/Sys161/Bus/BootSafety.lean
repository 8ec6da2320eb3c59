import Sys161.Bus.Boot
import Sys161.Lib.PageBits

/-!
# Where the loader writes

A segment that passes the loader's checks is taken apart once, for any cpu; what
the checks of each cpu let through is looked at after that.
-/

namespace Sys161.Bus

set_option autoImplicit false

def RamWrite.Inside (w : RamWrite) (r : Ramsize) : Prop :=
  0 ≤ w.offset ∧ w.offset + w.bytes.length ≤ r.size.toNat

def BootItem.Fits (r : Ramsize) : BootItem → Prop
  | .segment offset memsz => 0 ≤ offset ∧ offset + memsz ≤ r.size.toNat
  | .argument size => size ≤ r.size.toNat

/-- Every byte lies in RAM and belongs to something that fits there. -/
def Within (r : Ramsize) (writes : List RamWrite) : Prop :=
  ∀ w ∈ writes, w.bytes ≠ [] → w.Inside r ∧ w.item.Fits r

/-- Nothing is written outside RAM, and nothing is written of what does not fit; nor is it
accepted. -/
structure Boot.Contained {α : Type} (r : Ramsize) (b : Boot α) : Prop where
  within : Within r b.writes
  rejected : ∀ a, b.result = .ok a → ∀ w ∈ b.writes, w.item.Fits r

theorem within_append {r : Ramsize} {l m : List RamWrite} :
    Within r (l ++ m) ↔ Within r l ∧ Within r m :=
  List.forall_mem_append

/-! ## Segments -/

section

variable {c : BootCpu} {r : Ramsize} {image : List (BitVec 8)} {ph : ElfPhdr}

/-- What is common to the cpus: RAM does not reach the end of the physical addresses, and no segment
is placed below it. -/
structure BootCpu.Placed (c : BootCpu) : Prop where
  end_lt : c.getRamPaddr.toNat + maxmem.toNat < 2 ^ 32
  base_le : ∀ {vaddr size paddr}, c.getLoadPaddr vaddr size = some paddr → c.getRamPaddr ≤ paddr

/-- The segment passes the checks of `load_elf` and is put at this address. -/
def ElfPhdr.PlacedAt (ph : ElfPhdr) (c : BootCpu) (r : Ramsize) (paddr : BitVec 32) : Prop :=
  ph.skipped = false ∧ ph.pType = ptLoad ∧ c.getLoadPaddr ph.pVaddr ph.pMemsz = some paddr ∧
    paddr + ph.pMemsz < c.getRamPaddr + r.size

/-- It does not fit there, and the file has something of it, or it is all zeros. -/
def ElfPhdr.Overruns (ph : ElfPhdr) (c : BootCpu) (r : Ramsize) (image : List (BitVec 8)) : Prop :=
  ∃ paddr, ph.PlacedAt c r paddr ∧
    c.getRamPaddr.toNat + r.size.toNat < paddr.toNat + ph.pMemsz.toNat ∧
    (ph.filesz = 0 ∨ ph.pOffset.toNat < image.length)

/-- Whether the loop goes on after the segment. -/
def ElfPhdr.passes (ph : ElfPhdr) (c : BootCpu) (r : Ramsize) (image : List (BitVec 8)) : Bool :=
  ph.skipped || (ph.pType == ptLoad &&
    (match c.getLoadPaddr ph.pVaddr ph.pMemsz with
      | none => false
      | some paddr => decide (paddr + ph.pMemsz < c.getRamPaddr + r.size)) &&
    decide (ph.filesz.toNat ≤ image.length - ph.pOffset.toNat))

theorem ElfPhdr.filesz_le (ph : ElfPhdr) : ph.filesz.toNat ≤ ph.pMemsz.toNat := by
  unfold ElfPhdr.filesz
  split
  · exact Nat.le_refl _
  · next hLe => exact BitVec.not_lt.mp hLe

theorem ElfPhdr.length_data (ph : ElfPhdr) (image : List (BitVec 8)) :
    (ph.data image).length = min ph.filesz.toNat (image.length - ph.pOffset.toNat) := by
  simp [ElfPhdr.data]

/-- The item of a segment at an address. -/
def ElfPhdr.item (ph : ElfPhdr) (c : BootCpu) (paddr : BitVec 32) : BootItem :=
  .segment (paddr.toNat - c.getRamPaddr.toNat) ph.pMemsz.toNat

theorem loadSegment_cases (c : BootCpu) (r : Ramsize) (image : List (BitVec 8)) (ph : ElfPhdr) :
    ((loadSegment c r image ph).writes = [] ∧
        ((loadSegment c r image ph).result = .ok () ↔ ph.passes c r image = true) ∧
        ∀ paddr, ¬ ph.PlacedAt c r paddr) ∨
      ∃ paddr, ph.PlacedAt c r paddr ∧
        ((image.length - ph.pOffset.toNat < ph.filesz.toNat ∧ ph.passes c r image = false ∧
            loadSegment c r image ph =
              ⟨[⟨ph.item c paddr, paddr.toNat - c.getRamPaddr.toNat, ph.data image⟩],
                .error unexpectedEof⟩) ∨
          (ph.filesz.toNat ≤ image.length - ph.pOffset.toNat ∧ ph.passes c r image = true ∧
            loadSegment c r image ph =
              ⟨[⟨ph.item c paddr, paddr.toNat - c.getRamPaddr.toNat, ph.data image⟩,
                ⟨ph.item c paddr, (paddr + ph.filesz).toNat - c.getRamPaddr.toNat,
                  List.replicate (ph.pMemsz - ph.filesz).toNat 0⟩], .ok ()⟩)) := by
  unfold loadSegment
  split
  · next hSkip =>
    refine .inl ⟨rfl, by simp [ElfPhdr.passes, hSkip], ?_⟩
    rintro paddr ⟨hNot, -⟩
    simp [hSkip] at hNot
  · next hSkip =>
    split
    · next hType =>
      refine .inl ⟨rfl, by simp [ElfPhdr.passes, hSkip, hType], ?_⟩
      rintro paddr ⟨-, hLoad, -⟩
      exact hType hLoad
    · next hType =>
      have hLoad : ph.pType = ptLoad := not_not.mp hType
      split
      · next hNone =>
        refine .inl ⟨rfl, by simp [ElfPhdr.passes, hSkip, hNone], ?_⟩
        rintro paddr ⟨-, -, hSome, -⟩
        simp [hNone] at hSome
      · next paddr hSome =>
        split
        · next hEnd =>
          refine .inl ⟨rfl, ?_, ?_⟩
          · have hNot := BitVec.not_lt.mpr hEnd
            simp [ElfPhdr.passes, hSkip, hSome, hNot]
          · rintro paddr' ⟨-, -, hSome', hLt⟩
            rw [hSome, Option.some.injEq] at hSome'
            subst hSome'
            exact BitVec.not_lt.mpr hEnd hLt
        · next hEnd =>
          have hLt := BitVec.not_le.mp hEnd
          refine .inr ⟨paddr, ⟨by simpa using hSkip, hLoad, hSome, hLt⟩, ?_⟩
          have hPasses : ph.passes c r image =
              decide (ph.filesz.toNat ≤ image.length - ph.pOffset.toNat) := by
            simp [ElfPhdr.passes, hSkip, hLoad, hSome, hLt]
          have hData := ph.length_data image
          split
          · next hShort =>
            refine .inl ⟨by omega, ?_, rfl⟩
            rw [hPasses, decide_eq_false_iff_not]
            omega
          · next hWhole =>
            refine .inr ⟨by omega, ?_, rfl⟩
            rw [hPasses, decide_eq_true_iff]
            omega

theorem Ramsize.toNat_le (r : Ramsize) : r.size.toNat ≤ maxmem.toNat := r.le

section Placed

variable {paddr : BitVec 32} (hc : c.Placed) (h : ph.PlacedAt c r paddr)

theorem ElfPhdr.inside_data (hFits : (ph.item c paddr).Fits r) :
    (RamWrite.mk (ph.item c paddr) (paddr.toNat - c.getRamPaddr.toNat) (ph.data image)).Inside r := by
  have hLe := ph.filesz_le
  have hData := ph.length_data image
  simp only [ElfPhdr.item, BootItem.Fits] at hFits
  simp only [RamWrite.Inside]
  omega

include hc h

theorem ElfPhdr.PlacedAt.fits_iff :
    (ph.item c paddr).Fits r ↔
      paddr.toNat + ph.pMemsz.toNat ≤ c.getRamPaddr.toNat + r.size.toNat := by
  obtain ⟨-, -, hLoad, -⟩ := h
  have hBase : c.getRamPaddr.toNat ≤ paddr.toNat := hc.base_le hLoad
  simp only [ElfPhdr.item, BootItem.Fits]
  omega

/-- A segment of no size fits where it is placed. -/
theorem ElfPhdr.PlacedAt.memsz_pos
    (hOver : c.getRamPaddr.toNat + r.size.toNat < paddr.toNat + ph.pMemsz.toNat) :
    0 < ph.pMemsz.toNat := by
  obtain ⟨-, -, -, hEnd⟩ := h
  have hRam := hc.end_lt
  have hSize := r.toNat_le
  rw [BitVec.lt_def, BitVec.toNat_add, BitVec.toNat_add] at hEnd
  omega

theorem ElfPhdr.PlacedAt.inside_zeros (hFits : (ph.item c paddr).Fits r) :
    (RamWrite.mk (ph.item c paddr) ((paddr + ph.filesz).toNat - c.getRamPaddr.toNat)
      (List.replicate (ph.pMemsz - ph.filesz).toNat 0)).Inside r := by
  have hLe := ph.filesz_le
  have hRam := hc.end_lt
  have hSize := r.toNat_le
  have hZeros : (ph.pMemsz - ph.filesz).toNat = ph.pMemsz.toNat - ph.filesz.toNat :=
    BitVec.toNat_sub_of_le hLe
  have hEnd := (h.fits_iff hc).mp hFits
  have hSum : (paddr + ph.filesz).toNat = paddr.toNat + ph.filesz.toNat :=
    BitVec.toNat_add_of_lt (by omega)
  simp only [ElfPhdr.item, BootItem.Fits] at hFits
  simp only [RamWrite.Inside, List.length_replicate, hZeros, hSum]
  omega

theorem ElfPhdr.PlacedAt.overruns_iff :
    ph.Overruns c r image ↔
      ¬ (ph.item c paddr).Fits r ∧ (ph.filesz = 0 ∨ ph.pOffset.toNat < image.length) := by
  rw [h.fits_iff hc, Nat.not_le]
  constructor
  · rintro ⟨paddr', ⟨-, -, hLoad, -⟩, hOver⟩
    rw [h.2.2.1, Option.some.injEq] at hLoad
    subst hLoad
    exact hOver
  · exact fun hOver => ⟨paddr, h, hOver⟩

end Placed

/-- What a segment writes lies in RAM just where the segment does not overrun it. -/
theorem within_loadSegment (hc : c.Placed) :
    Within r (loadSegment c r image ph).writes ↔ ¬ ph.Overruns c r image := by
  rcases loadSegment_cases c r image ph with
    ⟨hNone, -, hNot⟩ | ⟨paddr, hPlaced, ⟨hShort, -, hEq⟩ | ⟨hWhole, -, hEq⟩⟩
  · rw [hNone]
    refine iff_of_true (by simp [Within]) ?_
    rintro ⟨paddr, hPlaced, -⟩
    exact hNot paddr hPlaced
  · have hData := ph.length_data image
    rw [hEq, hPlaced.overruns_iff hc]
    simp only [Within, List.mem_singleton, forall_eq]
    by_cases hFits : (ph.item c paddr).Fits r
    · simp [hFits, ElfPhdr.inside_data hFits]
    · have hSome : ph.data image ≠ [] ↔ ph.pOffset.toNat < image.length := by
        rw [← List.length_pos_iff, hData]
        omega
      have hSize : ph.filesz ≠ 0#32 := by
        intro hZero
        simp [hZero] at hShort
      rw [hSome]
      simp only [hFits, hSize, and_false, imp_false, not_false_eq_true, true_and, BitVec.ofNat_eq_ofNat,
        false_or]
  · have hData := ph.length_data image
    rw [hEq, hPlaced.overruns_iff hc]
    by_cases hFits : (ph.item c paddr).Fits r
    · refine iff_of_true ?_ (fun hOver => hOver.1 hFits)
      intro w hw _
      rcases List.mem_pair.mp hw with rfl | rfl
      · exact ⟨ElfPhdr.inside_data hFits, hFits⟩
      · exact ⟨hPlaced.inside_zeros hc hFits, hFits⟩
    · have hPos := hPlaced.memsz_pos hc (by
        rw [hPlaced.fits_iff hc] at hFits
        omega)
      have hMore : ph.filesz = 0 ∨ ph.pOffset.toNat < image.length := by
        by_cases hZero : ph.filesz = 0
        · exact .inl hZero
        · have hSome : ph.filesz.toNat ≠ 0 := fun hEq => hZero (BitVec.eq_of_toNat_eq hEq)
          exact .inr (by omega)
      refine iff_of_false (fun hWithin => hFits ?_) (not_not.mpr ⟨hFits, hMore⟩)
      by_cases hZero : ph.filesz = 0
      · have hZeros := hWithin _ (List.mem_cons_of_mem _ (List.mem_singleton.mpr rfl))
        have hLeft : (ph.pMemsz - ph.filesz).toNat ≠ 0 := by
          rw [hZero]
          simpa using hPos.ne'
        exact (hZeros fun hNone => hLeft (List.replicate_eq_nil_iff _ |>.mp hNone)).2
      · have hFromFile := hWithin _ (List.mem_cons_self ..)
        refine (hFromFile ?_).2
        have hSome : ph.filesz.toNat ≠ 0 := fun hEq => hZero (BitVec.eq_of_toNat_eq hEq)
        rw [← List.length_pos_iff, hData]
        omega

/-- A segment that is accepted, though it does not fit, is written to. -/
theorem fits_of_accepted (hc : c.Placed) (hWithin : Within r (loadSegment c r image ph).writes)
    (hOk : (loadSegment c r image ph).result = .ok ()) :
    ∀ w ∈ (loadSegment c r image ph).writes, w.item.Fits r := by
  have hOver := (within_loadSegment hc).mp hWithin
  rcases loadSegment_cases c r image ph with
    ⟨hNone, -, -⟩ | ⟨paddr, hPlaced, ⟨-, -, hEq⟩ | ⟨hWhole, -, hEq⟩⟩
  · simp [hNone]
  · simp [hEq] at hOk
  · have hFits : (ph.item c paddr).Fits r := by
      by_contra hNot
      refine hOver ((hPlaced.overruns_iff hc).mpr ⟨hNot, ?_⟩)
      by_cases hZero : ph.filesz = 0
      · exact .inl hZero
      · have hSome : ph.filesz.toNat ≠ 0 := fun hEq => hZero (BitVec.eq_of_toNat_eq hEq)
        exact .inr (by omega)
    rw [hEq]
    simp [hFits]

/-! ## The loop -/

/-- The program headers that the loop comes to. -/
def reachedFrom (c : BootCpu) (r : Ramsize) (image : List (BitVec 8)) (eh : ElfEhdr) :
    Nat → BitVec 32 → List ElfPhdr
  | 0, _ => []
  | n + 1, i =>
    match readPhdr c image (eh.ePhoff + i * eh.ePhentsize.setWidth 32) with
    | .error _ => []
    | .ok ph => ph :: if ph.passes c r image then reachedFrom c r image eh n (i + 1) else []

/-- Those of an image. -/
def reachedHeaders (c : BootCpu) (r : Ramsize) (image : List (BitVec 8)) : List ElfPhdr :=
  match readEhdr c image with
  | .error _ => []
  | .ok eh => reachedFrom c r image eh eh.ePhnum.toNat 0

theorem loadSegment_ok_iff :
    (loadSegment c r image ph).result = .ok () ↔ ph.passes c r image = true := by
  rcases loadSegment_cases c r image ph with
    ⟨-, hOk, -⟩ | ⟨paddr, -, ⟨-, hPasses, hEq⟩ | ⟨-, hPasses, hEq⟩⟩
  · exact hOk
  · simp [hEq, hPasses]
  · simp [hEq, hPasses]

variable (image) in
theorem loadSegments_spec (hc : c.Placed) (eh : ElfEhdr) (n : Nat) (i : BitVec 32) :
    (Within r (loadSegments c r image eh n i).writes ↔
        ∀ ph ∈ reachedFrom c r image eh n i, ¬ ph.Overruns c r image) ∧
      (Within r (loadSegments c r image eh n i).writes →
        (loadSegments c r image eh n i).result = .ok () →
        ∀ w ∈ (loadSegments c r image eh n i).writes, w.item.Fits r) := by
  induction n generalizing i with
  | zero => simp [loadSegments, reachedFrom, Within]
  | succ n ih =>
    rw [loadSegments, reachedFrom]
    cases hRead : readPhdr c image (eh.ePhoff + i * eh.ePhentsize.setWidth 32) with
    | error e => simp [Within]
    | ok ph =>
      dsimp only
      cases hResult : (loadSegment c r image ph).result with
      | error e =>
        have hStops : ph.passes c r image = false := by
          rw [← Bool.not_eq_true, ← loadSegment_ok_iff, hResult]
          simp
        simp [hStops, within_loadSegment hc]
      | ok =>
        have hPasses := loadSegment_ok_iff.mp hResult
        obtain ⟨hRest, hRestFits⟩ := ih (i + 1)
        dsimp only
        rw [within_append, within_loadSegment hc, hRest, if_pos hPasses, List.forall_mem_cons]
        refine ⟨Iff.rfl, ?_⟩
        rintro ⟨hHead, hTail⟩ hOk
        rw [List.forall_mem_append]
        exact ⟨fits_of_accepted hc ((within_loadSegment hc).mpr hHead) hResult,
          hRestFits (hRest.mpr hTail) hOk⟩

theorem contained_loadElf_iff (hc : c.Placed) :
    (loadElf c r image).Contained r ↔ ∀ ph ∈ reachedHeaders c r image, ¬ ph.Overruns c r image := by
  unfold loadElf reachedHeaders
  cases hRead : readEhdr c image with
  | error e =>
    refine iff_of_true ⟨by simp [Within], by simp⟩ (by simp)
  | ok eh =>
    obtain ⟨hWithin, hFits⟩ := loadSegments_spec (r := r) image hc eh eh.ePhnum.toNat 0
    dsimp only
    rw [← hWithin]
    constructor
    · exact fun h => h.within
    · intro h
      refine ⟨h, ?_⟩
      intro entry hOk
      obtain ⟨⟨⟩, hSegments, -⟩ := map_eq_ok hOk
      exact hFits h hSegments

end

/-! ## The two cpus -/

section Cpus

variable {r : Ramsize} {image : List (BitVec 8)} {ph : ElfPhdr} {addr size base top : BitVec 32}

theorem between_iff : between addr size base top = true ↔
    base ≤ addr ∧ size ≤ top - base ∧ addr + size < top := by
  simp [between, and_assoc]

theorem mips_placed : Mips.bootCpu.Placed where
  end_lt := by decide
  base_le _ := Nat.zero_le _

theorem riscv_placed : Riscv.bootCpu.Placed where
  end_lt := by decide
  base_le {vaddr size paddr} h := by
    simp only [Riscv.bootCpu] at h
    split at h
    · cases h
    · next hBetween =>
      obtain rfl := Option.some.inj h
      have hRange : between vaddr size Riscv.paddrRambase Riscv.paddrRombase = true := by
        simpa using hBetween
      exact (between_iff.mp hRange).1

/-- What passes the checks on MIPS fits: the physical addresses are too small to wrap around. -/
theorem mips_not_overruns : ¬ ph.Overruns Mips.bootCpu r image := by
  rintro ⟨paddr, ⟨-, -, hLoad, hEnd⟩, hOver, -⟩
  simp only [Mips.bootCpu] at hLoad hEnd hOver
  simp only [BitVec.ofNat_eq_ofNat, BitVec.zero_add, BitVec.lt_def, BitVec.toNat_add] at hEnd
  split at hLoad
  · cases hLoad
  · next hBetween =>
    obtain ⟨hBase, hSize, -⟩ := between_iff.mp (by simpa using hBetween)
    have hBaseNat : Mips.kseg0.toNat ≤ ph.pVaddr.toNat := hBase
    have hSizeNat : ph.pMemsz.toNat ≤ (Mips.kseg2 - Mips.kseg0).toNat := hSize
    have hVaddr := ph.pVaddr.isLt
    have hKseg0 : Mips.kseg0.toNat = 0x80000000 := rfl
    have hKseg1 : Mips.kseg1.toNat = 0xa0000000 := rfl
    have hSpan : (Mips.kseg2 - Mips.kseg0).toNat = 0x40000000 := rfl
    have hZero : (0 : BitVec 32).toNat = 0 := rfl
    split at hLoad
    · next hHigh =>
      obtain rfl := Option.some.inj hLoad
      have hSub : (ph.pVaddr - Mips.kseg1).toNat = ph.pVaddr.toNat - Mips.kseg1.toNat :=
        BitVec.toNat_sub_of_le hHigh
      omega
    · next hLow =>
      obtain rfl := Option.some.inj hLoad
      have hSub : (ph.pVaddr - Mips.kseg0).toNat = ph.pVaddr.toNat - Mips.kseg0.toNat :=
        BitVec.toNat_sub_of_le hBase
      have hLowNat := BitVec.lt_def.mp (BitVec.not_le.mp hLow)
      omega

/-- On RISC-V the segment starts in the range for kernels, its size is no larger than the range, its
end lies beyond the last address, and the file has something of it, or it is all zeros. -/
def ElfPhdr.WrapsAround (ph : ElfPhdr) (image : List (BitVec 8)) : Prop :=
  ph.pType = ptLoad ∧ Riscv.paddrRambase ≤ ph.pVaddr ∧
    ph.pMemsz ≤ Riscv.paddrRombase - Riscv.paddrRambase ∧
    2 ^ 32 ≤ ph.pVaddr.toNat + ph.pMemsz.toNat ∧
    (ph.filesz = 0 ∨ ph.pOffset.toNat < image.length)

theorem riscv_overruns_iff : ph.Overruns Riscv.bootCpu r image ↔ ph.WrapsAround image := by
  have hVaddr := ph.pVaddr.isLt
  have hRamsize := r.toNat_le
  have hMaxmem : maxmem.toNat = 0x1000000 := rfl
  have hBaseEq : Riscv.paddrRambase.toNat = 0xc0000000 := rfl
  have hTopEq : Riscv.paddrRombase.toNat = 0xffc00000 := rfl
  have hSpan : (Riscv.paddrRombase - Riscv.paddrRambase).toNat = 0x3fc00000 := rfl
  have hEnd : (Riscv.paddrRambase + r.size).toNat = 0xc0000000 + r.size.toNat := by
    rw [BitVec.toNat_add_of_lt (by omega), hBaseEq]
  constructor
  · rintro ⟨paddr, ⟨-, hType, hLoad, hLt⟩, hOver, hSome⟩
    simp only [Riscv.bootCpu] at hLoad hLt hOver
    split at hLoad
    · cases hLoad
    · next hBetween =>
      obtain rfl := Option.some.inj hLoad
      obtain ⟨hBase, hSize, -⟩ := between_iff.mp (by simpa using hBetween)
      refine ⟨hType, hBase, hSize, ?_, hSome⟩
      rw [BitVec.lt_def, BitVec.toNat_add, hEnd] at hLt
      omega
  · rintro ⟨hType, hBase, hSize, hWrap, hSome⟩
    have hBaseNat : Riscv.paddrRambase.toNat ≤ ph.pVaddr.toNat := hBase
    have hSizeNat : ph.pMemsz.toNat ≤ (Riscv.paddrRombase - Riscv.paddrRambase).toNat := hSize
    have hSum : (ph.pVaddr + ph.pMemsz).toNat = ph.pVaddr.toNat + ph.pMemsz.toNat - 2 ^ 32 := by
      rw [BitVec.toNat_add]
      omega
    have hBetween : between ph.pVaddr ph.pMemsz Riscv.paddrRambase Riscv.paddrRombase = true := by
      rw [between_iff, BitVec.lt_def, hSum]
      exact ⟨hBase, hSize, by omega⟩
    refine ⟨ph.pVaddr, ⟨?_, hType, ?_, ?_⟩, ?_, hSome⟩
    · rw [ElfPhdr.skipped, hType]
      rfl
    · simp [Riscv.bootCpu, hBetween]
    · simp only [Riscv.bootCpu]
      rw [BitVec.lt_def, hSum, hEnd]
      omega
    · simp only [Riscv.bootCpu]
      omega

/-! ## The argument -/

theorem Ramsize.toNat_mod (r : Ramsize) : r.size.toNat % 4096 = 0 := by
  rw [← PageBits.toNat_offset, r.page]
  rfl

/-- The argument is copied before anything is checked. -/
theorem contained_setstack_iff {c : BootCpu} (hc : c.Placed) (argument : List (BitVec 8)) :
    (setstack c r argument).Contained r ↔ argument.length + 1 ≤ r.size.toNat := by
  have hWrites : (setstack c r argument).writes =
      [⟨.argument (argument.length + 1),
        (c.getRamPaddr + r.size -
            ((BitVec.ofNat 32 (argument.length + 1) + 3) &&& ~~~3)).toNat - c.getRamPaddr.toNat,
        argument ++ [0]⟩] := by
    unfold setstack
    dsimp only
    split <;> rfl
  constructor
  · intro h
    have hWithin := h.within
    rw [hWrites] at hWithin
    exact (hWithin _ (List.mem_singleton.mpr rfl) (by simp)).2
  · intro hShort
    have hRam := hc.end_lt
    have hSize := r.toNat_le
    have hPage := r.toNat_mod
    have hMaxmem : maxmem.toNat = 0x1000000 := rfl
    have hAligned : ((BitVec.ofNat 32 (argument.length + 1) + 3) &&& ~~~3).toNat =
        (argument.length + 1 + 3) / 4 * 4 := by
      have hWord := PageBits.toNat_word (BitVec.ofNat 32 (argument.length + 1) + 3)
      rw [BitVec.toNat_add, BitVec.toNat_ofNat] at hWord
      have hThree : (3 : BitVec 32).toNat = 3 := rfl
      have hMask : (~~~3 : BitVec 32) = 0xfffffffc := rfl
      rw [hMask, hWord]
      omega
    have hOffset : (c.getRamPaddr + r.size -
        ((BitVec.ofNat 32 (argument.length + 1) + 3) &&& ~~~3)).toNat =
        c.getRamPaddr.toNat + r.size.toNat - (argument.length + 1 + 3) / 4 * 4 := by
      rw [BitVec.toNat_sub_of_le, BitVec.toNat_add_of_lt (by omega), hAligned]
      rw [BitVec.le_def, BitVec.toNat_add_of_lt (by omega), hAligned]
      omega
    constructor
    · rw [hWrites]
      intro w hw _
      obtain rfl := List.mem_singleton.mp hw
      refine ⟨?_, hShort⟩
      simp only [RamWrite.Inside, hOffset, List.length_append, List.length_singleton]
      omega
    · intro a _
      rw [hWrites]
      intro w hw
      obtain rfl := List.mem_singleton.mp hw
      exact hShort

/-- The loader stays inside RAM, and rejects what does not fit before anything of it is written: on
MIPS always; on RISC-V exactly where no segment that it comes to wraps around; and `setstack` on both
exactly where the argument with its end is no longer than RAM. -/
theorem boot_contained (r : Ramsize) (image argument : List (BitVec 8)) :
    (loadElf Mips.bootCpu r image).Contained r ∧
      ((loadElf Riscv.bootCpu r image).Contained r ↔
        ∀ ph ∈ reachedHeaders Riscv.bootCpu r image, ¬ ph.WrapsAround image) ∧
      ((setstack Mips.bootCpu r argument).Contained r ↔ argument.length + 1 ≤ r.size.toNat) ∧
      ((setstack Riscv.bootCpu r argument).Contained r ↔ argument.length + 1 ≤ r.size.toNat) := by
  refine ⟨?_, ?_, contained_setstack_iff mips_placed argument,
    contained_setstack_iff riscv_placed argument⟩
  · exact (contained_loadElf_iff mips_placed).mpr fun _ _ => mips_not_overruns
  · rw [contained_loadElf_iff riscv_placed]
    simp only [riscv_overruns_iff]

end Cpus

def le16 (v : BitVec 16) : List (BitVec 8) := [v.extractLsb' 0 8, v.extractLsb' 8 8]

def le32 (v : BitVec 32) : List (BitVec 8) :=
  [v.extractLsb' 0 8, v.extractLsb' 8 8, v.extractLsb' 16 8, v.extractLsb' 24 8]

/-- A kernel for RISC-V with one segment of four zeros, in the last word of all addresses. -/
def lastWordImage : List (BitVec 8) :=
  [0x7f, 0x45, 0x4c, 0x46, 1, 1, 1, 0, 0, 0, 0, 0, 0, 0, 0, 0] ++ le16 2 ++ le16 243 ++ le32 1 ++
    le32 0xc0000000 ++ le32 52 ++ le32 0 ++ le32 0 ++ le16 52 ++ le16 32 ++ le16 1 ++ le16 0 ++
    le16 0 ++ le16 0 ++
    (le32 1 ++ le32 0 ++ le32 0xfffffffc ++ le32 0 ++ le32 0 ++ le32 4 ++ le32 6 ++ le32 4)

def onePage : Ramsize where
  size := 0x1000
  ne := by decide
  page := by decide
  le := by decide

/-- The zeros are written a gigabyte behind the start of RAM; and an argument of a page is copied to
before its start. -/
theorem not_boot_contained :
    ¬ (loadElf Riscv.bootCpu onePage lastWordImage).Contained onePage ∧
      ¬ (setstack Riscv.bootCpu onePage (List.replicate 4096 0x78)).Contained onePage := by
  constructor
  · intro h
    have hWrites : (loadElf Riscv.bootCpu onePage lastWordImage).writes =
        [⟨.segment 0x3ffffffc 4, 0x3ffffffc, []⟩,
          ⟨.segment 0x3ffffffc 4, 0x3ffffffc, [0, 0, 0, 0]⟩] := by
      decide
    have hWithin := h.within
    rw [hWrites] at hWithin
    obtain ⟨⟨-, hEnd⟩, -⟩ :=
      hWithin ⟨.segment 0x3ffffffc 4, 0x3ffffffc, [0, 0, 0, 0]⟩ (by simp) (by simp)
    exact absurd hEnd (by decide)
  · rw [contained_setstack_iff riscv_placed, List.length_replicate]
    decide

end Sys161.Bus
