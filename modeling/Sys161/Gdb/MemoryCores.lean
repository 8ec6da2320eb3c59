import Sys161.Gdb.MemoryPackets
import Sys161.Gdb.Translation
import Sys161.Mips.Ahead

/-!
# The memory of the cores

Both cores answer the packets for memory by their own accessors, and these go
where the translation for the debugger leads.
-/

namespace Sys161.Gdb

open ByteOrder CString Exec Hex Mips

set_option autoImplicit false

variable {δ : Type} (b : Board δ) (i : Nat)

def mipsTarget : Target Mips.Stop (Mips.Machine δ) where
  order := .big
  fetchByte := Mips.cpudebugFetchByte b i
  fetchWord := Mips.cpudebugFetchWord b i
  storeByte := Mips.cpudebugStoreByte b i
  storeWord := Mips.cpudebugStoreWord b i
  translate := Mips.debugTranslatemem i
  place pa := if b.busRamsize ≤ pa then none else some (wordIndex pa)
  ram m := m.ram
  setRam m ram := { m with ram := ram }

def riscvPlace (pa : Word) : Option (BitVec 30) :=
  if pa < Riscv.paddrRambase ∨ Riscv.paddrRombase ≤ pa then none
  else if b.busRamsize ≤ pa - Riscv.paddrRambase then none
  else some (wordIndex (pa - Riscv.paddrRambase))

/-- The access that the debugger asks the translation about. -/
def memrwx (iswrite : Bool) : Riscv.Memrwx := if iswrite then .write else .read

def riscvTarget : Target Riscv.Stop (Riscv.Machine δ) where
  order := .little
  fetchByte := Riscv.cpudebugFetchByte b i
  fetchWord := Riscv.cpudebugFetchWord b i
  storeByte := Riscv.cpudebugStoreByte b i
  storeWord := Riscv.cpudebugStoreWord b i
  translate va iswrite := Riscv.debugTranslatemem b i va (memrwx iswrite)
  place := riscvPlace b
  ram m := m.ram
  setRam m ram := { m with ram := ram }

/-! ## MIPS -/

theorem mips_refused {va : Word} (hOdd : va &&& 0x3 ≠ 0) (iswrite : Bool) (m : Mips.Machine δ) :
    (Mips.debugTranslatemem i va iswrite).run m = .ok none m := by
  rw [Mips.debugTranslatemem, EStateM.run_bind]
  change EStateM.run (if va &&& 0x3 ≠ 0 then pure none else _) m = _
  rw [if_pos hOdd]
  rfl

theorem mips_lawful : (mipsTarget b i).Lawful where
  ram_setRam _ _ := rfl
  setRam_ram _ := rfl
  setRam_setRam _ _ _ := rfl
  storeByte_odd m va byte hOdd := by
    change (Mips.cpudebugStoreByte b i va byte).run m = _
    rw [Mips.cpudebugStoreByte, EStateM.run_bind, mips_refused i hOdd]
    rfl
  storeByte m va byte loc hAlign := by
    rintro ⟨pa, hRun, hAligned, rfl⟩
    change (Mips.cpudebugStoreByte b i va byte).run m = _
    change (Mips.debugTranslatemem i va true).run m = _ at hRun
    rw [Mips.cpudebugStoreByte, EStateM.run_bind, hRun]
    cases pa with
    | none => rfl
    | some pa =>
      have hFirst : (pa &&& 0x3).toNat = 0 := congrArg BitVec.toNat (hAligned pa rfl)
      simp only [mipsTarget, Option.bind_some, Mips.busMemStorebyte, hFirst]
      split <;> rfl
  storeWord m va word loc := by
    rintro ⟨pa, hRun, -, rfl⟩
    change (Mips.cpudebugStoreWord b i va word).run m = _
    change (Mips.debugTranslatemem i va true).run m = _ at hRun
    rw [Mips.cpudebugStoreWord, EStateM.run_bind, hRun]
    cases pa with
    | none => rfl
    | some pa =>
      simp only [mipsTarget, Option.bind_some, Mips.busMemStore]
      split <;> rfl
  fetchWord m va loc := by
    rintro ⟨pa, hRun, -, rfl⟩
    change (Mips.cpudebugFetchWord b i va).run m = _
    change (Mips.debugTranslatemem i va false).run m = _ at hRun
    rw [Mips.cpudebugFetchWord, EStateM.run_bind, hRun]
    cases pa with
    | none => rfl
    | some pa =>
      change EStateM.Result.ok (m.busMemFetch b pa) m = _
      simp only [mipsTarget, Option.bind_some, Mips.Machine.busMemFetch]
      split <;> rfl

/-- Where the debugger's accesses on MIPS lead. -/
def mipsLoc (m : Mips.Machine δ) (iswrite : Bool) (va : Word) : Option (BitVec 30) :=
  (Mips.translate ((m.kernelMode i).mycpus i) va iswrite).1.toOption.bind (mipsTarget b i).place

theorem align_wordOf (vaddr : Word) (k : Nat) : wordOf vaddr k &&& 0x3 = 0 := by
  rw [wordOf, BitVec.and_assoc]
  exact BitVec.and_zero

theorem ok_of_toOption {ε α : Type} {x : Except ε α} {a : α} (h : a ∈ x.toOption) : x = .ok a := by
  cases x with
  | error e => cases h
  | ok a' =>
    cases h
    rfl

theorem align_of_page {pfn va : Word} (hPfn : pfn &&& 0xfff = 0) (hAlign : va &&& 0x3 = 0) :
    (pfn ||| (va &&& 0xfff)) &&& 0x3 = 0 := by
  rw [← hAlign]
  exact Riscv.align_of_offset (PageBits.offset_or va hPfn)

theorem align_translate {c : Mips.Mipscpu} {va pa : Word} {iswrite : Bool}
    (hAligned : c.mapping.Aligned) (hAlign : va &&& 0x3 = 0)
    (h : (Mips.translate c va iswrite).1 = .ok pa) : pa &&& 0x3 = 0 := by
  unfold Mips.translate at h
  split at h
  · cases h
  · split at h
    · rw [← Except.ok.inj h, BitVec.and_assoc]
      exact hAlign
    · obtain ⟨mt, hFound, -, -, rfl⟩ := Mips.mapped_eq_ok_iff.mp h
      obtain ⟨ix, -, rfl⟩ := Option.map_eq_some_iff.mp hFound
      exact align_of_page (hAligned ix) hAlign

/-- The translation does not depend on main memory. -/
theorem mips_steady {m : Mips.Machine δ} (hAligned : (m.mycpus i).mapping.Aligned)
    (iswrite : Bool) (vaddr : Word) (n : Nat) :
    (mipsTarget b i).Steady m iswrite vaddr n (mipsLoc b i m iswrite) := by
  intro ram _ k _
  obtain ⟨hFound, hFinal⟩ := Mips.debugTranslatemem_spec i ({ m with ram := ram } : Mips.Machine δ)
    (wordOf vaddr k) iswrite
  refine ⟨_, run_of_outcome hFound hFinal, ?_, rfl⟩
  intro pa hPa
  have hKernel : ((m.kernelMode i).mycpus i).mapping.Aligned := by
    rw [Mips.Machine.kernelMode, Mips.Machine.modCpu_mycpus_self]
    exact hAligned
  exact align_translate hKernel (align_wordOf vaddr k) (ok_of_toOption hPa)

/-! ## RISC-V -/

theorem riscv_refused {va : Word} (hOdd : va &&& 0x3 ≠ 0) (rwx : Riscv.Memrwx)
    (m : Riscv.Machine δ) : (Riscv.debugTranslatemem b i va rwx).run m = .ok none m := by
  rw [Riscv.debugTranslatemem, EStateM.run_bind]
  change EStateM.run (if va &&& 0x3 ≠ 0 then pure none else _) m = _
  rw [if_pos hOdd]
  rfl

theorem align_sub_rambase (pa : Word) : (pa - Riscv.paddrRambase) &&& 0x3 = pa &&& 0x3 := by
  have hLt := pa.isLt
  apply BitVec.eq_of_toNat_eq
  rw [PageBits.toNat_align, PageBits.toNat_align]
  simp only [Riscv.paddrRambase]
  bv_omega

theorem riscv_lawful : (riscvTarget b i).Lawful where
  ram_setRam _ _ := rfl
  setRam_ram _ := rfl
  setRam_setRam _ _ _ := rfl
  storeByte_odd m va byte hOdd := by
    change (Riscv.cpudebugStoreByte b i va byte).run m = _
    rw [Riscv.cpudebugStoreByte, EStateM.run_bind, riscv_refused b i hOdd]
    rfl
  storeByte m va byte loc hAlign := by
    rintro ⟨pa, hRun, hAligned, rfl⟩
    change (Riscv.cpudebugStoreByte b i va byte).run m = _
    change (Riscv.debugTranslatemem b i va .write).run m = _ at hRun
    rw [Riscv.cpudebugStoreByte, EStateM.run_bind, hRun]
    cases pa with
    | none => rfl
    | some pa =>
      have hFirst : ((pa - Riscv.paddrRambase) &&& 0x3).toNat = 0 := by
        rw [align_sub_rambase]
        exact congrArg BitVec.toNat (hAligned pa rfl)
      simp only [riscvTarget, riscvPlace, Option.bind_some, Riscv.busMemStorebyte, hFirst]
      split
      · rfl
      · split <;> rfl
  storeWord m va word loc := by
    rintro ⟨pa, hRun, -, rfl⟩
    change (Riscv.cpudebugStoreWord b i va word).run m = _
    change (Riscv.debugTranslatemem b i va .write).run m = _ at hRun
    rw [Riscv.cpudebugStoreWord, EStateM.run_bind, hRun]
    cases pa with
    | none => rfl
    | some pa =>
      simp only [riscvTarget, riscvPlace, Option.bind_some, Riscv.busMemStore]
      split
      · rfl
      · split <;> rfl
  fetchWord m va loc := by
    rintro ⟨pa, hRun, -, rfl⟩
    change (Riscv.cpudebugFetchWord b i va).run m = _
    change (Riscv.debugTranslatemem b i va .read).run m = _ at hRun
    rw [Riscv.cpudebugFetchWord, EStateM.run_bind, hRun]
    cases pa with
    | none => rfl
    | some pa =>
      simp only [riscvTarget, riscvPlace, Option.bind_some]
      split
      · rfl
      · change EStateM.Result.ok (m.busMemFetch b (pa - Riscv.paddrRambase)) m = _
        simp only [Riscv.Machine.busMemFetch]
        split <;> rfl

/-- Where the debugger's accesses on RISC-V lead. -/
def riscvLoc (m : Riscv.Machine δ) (iswrite : Bool) (va : Word) : Option (BitVec 30) :=
  ((m.mycpus i).debugTranslation b m.ram va (memrwx iswrite)).bind (riscvPlace b)

/-- The page table lies in memory, and the range does not lead to it. -/
def TableApart (m : Riscv.Machine δ) (iswrite : Bool) (vaddr : Word) (n : Nat) : Prop :=
  ∀ k < n, (m.mycpus i).Walks (wordOf vaddr k) →
    (m.mycpus i).EntryInMemory m.ram (wordOf vaddr k) ∧
      ∀ ix, (m.mycpus i).WalkReads m.ram (wordOf vaddr k) ix →
        ∀ k' < n, riscvLoc b i m iswrite (wordOf vaddr k') ≠ some ix

theorem align_debugTranslation {c : Riscv.Riscvcpu} {ram : BitVec 30 → Word} {va pa : Word}
    {iswrite : Bool} (hCache : c.CacheAligned) (hAlign : va &&& 0x3 = 0)
    (h : c.debugTranslation b ram va (memrwx iswrite) = some pa) : pa &&& 0x3 = 0 := by
  unfold Riscv.Riscvcpu.debugTranslation at h
  split at h
  · rwa [← Option.some.inj h]
  · split at h
    · split at h
      · rw [← Option.some.inj h]
        exact align_of_page hCache hAlign
      · cases h
    · obtain ⟨leaf, -, hCheck⟩ := Option.bind_eq_some_iff.mp h
      have hRead : memrwx iswrite = .execute → ¬leaf.UserCode := by
        cases iswrite <;> nofun
      rw [(leaf.debugCheck_eq_iff va (memrwx iswrite)).mpr hRead] at hCheck
      rw [← hAlign]
      exact Riscv.align_of_offset (Riscv.Riscvcpu.offset_check (ok_of_toOption hCheck))

theorem riscv_steady {m : Riscv.Machine δ} (hCache : (m.mycpus i).CacheAligned) {iswrite : Bool}
    {vaddr : Word} {n : Nat} (hApart : TableApart b i m iswrite vaddr n) :
    (riscvTarget b i).Steady m iswrite vaddr n (riscvLoc b i m iswrite) := by
  intro ram hAgrees k hk
  have hSame : (m.mycpus i).Walks (wordOf vaddr k) →
      ∀ ix, (m.mycpus i).WalkReads m.ram (wordOf vaddr k) ix → ram ix = m.ram ix :=
    fun hWalks ix hReads => hAgrees ix ((hApart k hk hWalks).2 ix hReads)
  have hMem : (m.mycpus i).Walks (wordOf vaddr k) →
      (m.mycpus i).EntryInMemory ram (wordOf vaddr k) := by
    intro hWalks paddr hPaddr
    rw [Riscv.Riscvcpu.entryAddr_congr (hSame hWalks)] at hPaddr
    exact (hApart k hk hWalks).1 paddr hPaddr
  obtain ⟨pa, t, hRun, hPa, rfl⟩ := exists_of_after (Riscv.after_debugTranslatemem_mem b i
    (m := { m with ram := ram }) (memrwx iswrite) (align_wordOf vaddr k) hMem)
  change pa = (m.mycpus i).debugTranslation b ram _ _ at hPa
  refine ⟨pa, hRun, ?_, ?_⟩
  · rintro p rfl
    exact align_debugTranslation b hCache (align_wordOf vaddr k) hPa.symm
  · rw [hPa, Riscv.Riscvcpu.debugTranslation_congr b hSame]
    rfl

/-! ## Both cores -/

theorem debug_memory (host : Order) :
    ((∀ (m : Mips.Machine δ) (iswrite : Bool) (vaddr : Word) (n : Nat),
        (m.mycpus i).mapping.Aligned →
          (mipsTarget b i).Steady m iswrite vaddr n (mipsLoc b i m iswrite)) ∧
      (mipsTarget b i).MemoryExact host) ∧
    (∀ (m : Riscv.Machine δ) (iswrite : Bool) (vaddr : Word) (n : Nat),
        (m.mycpus i).CacheAligned → TableApart b i m iswrite vaddr n →
          (riscvTarget b i).Steady m iswrite vaddr n (riscvLoc b i m iswrite)) ∧
      (riscvTarget b i).MemoryExact host := by
  constructor
  · constructor
    · exact fun m iswrite vaddr n hAligned => mips_steady b i hAligned iswrite vaddr n
    · exact (mips_lawful b i).memoryExact host
  · constructor
    · exact fun m iswrite vaddr n hCache hApart => riscv_steady b i hCache hApart
    · exact (riscv_lawful b i).memoryExact host

theorem machineInit_aligned : ((Mips.machineInit () true).mycpus 0).mapping.Aligned := by
  intro ix
  change (0 : Word) &&& 0xfff = 0
  rfl

/-- A word in kseg0, on a machine that has just been started. -/
theorem machineInit_word (iswrite : Bool) :
    ∀ k < 4, mipsLoc bareBoard 0 (Mips.machineInit () true) iswrite (wordOf 0x80000100 k) =
      some 0x40 := by
  cases iswrite <;> decide

theorem debug_memory_kseg0 :
    (mipsTarget bareBoard 0).RoundTrip .little (Mips.machineInit () true) 0x80000100 4
      (fun _ => 0x40) (wordText 0x80000100) (wordText 4) (wordText 0xdeadbeef) [] := by
  obtain ⟨⟨hSteady, hExact⟩, -⟩ := debug_memory bareBoard 0 .little
  refine (hExact.1 (Mips.machineInit () true) 0x80000100 4 (fun _ => 0x40) _ _ _ _ ?_
    (number_wordText _) (number_wordText _) rfl (wordText_hex _).1 (by decide)).mpr ?_
  · intro iswrite
    exact (hSteady _ iswrite _ _ machineInit_aligned).congr (machineInit_word iswrite)
  · exact .inr ⟨by decide, by decide, by decide, fun j hj k hk _ => by
      rw [Nat.lt_one_iff.mp hj, Nat.lt_one_iff.mp hk]⟩

/-- Of two bytes at the start of a word the first one is stored, and the second one refused. -/
theorem not_debug_memory :
    (¬ ∀ (m : Mips.Machine Unit) (length : Word) (loc : Word → BitVec 30) (data : Text),
      (mipsTarget bareBoard 0).Range m 0x80000100 length.toNat loc →
      data.length = 2 * length.toNat → (∀ c ∈ data, IsHex c) → data.length < buflen →
        (mipsTarget bareBoard 0).RoundTrip .little m 0x80000100 length.toNat loc
          (wordText 0x80000100) (wordText length) data []) ∧
    ¬ ∀ (m : Mips.Machine Unit) (length : Word),
      (mipsTarget bareBoard 0).ErrorKeeps .little m 0x80000100 length := by
  have hSteady : ∀ iswrite, (mipsTarget bareBoard 0).Steady (Mips.machineInit () true) iswrite
      0x80000100 2 fun _ => some 0x40 := by
    intro iswrite
    apply (mips_steady bareBoard 0 machineInit_aligned iswrite 0x80000100 2).congr
    exact fun k hk => machineInit_word iswrite k (by omega)
  have hExact := (mips_lawful bareBoard 0).memoryExact .little
  constructor
  · intro h
    have hTrip := h (Mips.machineInit () true) 2 (fun _ => 0x40) [ch 'd', ch 'e', ch 'a', ch 'd']
      hSteady rfl (by decide) (by decide)
    have hWhole := (hExact.1 _ _ 2 _ _ _ _ _ hSteady (number_wordText _) (number_wordText _) rfl
      (by decide) (by decide)).mp hTrip
    rcases hWhole with hZero | ⟨-, hWords, -⟩
    · exact absurd hZero (by decide)
    · exact absurd hWords (by decide)
  · intro h
    have hUnbroken := (hExact.2 _ _ _ _ (hSteady true)).mp (h (Mips.machineInit () true) 2)
    rcases hUnbroken with hZero | hOdd | hNone | ⟨hRest, -⟩
    · exact absurd hZero (by decide)
    · exact hOdd (by decide)
    · cases hNone
    · exact absurd hRest (by decide)

end Sys161.Gdb
