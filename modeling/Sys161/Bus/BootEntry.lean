import Sys161.Bus.BootSafety
import Sys161.Lib.Scripts
import Sys161.Mips.CpuStart
import Sys161.Mips.HostMemory
import Sys161.Riscv.FetchRuns

/-!
# Where the first cpu begins

`load_elf` ends with `cpu_set_entrypoint`, on the cpu that `cpu_init` has left. The
function runs as it is modelled with each core, and what it leaves is compared
with the addresses at which that cpu can execute.
-/

namespace Sys161.Bus

open Exec

set_option autoImplicit false

/-- The processors that there are. -/
inductive Core where
  | mips
  | riscv
deriving DecidableEq

def Core.bootCpu : Core → BootCpu
  | .mips => Mips.bootCpu
  | .riscv => Riscv.bootCpu

/-- What `hang()` prints, with either core. -/
abbrev CoreHang := Sys161.Mips.Hang ⊕ Sys161.Riscv.Hang

/-- Where the cpu stands, and the hangs on its way there. -/
structure BootEntry where
  pc : BitVec 32
  hangs : List CoreHang
deriving DecidableEq

/-- One cpu and so much RAM. -/
def bootBoard (r : Ramsize) : Sys161.Mips.Board Unit :=
  { Sys161.Mips.bareBoard with
    busRamsize := r.size
    ramsize_ne := r.ne
    ramsize_page := r.page
    ramsize_le := r.le }

/-- `cpu_set_entrypoint`, if it comes to its end. -/
def Core.setEntrypoint (r : Ramsize) (addr : BitVec 32) : Core → Option BootEntry
  | .mips =>
    Scripts.yields (Sys161.Mips.cpuSetEntrypoint (bootBoard r) 0 addr)
      (fun _ m => ⟨(m.mycpus 0).pc, m.hangs.reverse.map .inl⟩) (Sys161.Mips.machineInit () false)
  | .riscv =>
    Scripts.yields (Sys161.Riscv.cpuSetEntrypoint (bootBoard r) 0 addr)
      (fun _ m => ⟨(m.mycpus 0).pc, m.hangs.reverse.map .inr⟩) (Sys161.Riscv.machineInit () false)

/-! ## The addresses at which it can execute -/

/-- In kseg0 and kseg1, in RAM or in the boot ROM. -/
def Mips.Fetchable (r : Ramsize) (addr : BitVec 32) : Prop :=
  (0x80000000 ≤ addr ∧ addr < 0xc0000000) ∧ (addr &&& 0x1fffffff < r.size ∨
    0x1fc00000 ≤ addr &&& 0x1fffffff ∧ addr &&& 0x1fffffff < 0x1fc01000)

def Riscv.Fetchable (r : Ramsize) (addr : BitVec 32) : Prop :=
  0xc0000000 ≤ addr ∧ addr < 0xc0000000 + r.size ∨ 0xffc00000 ≤ addr ∧ addr < 0xffc01000

/-- A MIPS cpu looks up the instruction after the first one as well. -/
def Core.Enterable (r : Ramsize) (addr : BitVec 32) : Core → Prop
  | .mips => Mips.Fetchable r addr ∧ Mips.Fetchable r (addr + 4)
  | .riscv => Riscv.Fetchable r addr

instance (r : Ramsize) (addr : BitVec 32) : Decidable (Mips.Fetchable r addr) :=
  inferInstanceAs (Decidable (_ ∧ _))

instance (r : Ramsize) (addr : BitVec 32) : Decidable (Riscv.Fetchable r addr) :=
  inferInstanceAs (Decidable (_ ∨ _))

instance (r : Ramsize) (addr : BitVec 32) (core : Core) : Decidable (core.Enterable r addr) :=
  match core with
  | .mips => inferInstanceAs (Decidable (_ ∧ _))
  | .riscv => inferInstanceAs (Decidable (Riscv.Fetchable r addr))

def Core.alignmask : Core → BitVec 32
  | .mips => 0xfffffffc
  | .riscv => 0xfffffffe

/-- The vector of the exception for an address at which it cannot execute. -/
def Core.vector (addr : BitVec 32) : Core → BitVec 32
  | .mips => if addr < 0x80000000 then 0xbfc00100 else 0xbfc00180
  | .riscv => 0xffc00000

def Core.notAligned : Core → CoreHang
  | .mips => .inl .entryNotAligned
  | .riscv => .inr .entryNotAligned

def Core.invalid : Core → CoreHang
  | .mips => .inl .entryInvalid
  | .riscv => .inr .entryInvalid

/-- The entry is cut off to an aligned address, and one that is not an address to execute at is left
for the vector of an exception. Each is a hang. -/
def Core.enters (r : Ramsize) (entry : BitVec 32) (core : Core) : BootEntry :=
  let addr := entry &&& core.alignmask
  { pc := if core.Enterable r addr then addr else core.vector addr
    hangs := (if addr = entry then [] else [core.notAligned]) ++
      if core.Enterable r addr then [] else [core.invalid] }

theorem enters_hangs_eq_nil {core : Core} {r : Ramsize} {entry : BitVec 32} :
    (core.enters r entry).hangs = [] ↔ entry &&& core.alignmask = entry ∧ core.Enterable r entry := by
  simp only [Core.enters, List.append_eq_nil_iff, ite_eq_left_iff, List.cons_ne_self, imp_false,
    not_not]
  constructor
  · rintro ⟨hSame, hEnter⟩
    rw [hSame] at hEnter
    exact ⟨hSame, hEnter⟩
  · rintro ⟨hSame, hEnter⟩
    rw [hSame]
    exact ⟨rfl, hEnter⟩

/-! ## MIPS -/

namespace Mips

open Sys161.Mips

theorem toNat_paddr (addr : BitVec 32) : (addr &&& 0x1fffffff).toNat = addr.toNat % 2 ^ 29 := by
  rw [BitVec.toNat_and]
  exact Nat.and_two_pow_sub_one_eq_mod _ 29

theorem kernel_iff (addr : BitVec 32) :
    addr >>> 30 = 2 ↔ 0x80000000 ≤ addr ∧ addr < 0xc0000000 := by
  have hLt := addr.isLt
  rw [← BitVec.toNat_inj, BitVec.toNat_ushiftRight, Nat.shiftRight_eq_div_pow, BitVec.le_def,
    BitVec.lt_def]
  change addr.toNat / 2 ^ 30 = 2 ↔ 0x80000000 ≤ addr.toNat ∧ addr.toNat < 0xc0000000
  omega

theorem mapmem_bootBoard (r : Ramsize) {paddr : BitVec 32} (h : paddr < 0x20000000) :
    mapmem (bootBoard r) paddr ≠ none ↔
      paddr < r.size ∨ 0x1fc00000 ≤ paddr ∧ paddr < 0x1fc01000 := by
  have hMod := r.toNat_mod
  have hLe : r.size.toNat ≤ 0x1000000 := r.toNat_le
  have hPage := PageBits.toNat_page paddr
  have hBoard : (bootBoard r).busRamsize = r.size := rfl
  rw [BitVec.lt_def] at h
  change paddr.toNat < 0x20000000 at h
  rw [mapmem]
  by_cases hLow : paddr &&& 0xfffff000 < 0x1fc00000
  · have hLowNat : (paddr &&& 0xfffff000).toNat < 0x1fc00000 := hLow
    rw [if_pos hLow, busMemMap, hBoard]
    by_cases hOut : r.size ≤ paddr &&& 0xfffff000
    · rw [if_pos hOut]
      refine iff_of_false (fun h => h rfl) ?_
      rw [BitVec.le_def] at hOut
      simp only [BitVec.lt_def, BitVec.le_def]
      change ¬ (_ ∨ 0x1fc00000 ≤ _ ∧ _)
      omega
    · rw [if_neg hOut]
      refine iff_of_true (fun h => by cases h) (.inl ?_)
      rw [BitVec.not_le, BitVec.lt_def] at hOut
      rw [BitVec.lt_def]
      omega
  · have hHigh : 0x1fc00000 ≤ (paddr &&& 0xfffff000).toNat := not_lt.mp hLow
    have hSub : ((paddr &&& 0xfffff000) - 0x1fc00000).toNat = paddr.toNat / 4096 * 4096 - 0x1fc00000 :=
      HostMemory.toNat_page_sub (by rw [BitVec.le_def]; change 0x1fc00000 ≤ _; omega)
    rw [if_neg hLow]
    by_cases hRom : paddr &&& 0xfffff000 < 0x1fe00000
    · rw [if_pos hRom, bootromMap, hSub, romWords]
      have hRomNat : (paddr &&& 0xfffff000).toNat < 0x1fe00000 := hRom
      simp only [BitVec.lt_def, BitVec.le_def]
      change _ ↔ _ ∨ 0x1fc00000 ≤ _ ∧ _ < 0x1fc01000
      split
      · exact iff_of_false (fun h => h rfl) (by omega)
      · exact iff_of_true (fun h => by cases h) (by omega)
    · have hIo : paddr &&& 0xfffff000 < 0x20000000 := by
        rw [BitVec.lt_def]
        change _ < 0x20000000
        omega
      have hRomNat : 0x1fe00000 ≤ (paddr &&& 0xfffff000).toNat := not_lt.mp hRom
      rw [if_neg hRom, if_pos hIo]
      refine iff_of_false (fun h => h rfl) ?_
      simp only [BitVec.lt_def, BitVec.le_def]
      change ¬ (_ ∨ 0x1fc00000 ≤ _ ∧ _ < 0x1fc01000)
      omega

/-- The entries of the TLB after a reset are those of addresses that are never looked up. -/
theorem entry_reset {mp : Mapping} (hTlb : mp.tlb = resetTlbentry) {addr : BitVec 32}
    (h : ¬ (0x80000000 ≤ addr ∧ addr < 0xc0000000)) : mp.entry (addr &&& 0xfffff000) = none := by
  rw [Mapping.entry, Option.map_eq_none_iff, List.find?_eq_none]
  intro ix hIx hHits
  rw [Mipstlb.hits, Bool.and_eq_true, beq_iff_eq, hTlb] at hHits
  have hVpn : (resetTlbentry ix).mtVpn = 0x81000000 + BitVec.ofNat 32 ix * 0x1000 := rfl
  have hSame := congrArg BitVec.toNat (hVpn.symm.trans hHits.1)
  have hLt : ix < 64 := List.mem_range.mp hIx
  rw [PageBits.toNat_page, BitVec.toNat_add, BitVec.toNat_mul, BitVec.toNat_ofNat] at hSame
  change (0x81000000 + ix % 2 ^ 32 * 0x1000 % 2 ^ 32) % 2 ^ 32 = _ at hSame
  rw [BitVec.le_def, BitVec.lt_def] at h
  change ¬ (0x80000000 ≤ addr.toNat ∧ addr.toNat < 0xc0000000) at h
  omega

/-- The exception goes to the vector for the TLB. -/
def IsUtlb (e : Exn) : Prop := (e.code = .tlbl ∨ e.code = .tlbs) ∧ e.cnOrUser ≠ 0

instance (e : Exn) : Decidable (IsUtlb e) := inferInstanceAs (Decidable (_ ∧ _))

theorem fetch_reset (r : Ramsize) {mp : Mapping} (hUser : mp.usermode = false)
    (hTlb : mp.tlb = resetTlbentry) {addr : BitVec 32} (hAlign : addr &&& 0x3 = 0) :
    (Fetchable r addr ∧ ∃ at_, mp.fetch (bootBoard r) addr = .ok at_) ∨
      (¬ Fetchable r addr ∧ ∃ e, mp.fetch (bootBoard r) addr = .error e ∧
        (IsUtlb e ↔ addr < 0x80000000)) := by
  have hOk : ¬ ((0x80000000 ≤ addr ∧ mp.usermode = true) ∨ addr &&& 0x3 ≠ 0) := by
    rw [hUser, hAlign]
    simp
  rw [Mapping.fetch, Mapping.translate, if_neg hOk]
  by_cases hKernel : 0x80000000 ≤ addr ∧ addr < 0xc0000000
  · have hPaddr : addr &&& 0x1fffffff < 0x20000000 := by
      rw [BitVec.lt_def, toNat_paddr]
      exact Nat.mod_lt _ (by decide)
    rw [if_pos ((kernel_iff addr).mpr hKernel)]
    dsimp only
    have hMap := mapmem_bootBoard r hPaddr
    cases hPage : mapmem (bootBoard r) (addr &&& 0x1fffffff) with
    | some page =>
      rw [hPage] at hMap
      exact .inl ⟨⟨hKernel, hMap.mp fun h => by cases h⟩, _, rfl⟩
    | none =>
      rw [hPage] at hMap
      refine .inr ⟨fun hFetch => hMap.mpr hFetch.2 rfl, _, rfl, ?_⟩
      refine iff_of_false ?_ (BitVec.not_lt.mpr hKernel.1)
      rintro ⟨h | h, -⟩ <;> cases h
  · rw [if_neg fun h => hKernel ((kernel_iff addr).mp h), entry_reset hTlb hKernel, mapped]
    refine .inr ⟨fun hFetch => hKernel hFetch.1, _, rfl, ?_⟩
    have hOne : (1 : Word) ≠ 0 := by decide
    by_cases hLow : addr < 0x80000000
    · exact iff_of_true ⟨.inl rfl, (if_pos hLow).symm ▸ hOne⟩ hLow
    · exact iff_of_false (fun h => h.2 (if_neg hLow)) hLow

variable {m : Machine Unit} {r : Ramsize}

/-- The boot ROM has the exception vectors as long as the kernel has not changed it. -/
theorem exception_bootvector {b : Board Unit} {c : Mipscpu} (hBoot : c.statusBootvectors ≠ 0)
    {e : Exn} {addr vaddr : BitVec 32} (h : IsUtlb e ↔ addr < 0x80000000) :
    ((c.translated vaddr false).exception b e).pc = Core.mips.vector addr := by
  have hSame : (c.translated vaddr false).statusBootvectors = c.statusBootvectors := by
    rcases translated_eq c vaddr false with hEq | hEq <;> rw [hEq]
    rfl
  change (if IsUtlb e then if (c.translated vaddr false).statusBootvectors ≠ 0 then _ else _ else
    if (c.translated vaddr false).statusBootvectors ≠ 0 then _ else _) = _
  rw [hSame, if_pos hBoot, if_pos hBoot, Core.vector]
  by_cases hLow : addr < 0x80000000
  · rw [if_pos hLow, if_pos (h.mpr hLow)]
  · rw [if_neg hLow, if_neg fun hUtlb => hLow (h.mp hUtlb)]

theorem enteredPc_vectors (c : Mipscpu) (addr : BitVec 32) (at_ : Page × Word) :
    (c.enteredPc addr at_).statusBootvectors = c.statusBootvectors := by
  rw [Mipscpu.enteredPc]
  rcases translated_eq (c.enter addr) addr false with hEq | hEq <;> rw [hEq] <;> rfl

/-- The second translation leaves the pc. -/
theorem translatedNext_pc (c : Mipscpu) (page : Page) (off : Word) :
    ((c.translated c.nextpc false).setNextpcpage page off).pc = c.pc := by
  have hSame := congrArg FetchState.pc (translated_toFetchState c c.nextpc false)
  exact hSame

/-- The cpu is as `cpu_init` has left it, as far as this function sees it. -/
structure Fresh (c : Mipscpu) : Prop where
  kernel : c.currentUsermode = false
  tlb : c.tlb = resetTlbentry
  vectors : c.statusBootvectors ≠ 0

theorem after_enter (hm : Fresh (m.mycpus 0)) {addr : BitVec 32} (hAlign : addr &&& 0x3 = 0) :
    After (hangUnless (precomputePc (bootBoard r) 0))
      (fun _ t => After (hangUnless (precomputeNextpc (bootBoard r) 0)) (fun _ t =>
          (t.mycpus 0).pc =
              (if Core.mips.Enterable r addr then addr else Core.mips.vector addr) ∧
            t.hangs = (if Core.mips.Enterable r addr then [] else [.entryInvalid]) ++ m.hangs)
        (fun _ _ => False) t)
      (fun _ _ => False) (m.modCpu 0 fun c => c.enter addr) := by
  have hSelf := Machine.modCpu_mycpus_self m 0 fun c => c.enter addr
  have hNextAlign : (addr + 4) &&& 0x3 = 0 := by
    have hNat := congrArg BitVec.toNat hAlign
    rw [PageBits.toNat_align] at hNat
    rw [← BitVec.toNat_inj, PageBits.toNat_align, BitVec.toNat_add]
    change addr.toNat % 4 = 0 at hNat
    change (addr.toNat + 4) % 2 ^ 32 % 4 = 0
    omega
  have hUser : (m.mycpus 0).mapping.usermode = false := hm.kernel
  have hTlb : (m.mycpus 0).mapping.tlb = resetTlbentry := hm.tlb
  rcases fetch_reset r hUser hTlb hAlign with ⟨hHere, at_, hFetch⟩ | ⟨hNot, e, hFetch, hUtlb⟩
  · have hPc : ((m.modCpu 0 fun c => c.enter addr).mycpus 0).mapping.fetch (bootBoard r)
        ((m.modCpu 0 fun c => c.enter addr).mycpus 0).pc = .ok at_ := by
      rw [hSelf]
      exact hFetch
    have hState : (m.modCpu 0 fun c => c.enter addr).setCpu 0
        ((((m.mycpus 0).enter addr).translated addr false).setPcpage at_.1 at_.2) =
          m.setCpu 0 ((m.mycpus 0).enteredPc addr at_) := Machine.setCpu_setCpu m 0 _ _
    have hSecond : ((m.setCpu 0 ((m.mycpus 0).enteredPc addr at_)).mycpus 0).mapping.fetch
        (bootBoard r) ((m.setCpu 0 ((m.mycpus 0).enteredPc addr at_)).mycpus 0).nextpc =
        (m.mycpus 0).mapping.fetch (bootBoard r) (addr + 4) := by
      rw [Machine.setCpu_mycpus_self, enteredPc_mapping, enteredPc_nextpc]
    rw [after_entryPc_ok hPc, hSelf]
    change After _ _ _ ((m.modCpu 0 fun c => c.enter addr).setCpu 0
      ((((m.mycpus 0).enter addr).translated addr false).setPcpage at_.1 at_.2))
    rw [hState]
    rcases fetch_reset r hUser hTlb hNextAlign with ⟨hNext, next, hFetch'⟩ | ⟨hNot, e, hFetch', hUtlb⟩
    · have hEnter : Core.mips.Enterable r addr := ⟨hHere, hNext⟩
      rw [after_entryNext_ok (hSecond.trans hFetch'), if_pos hEnter, if_pos hEnter]
      refine ⟨?_, rfl⟩
      rw [Machine.setCpu_mycpus_self, Machine.setCpu_mycpus_self, translatedNext_pc]
      exact congrArg FetchState.pc (translated_toFetchState ((m.mycpus 0).enter addr) addr false)
    · have hEnter : ¬ Core.mips.Enterable r addr := fun h => hNot h.2
      rw [after_entryNext_error (hSecond.trans hFetch'), if_neg hEnter, if_neg hEnter]
      refine ⟨?_, rfl⟩
      have hHigh : IsUtlb e ↔ addr < 0x80000000 := by
        have hKernel := hHere.1
        rw [hUtlb]
        bv_omega
      have hVectors : ((m.mycpus 0).enteredPc addr at_).statusBootvectors ≠ 0 := by
        rw [enteredPc_vectors]
        exact hm.vectors
      change (((m.setCpu 0 ((m.mycpus 0).enteredPc addr at_)).setCpu 0 _).mycpus 0).pc = _
      rw [Machine.setCpu_mycpus_self, Machine.setCpu_mycpus_self]
      exact exception_bootvector hVectors hHigh
  · have hPc : ((m.modCpu 0 fun c => c.enter addr).mycpus 0).mapping.fetch (bootBoard r)
        ((m.modCpu 0 fun c => c.enter addr).mycpus 0).pc = .error e := by
      rw [hSelf]
      exact hFetch
    have hEnter : ¬ Core.mips.Enterable r addr := fun h => hNot h.1
    rw [after_entryPc_error hPc, hSelf, if_neg hEnter, if_neg hEnter]
    have hVectors : ((m.mycpus 0).enter addr).statusBootvectors ≠ 0 := hm.vectors
    generalize hCpu : (((m.mycpus 0).enter addr).translated _ false).exception (bootBoard r) e = c
    have hVector : c.pc = Core.mips.vector addr := by
      rw [← hCpu]
      exact exception_bootvector hVectors hUtlb
    obtain ⟨page, -, -, -, hNext⟩ := exception_precomputed (bootBoard r)
      (((m.mycpus 0).enter addr).translated ((m.mycpus 0).enter addr).pc false) e
    rw [hCpu] at hNext
    generalize hHung : ((m.modCpu 0 fun c => c.enter addr).setCpu 0 c).hung .entryInvalid = t
    have hSelf' : t.mycpus 0 = c := by
      rw [← hHung]
      exact Machine.setCpu_mycpus_self (m.modCpu 0 fun c => c.enter addr) 0 c
    have hHangs : t.hangs = .entryInvalid :: m.hangs := by
      rw [← hHung]
      rfl
    rw [← hSelf'] at hNext
    rw [after_entryNext_ok hNext, hSelf']
    refine ⟨?_, hHangs⟩
    rw [Machine.setCpu_mycpus_self, translatedNext_pc, hVector]

theorem word_eq_self_iff (addr : BitVec 32) : addr &&& 0xfffffffc = addr ↔ addr &&& 0x3 = 0 := by
  rw [← BitVec.toNat_inj, ← BitVec.toNat_inj, PageBits.toNat_word, PageBits.toNat_align]
  change _ ↔ addr.toNat % 4 = 0
  omega

theorem align_word (addr : BitVec 32) : (addr &&& 0xfffffffc) &&& 0x3 = 0 := by
  rw [BitVec.and_assoc]
  exact BitVec.and_zero

theorem enters_eq (r : Ramsize) (entry : BitVec 32) : Core.mips.enters r entry =
    ⟨if Core.mips.Enterable r (entry &&& 0xfffffffc) then entry &&& 0xfffffffc
      else Core.mips.vector (entry &&& 0xfffffffc),
      (if entry &&& 0xfffffffc = entry then [] else [.inl .entryNotAligned]) ++
        if Core.mips.Enterable r (entry &&& 0xfffffffc) then [] else [.inl .entryInvalid]⟩ :=
  rfl

theorem after_cpuSetEntrypoint (hm : Fresh (m.mycpus 0)) (hHangs : m.hangs = [])
    (entry : BitVec 32) :
    After (cpuSetEntrypoint (bootBoard r) 0 entry)
      (fun _ t => (⟨(t.mycpus 0).pc, t.hangs.reverse.map .inl⟩ : BootEntry) =
        Core.mips.enters r entry) (fun _ _ => False) m := by
  have hRest (t : Machine Unit) (hSame : t.mycpus 0 = m.mycpus 0)
      (hList : t.hangs = if entry &&& 0xfffffffc = entry then [] else [.entryNotAligned]) :
      After (do
        let addr := entry &&& 0xfffffffc
        modCpu 0 fun c =>
          { c with r := Function.update c.r 25 addr, expc := addr, pc := addr, nextpc := addr + 4 }
        hangUnless (precomputePc (bootBoard r) 0)
        hangUnless (precomputeNextpc (bootBoard r) 0))
        (fun _ t => (⟨(t.mycpus 0).pc, t.hangs.reverse.map .inl⟩ : BootEntry) =
          Core.mips.enters r entry) (fun _ _ => False) t := by
    rw [← hSame] at hm
    rw [after_bind, after_modCpu, after_bind]
    refine (after_enter hm (align_word entry)).mono (fun _ t₁ h₁ => h₁.mono ?_ ?_) fun _ _ h => h
    · rintro _ t₂ ⟨hPc, hAll⟩
      rw [hPc, hAll, hList, enters_eq]
      rcases Decidable.em (entry &&& 0xfffffffc = entry) with hAligned | hAligned <;>
        rcases Decidable.em (Core.mips.Enterable r (entry &&& 0xfffffffc)) with hEnter | hEnter
      · simp only [if_pos hAligned, if_pos hEnter]
        rfl
      · simp only [if_pos hAligned, if_neg hEnter]
        rfl
      · simp only [if_neg hAligned, if_pos hEnter]
        rfl
      · simp only [if_neg hAligned, if_neg hEnter]
        rfl
    · exact fun _ _ h => h
  unfold cpuSetEntrypoint
  split
  · next hNot =>
    rw [after_bind, after_hang]
    refine hRest _ rfl ?_
    rw [if_neg fun h => hNot ((word_eq_self_iff entry).mp h)]
    exact congrArg _ hHangs
  · next hAligned =>
    refine hRest m rfl ?_
    rw [if_pos ((word_eq_self_iff entry).mpr (not_not.mp hAligned)), hHangs]

theorem setEntrypoint_eq (r : Ramsize) (entry : BitVec 32) :
    Core.mips.setEntrypoint r entry = some (Core.mips.enters r entry) :=
  Scripts.yields_of_after (after_cpuSetEntrypoint ⟨rfl, rfl, by decide⟩ rfl entry)

end Mips

/-! ## RISC-V -/

namespace Riscv

open Sys161.Riscv

theorem mapmem_bootBoard (r : Ramsize) (addr : BitVec 32) :
    mapmem (bootBoard r) addr ≠ none ↔ Fetchable r addr := by
  have hMod := r.toNat_mod
  have hLe : r.size.toNat ≤ 0x1000000 := r.toNat_le
  have hPage := PageBits.toNat_page addr
  have hBoard : (bootBoard r).busRamsize = r.size := rfl
  have hTop : (0xc0000000 + r.size).toNat = 0xc0000000 + r.size.toNat := by
    rw [BitVec.toNat_add_of_lt]
    · rfl
    · change 0xc0000000 + r.size.toNat < 2 ^ 32
      omega
  have hFetch : Fetchable r addr ↔
      0xc0000000 ≤ addr.toNat ∧ addr.toNat < 0xc0000000 + r.size.toNat ∨
        0xffc00000 ≤ addr.toNat ∧ addr.toNat < 0xffc01000 := by
    rw [Fetchable, BitVec.lt_def, hTop]
    exact Iff.rfl
  rw [hFetch, mapmem]
  by_cases hLow : addr &&& 0xfffff000 < Sys161.Riscv.paddrRambase
  · have hLowNat : (addr &&& 0xfffff000).toNat < 0xc0000000 := hLow
    rw [if_pos hLow]
    exact iff_of_false (fun h => h rfl) (by omega)
  · have hHigh : 0xc0000000 ≤ (addr &&& 0xfffff000).toNat := not_lt.mp hLow
    rw [if_neg hLow]
    by_cases hRam : addr &&& 0xfffff000 < Sys161.Riscv.paddrRombase
    · have hRamNat : (addr &&& 0xfffff000).toNat < 0xffc00000 := hRam
      have hSub : ((addr &&& 0xfffff000) - Sys161.Riscv.paddrRambase).toNat =
          addr.toNat / 4096 * 4096 - 0xc0000000 := by
        rw [BitVec.toNat_sub_of_le (BitVec.not_lt.mp hLow), hPage]
        rfl
      rw [if_pos hRam, busMemMap, hBoard]
      split
      · next hOut =>
        rw [BitVec.le_def, hSub] at hOut
        exact iff_of_false (fun h => h rfl) (by omega)
      · next hIn =>
        rw [BitVec.le_def, hSub] at hIn
        exact iff_of_true (fun h => by cases h) (by omega)
    · have hRom : 0xffc00000 ≤ (addr &&& 0xfffff000).toNat := not_lt.mp hRam
      have hSub : ((addr &&& 0xfffff000) - Sys161.Riscv.paddrRombase).toNat =
          addr.toNat / 4096 * 4096 - 0xffc00000 := by
        rw [BitVec.toNat_sub_of_le (BitVec.not_lt.mp hRam), hPage]
        rfl
      rw [if_neg hRam]
      by_cases hBus : addr &&& 0xfffff000 < paddrBusbase
      · have hBusNat : (addr &&& 0xfffff000).toNat < 0xffe00000 := hBus
        rw [if_pos hBus, bootromMap, hSub, Sys161.Mips.romWords]
        split
        · exact iff_of_false (fun h => h rfl) (by omega)
        · exact iff_of_true (fun h => by cases h) (by omega)
      · have hBusNat : 0xffe00000 ≤ (addr &&& 0xfffff000).toNat := not_lt.mp hBus
        rw [if_neg hBus]
        exact iff_of_false (fun h => h rfl) (by omega)

/-- The cpu is as `cpu_init` has left it, as far as this function sees it. -/
structure Fresh (c : Riscvcpu) : Prop where
  cext : c.cext = true
  mmu : c.mmuEnable = false
  stvec : c.stvec = 0xffc00000

variable {m : Machine Unit} {r : Ramsize} {Q : Unit → Machine Unit → Prop}
  {E : Stop → Machine Unit → Prop}

/-- Without address translation the page of the pc is there or not. -/
theorem after_precomputePc_off (hMmu : (m.mycpus 0).mmuEnable = false)
    (hEven : (m.mycpus 0).pc &&& 0x1 = 0) :
    (∃ page, mapmem (bootBoard r) (m.mycpus 0).pc = some page ∧
      (After (precomputePc (bootBoard r) 0) Q E m ↔
        Q () (m.modCpu 0 fun c =>
          { c with
            pcpage := some page
            pcoff := (m.mycpus 0).pc &&& 0xfff
            nextpcoff := (m.mycpus 0).pc &&& 0xfff }))) ∨
      (mapmem (bootBoard r) (m.mycpus 0).pc = none ∧
        (After (precomputePc (bootBoard r) 0) Q E m ↔
          E (.trap (.exception .iaccess (m.mycpus 0).pc))
            (m.modCpu 0 fun c => { c with pcpage := none }))) := by
  unfold precomputePc translatemem
  rw [after_bind, after_getCpu, after_bind, if_neg (not_not.mpr hEven), after_bind, after_getCpu,
    if_pos hMmu, after_pure, after_bind, after_modCpu]
  cases hPage : mapmem (bootBoard r) (m.mycpus 0).pc with
  | some page =>
    refine .inl ⟨page, rfl, ?_⟩
    rw [if_neg (by simp), after_modCpu]
    simp only [Machine.modCpu, Machine.setCpu_mycpus_self, Machine.setCpu_setCpu]
  | none =>
    refine .inr ⟨rfl, ?_⟩
    rw [if_pos rfl, after_raise]

theorem toNat_half (addr : BitVec 32) : (addr &&& 0xfffffffe).toNat = addr.toNat / 2 * 2 := by
  have hLt := addr.isLt
  have hShift : addr &&& 0xfffffffe#32 = addr >>> 1 <<< 1 := by
    rw [BitVec.shiftLeft_ushiftRight]
    rfl
  change (addr &&& 0xfffffffe#32).toNat = _
  rw [hShift, BitVec.toNat_shiftLeft, BitVec.toNat_ushiftRight, Nat.shiftRight_eq_div_pow,
    Nat.shiftLeft_eq]
  omega

theorem align_half (addr : BitVec 32) : (addr &&& 0xfffffffe) &&& 0x1 = 0 := by
  rw [BitVec.and_assoc]
  exact BitVec.and_zero

/-- The first cpu finds the page of its entry, or takes the trap to the boot ROM. -/
theorem after_attempt_entry (hm : Fresh (m.mycpus 0)) {addr : BitVec 32}
    (hPc : (m.mycpus 0).pc = addr) (hEven : addr &&& 0x1 = 0) :
    After (attempt (bootBoard r) 0 (precomputePc (bootBoard r) 0))
      (fun done t => (done = true ↔ Fetchable r addr) ∧ t.hangs = m.hangs ∧
        (t.mycpus 0).pc = if Fetchable r addr then addr else 0xffc00000)
      (fun _ _ => False) m := by
  have hMap := mapmem_bootBoard r addr
  rw [after_attempt]
  rw [← hPc] at hEven
  rcases after_precomputePc_off hm.mmu hEven with ⟨page, hPage, hRun⟩ | ⟨hPage, hRun⟩ <;>
    rw [hRun] <;> rw [hPc] at hPage <;> rw [hPage] at hMap
  · have hFetch := hMap.mp fun h => by cases h
    refine ⟨iff_of_true rfl hFetch, rfl, ?_⟩
    rw [if_pos hFetch, Machine.modCpu_mycpus_self]
    exact hPc
  · have hFetch : ¬ Fetchable r addr := fun h => hMap.mpr h rfl
    have hStvec : mapmem (bootBoard r) 0xffc00000 ≠ none :=
      (mapmem_bootBoard r 0xffc00000).mpr (.inr ⟨by decide, by decide⟩)
    generalize hAt : (m.modCpu 0 fun c => { c with pcpage := none }) = t
    have hCpu : t.mycpus 0 = { m.mycpus 0 with pcpage := none } := by
      rw [← hAt, Machine.modCpu_mycpus_self]
    have hHangs : t.hangs = m.hangs := by
      rw [← hAt]
      rfl
    refine after_trap (bootBoard r) 0 _ (fun hHere => ?_) fun _ => ?_
    · rw [hCpu] at hHere
      refine absurd ?_ hStvec
      rw [← hm.stvec, ← hHere]
      exact (congrArg _ hPc).trans hPage
    · generalize hEnter : (t.modCpu 0 fun c => c.enterTrap _) = u
      have hCpu' : u.mycpus 0 = (t.mycpus 0).enterTrap (.exception .iaccess (m.mycpus 0).pc) := by
        rw [← hEnter, Machine.modCpu_mycpus_self]
      have hMmu : (u.mycpus 0).mmuEnable = false := by
        rw [hCpu', hCpu]
        exact hm.mmu
      have hVector : (u.mycpus 0).pc = 0xffc00000 := by
        rw [hCpu', hCpu]
        exact hm.stvec
      rcases after_precomputePc_off hMmu (by rw [hVector]; decide) with ⟨page, -, hRun'⟩ | ⟨hNone, -⟩
      · rw [hRun']
        refine ⟨iff_of_false (by decide) hFetch, ?_, ?_⟩
        · rw [← hHangs, ← hEnter]
          rfl
        · rw [if_neg hFetch, Machine.modCpu_mycpus_self]
          exact hVector
      · rw [hVector] at hNone
        exact absurd hNone hStvec

theorem enters_eq (r : Ramsize) (entry : BitVec 32) : Core.riscv.enters r entry =
    ⟨if Fetchable r (entry &&& 0xfffffffe) then entry &&& 0xfffffffe else 0xffc00000,
      (if entry &&& 0xfffffffe = entry then [] else [.inr .entryNotAligned]) ++
        if Fetchable r (entry &&& 0xfffffffe) then [] else [.inr .entryInvalid]⟩ :=
  rfl

theorem after_cpuSetEntrypoint (hm : Fresh (m.mycpus 0)) (hHangs : m.hangs = [])
    (entry : BitVec 32) :
    After (cpuSetEntrypoint (bootBoard r) 0 entry)
      (fun _ t => (⟨(t.mycpus 0).pc, t.hangs.reverse.map .inr⟩ : BootEntry) =
        Core.riscv.enters r entry) (fun _ _ => False) m := by
  have hRest (t : Machine Unit) (hSame : t.mycpus 0 = m.mycpus 0)
      (hList : t.hangs = if entry &&& 0xfffffffe = entry then [] else [.entryNotAligned]) :
      After (do
        modCpu 0 fun c => { c with pc := entry &&& 0xfffffffe }
        if ← attempt (bootBoard r) 0 (precomputePc (bootBoard r) 0) then
          pure ()
        else
          hang .entryInvalid)
        (fun _ t => (⟨(t.mycpus 0).pc, t.hangs.reverse.map .inr⟩ : BootEntry) =
          Core.riscv.enters r entry) (fun _ _ => False) t := by
    rw [← hSame] at hm
    rw [after_bind, after_modCpu, after_bind]
    generalize hAt : (t.modCpu 0 fun c => { c with pc := entry &&& 0xfffffffe }) = u
    have hCpu : u.mycpus 0 = { t.mycpus 0 with pc := entry &&& 0xfffffffe } := by
      rw [← hAt, Machine.modCpu_mycpus_self]
    have hKeep : u.hangs = t.hangs := by
      rw [← hAt]
      rfl
    have hFresh : Fresh (u.mycpus 0) := by
      rw [hCpu]
      exact ⟨hm.cext, hm.mmu, hm.stvec⟩
    refine (after_attempt_entry hFresh (by rw [hCpu]) (align_half entry)).mono ?_ fun _ _ h => h
    rintro done v ⟨hDone, hAll, hPc⟩
    rw [after_ite, after_pure, after_hang]
    change if done = true then BootEntry.mk (v.mycpus 0).pc (v.hangs.reverse.map .inr) = _ else
      BootEntry.mk (v.mycpus 0).pc ((Hang.entryInvalid :: v.hangs).reverse.map .inr) = _
    rw [hPc, hAll, hKeep, hList, enters_eq]
    rcases Decidable.em (entry &&& 0xfffffffe = entry) with hAligned | hAligned <;>
      rcases Decidable.em (Fetchable r (entry &&& 0xfffffffe)) with hFetch | hFetch
    · simp only [if_pos (hDone.mpr hFetch), if_pos hAligned, if_pos hFetch]
      rfl
    · simp only [if_neg fun h => hFetch (hDone.mp h), if_pos hAligned, if_neg hFetch]
      rfl
    · simp only [if_pos (hDone.mpr hFetch), if_neg hAligned, if_pos hFetch]
      rfl
    · simp only [if_neg fun h => hFetch (hDone.mp h), if_neg hAligned, if_neg hFetch]
      rfl
  unfold cpuSetEntrypoint
  rw [after_bind, after_getCpu, hm.cext, if_pos rfl]
  dsimp only
  split
  · next hNot =>
    rw [after_bind, after_hang]
    refine hRest _ rfl ?_
    rw [if_neg hNot]
    exact congrArg _ hHangs
  · next hAligned =>
    refine hRest m rfl ?_
    rw [if_pos (not_not.mp hAligned), hHangs]

theorem setEntrypoint_eq (r : Ramsize) (entry : BitVec 32) :
    Core.riscv.setEntrypoint r entry = some (Core.riscv.enters r entry) :=
  Scripts.yields_of_after (after_cpuSetEntrypoint ⟨rfl, rfl, rfl⟩ rfl entry)

end Riscv

/-- `cpu_set_entrypoint` comes to its end, and leaves what the addresses say. -/
theorem setEntrypoint_eq (core : Core) (r : Ramsize) (entry : BitVec 32) :
    core.setEntrypoint r entry = some (core.enters r entry) := by
  cases core with
  | mips => exact Mips.setEntrypoint_eq r entry
  | riscv => exact Riscv.setEntrypoint_eq r entry

end Sys161.Bus
