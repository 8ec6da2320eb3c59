import Sys161.Mips.Runs

/-!
# Translations of the fetch position

What a translation depends on, and what the functions that compute translations
ahead of a fetch come to.
-/

namespace Sys161.Mips

open Exec

set_option autoImplicit false

variable {δ : Type} (b : Board δ) (i : Nat)

/-- What a translation depends on. -/
structure Mapping where
  usermode : Bool
  tlb : Nat → Mipstlb
  pid : Word

def Mipscpu.mapping (c : Mipscpu) : Mapping := ⟨c.currentUsermode, c.tlb, c.tlbentry.mtPid⟩

namespace Mapping

variable (mp : Mapping)

/-- The TLB entry for a page. -/
def entry (vpage : Word) : Option Mipstlb :=
  ((List.range ntlb).find? fun ix => (mp.tlb ix).hits vpage mp.pid).map mp.tlb

def translate (vaddr : Word) (iswrite : Bool) : Except Exn Word :=
  if (0x80000000 ≤ vaddr ∧ mp.usermode = true) ∨ vaddr &&& 0x3 ≠ 0 then
    .error ⟨if iswrite then .ades else .adel, 0, vaddr⟩
  else if vaddr >>> 30 = 2 then .ok (vaddr &&& 0x1fffffff)
  else mapped vaddr iswrite (mp.entry (vaddr &&& 0xfffff000))

/-- Where the instruction at an address lies in memory, or why it cannot be fetched. -/
def fetch (vaddr : Word) : Except Exn (Page × Word) :=
  match mp.translate vaddr false with
  | .error e => .error e
  | .ok paddr =>
    match mapmem b paddr with
    | some page => .ok (page, paddr &&& 0xfff)
    | none => .error ⟨.ibe, 0, 0⟩

end Mapping

theorem mapped_eq_ok_iff {vaddr paddr : Word} {iswrite : Bool} {entry : Option Mipstlb} :
    mapped vaddr iswrite entry = .ok paddr ↔ ∃ mt, entry = some mt ∧ mt.mtValid = true ∧
      (iswrite = true → mt.mtDirty = true) ∧ paddr = mt.mtPfn ||| (vaddr &&& 0xfff) := by
  unfold mapped
  cases entry with
  | none => simp
  | some mt =>
    have hSome : ∀ P : Mipstlb → Prop, (∃ mt', some mt = some mt' ∧ P mt') ↔ P mt := by simp
    rw [hSome]
    dsimp only
    split
    · rename_i hValid
      simp [hValid]
    · rename_i hValid
      split
      · rename_i hDirty
        simp [hDirty]
      · rename_i hDirty
        have hTrue : mt.mtValid = true := by simpa using hValid
        have hWrite : iswrite = true → mt.mtDirty = true := by simpa using hDirty
        rw [Except.ok.injEq]
        exact ⟨fun h => ⟨hTrue, hWrite, h.symm⟩, fun h => h.2.2.symm⟩

/-- The cpu with TLBHI as a translation leaves it. -/
def Mipscpu.translated (c : Mipscpu) (vaddr : Word) (iswrite : Bool) : Mipscpu :=
  (translate c vaddr iswrite).2

theorem translate_fst (c : Mipscpu) (vaddr : Word) (iswrite : Bool) :
    (translate c vaddr iswrite).1 = c.mapping.translate vaddr iswrite := by
  have hMode : c.mapping.usermode = c.currentUsermode := rfl
  unfold translate Mapping.translate
  rw [hMode]
  split
  · rfl
  · split <;> rfl

theorem translated_eq (c : Mipscpu) (vaddr : Word) (iswrite : Bool) :
    c.translated vaddr iswrite = c ∨
      c.translated vaddr iswrite = c.setVpn (vaddr &&& 0xfffff000) := by
  unfold Mipscpu.translated translate
  split
  · exact .inl rfl
  · split
    · exact .inl rfl
    · exact .inr rfl

@[simp] theorem translated_mapping (c : Mipscpu) (vaddr : Word) (iswrite : Bool) :
    (c.translated vaddr iswrite).mapping = c.mapping := by
  obtain h | h := translated_eq c vaddr iswrite <;> rw [h]
  rfl

@[simp] theorem translated_toFetchState (c : Mipscpu) (vaddr : Word) (iswrite : Bool) :
    (c.translated vaddr iswrite).toFetchState = c.toFetchState := by
  obtain h | h := translated_eq c vaddr iswrite <;> rw [h]
  rfl

/-- Addresses of kseg0 and kseg1 leave TLBHI alone. -/
theorem translated_unmapped {c : Mipscpu} {vaddr : Word} {iswrite : Bool} (h : vaddr >>> 30 = 2) :
    c.translated vaddr iswrite = c := by
  unfold Mipscpu.translated translate
  split
  · rfl
  · rfl

/-! ## The functions that translate -/

section After

variable {E : Stop → Machine δ → Prop} (m : Machine δ)

theorem after_translatemem {Q : Word → Machine δ → Prop} (vaddr : Word) (iswrite : Bool) :
    After (translatemem b i vaddr iswrite) Q E m ↔
      match (m.mycpus i).mapping.translate vaddr iswrite with
      | .ok paddr => Q paddr (m.setCpu i ((m.mycpus i).translated vaddr iswrite))
      | .error e =>
        E .exception (m.setCpu i (((m.mycpus i).translated vaddr iswrite).exception b e)) := by
  rw [← translate_fst]
  unfold translatemem
  rw [after_bind, after_getCpu, after_bind, after_modCpu]
  cases (translate (m.mycpus i) vaddr iswrite).1 with
  | ok paddr => rfl
  | error e =>
    rw [after_raise]
    simp [Machine.modCpu, Mipscpu.translated]

/-- The cpu with the translation of the pc put in. -/
def Mipscpu.setPcpage (c : Mipscpu) (page : Page) (off : Word) : Mipscpu :=
  { c with pcpage := some page, pcoff := off }

def Mipscpu.setNextpcpage (c : Mipscpu) (page : Page) (off : Word) : Mipscpu :=
  { c with nextpcpage := some page, nextpcoff := off }

theorem after_precomputePc {Q : Unit → Machine δ → Prop} :
    After (precomputePc b i) Q E m ↔
      let c := m.mycpus i
      match c.mapping.fetch b c.pc with
      | .ok (page, off) => Q () (m.setCpu i ((c.translated c.pc false).setPcpage page off))
      | .error e => E .exception (m.setCpu i ((c.translated c.pc false).exception b e)) := by
  unfold precomputePc
  rw [after_bind, after_getCpu, after_bind, after_translatemem]
  unfold Mapping.fetch
  dsimp only
  cases hPaddr : (m.mycpus i).mapping.translate (m.mycpus i).pc false with
  | error e => rfl
  | ok paddr =>
    dsimp only
    rw [after_bind, after_modCpu]
    cases hPage : mapmem b paddr with
    | none =>
      rw [if_pos rfl, after_raise]
      simp only [Machine.modCpu, Machine.setCpu_mycpus_self, Machine.setCpu_setCpu]
      rfl
    | some page =>
      rw [if_neg (by simp), after_modCpu]
      simp only [Machine.modCpu, Machine.setCpu_mycpus_self, Machine.setCpu_setCpu]
      rfl

theorem after_precomputeNextpc {Q : Unit → Machine δ → Prop} :
    After (precomputeNextpc b i) Q E m ↔
      let c := m.mycpus i
      match c.mapping.fetch b c.nextpc with
      | .ok (page, off) =>
        Q () (m.setCpu i ((c.translated c.nextpc false).setNextpcpage page off))
      | .error e => E .exception (m.setCpu i ((c.translated c.nextpc false).exception b e)) := by
  unfold precomputeNextpc
  rw [after_bind, after_getCpu, after_bind, after_translatemem]
  unfold Mapping.fetch
  dsimp only
  cases hPaddr : (m.mycpus i).mapping.translate (m.mycpus i).nextpc false with
  | error e => rfl
  | ok paddr =>
    dsimp only
    rw [after_bind, after_modCpu]
    cases hPage : mapmem b paddr with
    | none =>
      rw [if_pos rfl, after_raise]
      simp only [Machine.modCpu, Machine.setCpu_mycpus_self, Machine.setCpu_setCpu]
      rfl
    | some page =>
      rw [if_neg (by simp), after_modCpu]
      simp only [Machine.modCpu, Machine.setCpu_mycpus_self, Machine.setCpu_setCpu]
      rfl

end After

/-! ## Exceptions -/

/-- The vectors of `exception()`. -/
theorem exception_pc (c : Mipscpu) (e : Exn) :
    (c.exception b e).pc = 0x80000000 ∨ (c.exception b e).pc = 0x80000080 ∨
      (c.exception b e).pc = 0xbfc00100 ∨ (c.exception b e).pc = 0xbfc00180 := by
  simp only [Mipscpu.exception, Mipscpu.precomputeVector, Mipscpu.exceptionRegs]
  split <;> split <;> simp

theorem exception_nextpc (c : Mipscpu) (e : Exn) :
    (c.exception b e).nextpc = (c.exception b e).pc + 4 := rfl

/-- Addresses of kseg0 and kseg1 in memory translate by stripping the segment, in kernel mode. -/
theorem fetch_unmapped {mp : Mapping} (hUser : mp.usermode = false) {vaddr : Word}
    (hAlign : vaddr &&& 0x3 = 0) (hSeg : vaddr >>> 30 = 2) {page : Page}
    (hPage : mapmem b (vaddr &&& 0x1fffffff) = some page) :
    mp.fetch b vaddr = .ok (page, vaddr &&& 0x1fffffff &&& 0xfff) := by
  have hOk : ¬((0x80000000 ≤ vaddr ∧ mp.usermode = true) ∨ vaddr &&& 0x3 ≠ 0) := by
    rw [hUser, hAlign]
    simp
  unfold Mapping.fetch Mapping.translate
  rw [if_neg hOk, if_pos hSeg]
  dsimp only
  rw [hPage]

theorem busMemMap_zero : busMemMap b 0 = some (.ram 0) := by
  have hPos : ¬ b.busRamsize ≤ 0 := by
    have hne := b.ramsize_ne
    bv_omega
  simp only [busMemMap, if_neg hPos]

/-- The vectors lie on pages that are always there. -/
theorem mapmem_vector {vaddr : Word} (h : vaddr = 0x80000000 ∨ vaddr = 0x80000080 ∨
    vaddr = 0xbfc00100 ∨ vaddr = 0xbfc00180) :
    ∃ page, mapmem b (vaddr &&& 0x1fffffff) = some page ∧
      mapmem b ((vaddr + 4) &&& 0x1fffffff) = some page := by
  obtain rfl | rfl | rfl | rfl := h
  · exact ⟨.ram 0, busMemMap_zero b, busMemMap_zero b⟩
  · exact ⟨.ram 0, busMemMap_zero b, busMemMap_zero b⟩
  · exact ⟨.rom 0, rfl, rfl⟩
  · exact ⟨.rom 0, rfl, rfl⟩

/-- After an exception the pages are those that `precompute_pc` and `precompute_nextpc` find. -/
theorem exception_precomputed (c : Mipscpu) (e : Exn) : ∃ page,
    (c.exception b e).pcpage = some page ∧ (c.exception b e).nextpcpage = some page ∧
    (c.exception b e).mapping.fetch b (c.exception b e).pc =
      .ok (page, (c.exception b e).pcoff) ∧
    (c.exception b e).mapping.fetch b (c.exception b e).nextpc =
      .ok (page, (c.exception b e).nextpcoff) := by
  obtain ⟨page, hPc, hNextpc⟩ := mapmem_vector b (exception_pc b c e)
  have hPcpage : (c.exception b e).pcpage = mapmem b ((c.exception b e).pc &&& 0x1fffffff) := rfl
  have hNextpcpage : (c.exception b e).nextpcpage =
      mapmem b (((c.exception b e).pc + 4) &&& 0x1fffffff) := rfl
  have hPcoff : (c.exception b e).pcoff = (c.exception b e).pc &&& 0xfff := rfl
  have hNextpcoff : (c.exception b e).nextpcoff = ((c.exception b e).pc + 4) &&& 0xfff := rfl
  have hUser : (c.exception b e).mapping.usermode = false := rfl
  rw [hPcpage, hNextpcpage, hPcoff, hNextpcoff, exception_nextpc]
  refine ⟨page, hPc, hNextpc, ?_, ?_⟩
  · obtain h | h | h | h := exception_pc b c e <;> rw [h] at hPc ⊢ <;>
      rw [fetch_unmapped b hUser (by decide) (by decide) hPc] <;> rfl
  · obtain h | h | h | h := exception_pc b c e <;> rw [h] at hNextpc ⊢ <;>
      rw [fetch_unmapped b hUser (by decide) (by decide) hNextpc] <;> rfl

end Sys161.Mips
