import Sys161.Lib.Flags
import Sys161.Mips.Precise
import Sys161.Mips.Random

/-!
# The TLB as a program uses it

The registers TLBHI, TLBLO and INDEX and the entries, and what the instructions
for them come to in a kernel that runs from an unmapped segment. What is written
to an entry is read back, and found.
-/

namespace Sys161.Mips

open Exec Runs

set_option autoImplicit false

/-! ## The registers -/

structure TlbUnit where
  tlb : Nat → Mipstlb
  tlbentry : Mipstlb
  tlbindex : Nat
  tlbpf : Bool

def Mipscpu.tlbUnit (c : Mipscpu) : TlbUnit := ⟨c.tlb, c.tlbentry, c.tlbindex, c.tlbpf⟩

/-- The instructions for the TLB, with what they write. -/
inductive TlbOp where
  | mtTlbhi (val : Word)
  | mtTlblo (val : Word)
  | mtIndex (val : Word)
  | tlbwi
  | tlbr
  | tlbp

def TlbUnit.find (u : TlbUnit) : Option Nat :=
  (List.range ntlb).find? fun ix => (u.tlb ix).hits u.tlbentry.mtVpn u.tlbentry.mtPid

namespace TlbOp

def apply (op : TlbOp) (u : TlbUnit) : TlbUnit :=
  match op with
  | mtTlbhi val => { u with tlbentry := tlbsethi u.tlbentry val }
  | mtTlblo val => { u with tlbentry := tlbsetlo u.tlbentry val }
  | mtIndex val =>
    { u with tlbindex := ((val >>> 8) &&& 63).toNat, tlbpf := val &&& 0x80000000 ≠ 0 }
  | tlbwi => { u with tlb := Function.update u.tlb u.tlbindex u.tlbentry }
  | tlbr => { u with tlbentry := u.tlb u.tlbindex }
  | tlbp =>
    match u.find with
    | none => { u with tlbpf := true }
    | some ix => { u with tlbindex := ix, tlbpf := false }

/-- The instruction word is for the operation. -/
def Encodes (op : TlbOp) (insn : Word) (c : Mipscpu) : Prop :=
  match op with
  | mtTlbhi val => IsMtc0 insn .tlbhi ∧ c.r (rt insn) = val
  | mtTlblo val => IsMtc0 insn .tlblo ∧ c.r (rt insn) = val
  | mtIndex val => IsMtc0 insn .index ∧ c.r (rt insn) = val
  | tlbwi => cop0Op insn ∧ (insn &&& 0x01ffffff).toNat = 2
  | tlbr => cop0Op insn ∧ (insn &&& 0x01ffffff).toNat = 1
  | tlbp => cop0Op insn ∧ (insn &&& 0x01ffffff).toNat = 8

end TlbOp

/-- The kernel runs from an unmapped segment. -/
structure Mipscpu.Unmapped (c : Mipscpu) : Prop where
  mode : c.currentUsermode = false
  pc : c.pc >>> 30 = 2
  nextpc : c.nextpc >>> 30 = 2

/-! ## What is read back -/

theorem tlbgethi_tlbsethi (mt : Mipstlb) (val : Word) :
    tlbgethi (tlbsethi mt val) = val &&& 0xffffffc0 := by
  have hPid : (val &&& 0xfc0) >>> 6 <<< 6 = val &&& 0xfc0 := by
    rw [BitVec.shiftLeft_ushiftRight, BitVec.and_assoc]
    rfl
  rw [tlbgethi, tlbsethi, hPid, ← BitVec.and_or_distrib_left]
  rfl

theorem tlbgetlo_tlbsetlo (mt : Mipstlb) (val : Word) :
    tlbgetlo (tlbsetlo mt val) = val &&& 0xffffff00 := by
  have hGlobal : (if (tlbsetlo mt val).mtGlobal then 0x100 else 0) = val &&& 0x100 :=
    Flags.ite_and_eq val 8 (by decide)
  have hValid : (if (tlbsetlo mt val).mtValid then 0x200 else 0) = val &&& 0x200 :=
    Flags.ite_and_eq val 9 (by decide)
  have hDirty : (if (tlbsetlo mt val).mtDirty then 0x400 else 0) = val &&& 0x400 :=
    Flags.ite_and_eq val 10 (by decide)
  have hNocache : (if (tlbsetlo mt val).mtNocache then 0x800 else 0) = val &&& 0x800 :=
    Flags.ite_and_eq val 11 (by decide)
  rw [tlbgetlo, hGlobal, hValid, hDirty, hNocache]
  simp only [tlbsetlo, ← BitVec.and_or_distrib_left]
  rfl

theorem tlbgethi_tlbsetlo (mt : Mipstlb) (val : Word) : tlbgethi (tlbsetlo mt val) = tlbgethi mt :=
  rfl

theorem ofNat_index (val : Word) :
    BitVec.ofNat 32 ((val >>> 8) &&& 63).toNat <<< 8 = val &&& 0x3f00 := by
  have hMask : (val >>> 8) &&& (63 : Word) = (val &&& 0x3f00) >>> 8 := by
    rw [BitVec.ushiftRight_and_distrib]
    rfl
  rw [BitVec.ofNat_toNat, BitVec.setWidth_eq, hMask, BitVec.shiftLeft_ushiftRight, BitVec.and_assoc]
  rfl

theorem getindex_setindex (c : Mipscpu) (val : Word) :
    (c.setindex val).getindex = val &&& 0x80003f00 := by
  have hPf : (if (c.setindex val).tlbpf then 0x80000000 else 0) = val &&& 0x80000000 :=
    Flags.ite_and_eq val 31 (by decide)
  rw [Mipscpu.getindex, hPf]
  change BitVec.ofNat 32 ((val >>> 8) &&& 63).toNat <<< 8 ||| _ = _
  rw [ofNat_index, ← BitVec.and_or_distrib_left]
  rfl

/-- An entry is for the page of TLBHI, and for its id. -/
def Mipstlb.Matches (mt : Mipstlb) (tlbhi : Word) : Prop :=
  mt.mtVpn = tlbhi &&& 0xfffff000 ∧ (mt.mtGlobal = true ∨ mt.mtPid = (tlbhi &&& 0xfc0) >>> 6)

theorem Mipstlb.hits_tlbhi_iff (mt mt' : Mipstlb) (tlbhi : Word) :
    mt.hits (tlbsethi mt' tlbhi).mtVpn (tlbsethi mt' tlbhi).mtPid = true ↔ mt.Matches tlbhi := by
  rw [Mipstlb.hits_iff, Or.comm]
  rfl

theorem tlbsethi_congr {tlbhi tlbhi' : Word} (h : tlbhi' &&& 0xffffffc0 = tlbhi &&& 0xffffffc0)
    (mt : Mipstlb) : tlbsethi mt tlbhi' = tlbsethi mt tlbhi := by
  have hVpn := congrArg (· &&& (0xfffff000 : Word)) h
  have hPid := congrArg (· &&& (0xfc0 : Word)) h
  simp only [BitVec.and_assoc] at hVpn hPid
  change tlbhi' &&& 0xfffff000 = tlbhi &&& 0xfffff000 at hVpn
  change tlbhi' &&& 0xfc0 = tlbhi &&& 0xfc0 at hPid
  simp only [tlbsethi, hVpn, hPid]

/-- The scan finds an entry that is alone in matching. -/
theorem TlbUnit.find_eq {u : TlbUnit} {ix : Nat} (hix : ix < ntlb)
    (hHit : (u.tlb ix).hits u.tlbentry.mtVpn u.tlbentry.mtPid = true)
    (hAlone : ∀ ix' < ntlb, ix' ≠ ix → (u.tlb ix).dup (u.tlb ix') = false) : u.find = some ix := by
  cases hFind : u.find with
  | none => exact absurd hHit (List.find?_eq_none.mp hFind ix (List.mem_range.mpr hix))
  | some ix' =>
    have hIn : ix' < ntlb := List.mem_range.mp (List.mem_of_find?_eq_some hFind)
    have hHit' : (u.tlb ix').hits u.tlbentry.mtVpn u.tlbentry.mtPid = true := by
      have hFound := List.find?_some hFind
      exact hFound
    by_cases hSame : ix' = ix
    · rw [hSame]
    · have hDup := dup_of_hits hHit hHit'
      rw [hAlone ix' hIn hSame] at hDup
      cases hDup

theorem TlbUnit.find_eq_none {u : TlbUnit}
    (h : ∀ ix < ntlb, (u.tlb ix).hits u.tlbentry.mtVpn u.tlbentry.mtPid ≠ true) : u.find = none :=
  List.find?_eq_none.mpr fun ix hix => h ix (List.mem_range.mp hix)

variable {δ : Type} {b : Board δ} (i : Nat)

/-! ## Unmapped code -/

theorem unmapped_exception (c : Mipscpu) (e : Exn) : (c.exception b e).Unmapped where
  mode := rfl
  pc := by obtain h | h | h | h := exception_pc b c e <;> rw [h] <;> rfl
  nextpc := by
    rw [exception_nextpc]
    obtain h | h | h | h := exception_pc b c e <;> rw [h] <;> rfl

/-- Cpu `i` runs from an unmapped segment, with these registers. -/
structure Holds (u : TlbUnit) (hangs : List Hang) (m : Machine δ) : Prop where
  unmapped : (m.mycpus i).Unmapped
  unit : (m.mycpus i).tlbUnit = u
  hangs : m.hangs = hangs

section Holds

variable {i} {u : TlbUnit} {hangs : List Hang} {m : Machine δ}

theorem Holds.setCpu (h : Holds i u hangs m) {c : Mipscpu} (hUnmapped : c.Unmapped)
    (hUnit : c.tlbUnit = (m.mycpus i).tlbUnit) : Holds i u hangs (m.setCpu i c) where
  unmapped := by
    rw [Machine.setCpu_mycpus_self]
    exact hUnmapped
  unit := by rw [Machine.setCpu_mycpus_self, hUnit, h.unit]
  hangs := h.hangs

/-- The translations of unmapped addresses leave the registers alone, also where there is no memory
at the address. -/
theorem Holds.precomputePc (h : Holds i u hangs m) :
    After (precomputePc b i) (fun _ => Holds i u hangs) (Posted (Holds i u hangs)) m := by
  rw [after_precomputePc]
  dsimp only
  rw [translated_unmapped h.unmapped.pc]
  split
  · exact h.setCpu ⟨h.unmapped.mode, h.unmapped.pc, h.unmapped.nextpc⟩ rfl
  · exact ⟨rfl, h.setCpu (unmapped_exception _ _) rfl⟩

theorem Holds.precomputeNextpc (h : Holds i u hangs m) :
    After (precomputeNextpc b i) (fun _ => Holds i u hangs) (Posted (Holds i u hangs)) m := by
  rw [after_precomputeNextpc]
  dsimp only
  rw [translated_unmapped h.unmapped.nextpc]
  split
  · exact h.setCpu ⟨h.unmapped.mode, h.unmapped.pc, h.unmapped.nextpc⟩ rfl
  · exact ⟨rfl, h.setCpu (unmapped_exception _ _) rfl⟩

theorem keeps_precomputeBoth (E : Stop → Machine δ → Prop) :
    Keeps (Holds i u hangs) E (precomputeBoth b i) :=
  Keeps.bind (keeps_attempt_posted fun _ h => h.precomputePc) fun _ =>
    Keeps.bind (keeps_attempt_posted fun _ h => h.precomputeNextpc) fun _ => Keeps.pure _

end Holds

/-! ## Turns -/

/-- What a turn does before it executes an instruction. -/
structure SameTlb (m t : Machine δ) : Prop where
  unit : (t.mycpus i).tlbUnit = (m.mycpus i).tlbUnit
  r : (t.mycpus i).r = (m.mycpus i).r
  hangs : t.hangs = m.hangs

theorem startCycle_tlb (c : Mipscpu) :
    (c.startCycle b).tlbUnit = c.tlbUnit ∧ (c.startCycle b).r = c.r := by
  unfold Mipscpu.startCycle Mipscpu.updateExpc
  dsimp only
  split <;> split <;> exact ⟨rfl, rfl⟩

theorem advancePc_sameTlb (insn : Word) (m : Machine δ) :
    After (advancePc b i insn) (fun _ t => (t.mycpus i).nextpc >>> 30 = 2 → SameTlb i m t)
      (fun _ _ => True) m := by
  unfold advancePc
  rw [after_bind, after_modCpu, after_bind, after_getCpu, after_ite]
  generalize hm : m.modCpu i Mipscpu.advance = m₁
  have hCpu : m₁.mycpus i = (m.mycpus i).advance := by rw [← hm, Machine.modCpu_mycpus_self]
  have hHangs : m₁.hangs = m.hangs := by rw [← hm]; rfl
  have hSet : ∀ c : Mipscpu, c.tlbUnit = (m.mycpus i).tlbUnit → c.r = (m.mycpus i).r →
      SameTlb i m (m₁.setCpu i c) := by
    intro c hUnit hr
    constructor
    · rw [Machine.setCpu_mycpus_self, hUnit]
    · rw [Machine.setCpu_mycpus_self, hr]
    · exact hHangs
  split
  · rw [after_ite]
    split
    · rw [after_modCpu, Machine.modCpu, hCpu]
      exact fun _ => hSet _ rfl rfl
    · rw [after_precomputeNextpc]
      dsimp only
      split
      · intro hNextpc
        rw [Machine.setCpu_mycpus_self, Mipscpu.setNextpcpage] at hNextpc
        dsimp only at hNextpc
        rw [translated_toFetchState] at hNextpc
        rw [translated_unmapped hNextpc, hCpu]
        exact hSet _ rfl rfl
      · trivial
  · rw [after_modCpu, Machine.modCpu, hCpu]
    exact fun _ => hSet _ rfl rfl

theorem issue_sameTlb (m : Machine δ) :
    After (issue b i)
      (fun is t => ∀ insn, is = .insn insn → (t.mycpus i).nextpc >>> 30 = 2 → SameTlb i m t)
      (fun _ _ => True) m := by
  unfold issue countCycle
  rw [after_bind, after_getCpu, after_ite]
  split
  · exact nofun
  rw [after_bind, after_modCpu, after_bind, after_modify]
  generalize hm₁ : Machine.countStats _ _ _ = m₁
  have hCpu : m₁.mycpus i = (m.mycpus i).startCycle b := by
    rw [← hm₁]
    exact Machine.modCpu_mycpus_self m i _
  have hHangs : m₁.hangs = m.hangs := by rw [← hm₁]; rfl
  obtain ⟨hUnit, hr⟩ := startCycle_tlb (b := b) (m.mycpus i)
  unfold fetch
  rw [after_bind, after_getCpu, after_bind]
  cases (m₁.mycpus i).pcpage with
  | none => trivial
  | some page =>
    rw [after_useMap_some, after_bind, after_attempt]
    refine (advancePc_sameTlb i _ m₁).mono (fun _ t ht => ?_) fun e t _ => ?_
    · rw [if_pos rfl, after_bind, after_modCpu, after_bind, after_get, after_bind, after_getCpu,
        after_ite]
      split
      · rw [after_bind]
        exact after_of_forall (fun _ _ => nofun) fun _ _ => trivial
      · intro insn _ hNextpc
        rw [Machine.modCpu_mycpus_self] at hNextpc
        have hSame := ht hNextpc
        constructor
        · rw [Machine.modCpu_mycpus_self, ← hUnit, ← hCpu, ← hSame.unit]
          rfl
        · rw [Machine.modCpu_mycpus_self, ← hr, ← hCpu, ← hSame.r]
        · exact hSame.hangs.trans hHangs
    · cases e with
      | exception => exact nofun
      | smoke | undefined => trivial

section Execute

variable {t : Machine δ} {insn : Word}

theorem writetlb_holds (hUnmapped : (t.mycpus i).Unmapped) :
    After (writetlb b i (t.mycpus i).tlbindex)
      (fun _ => Holds i (TlbOp.tlbwi.apply (t.mycpus i).tlbUnit)
        ((dupHangs (TlbOp.tlbwi.apply (t.mycpus i).tlbUnit).tlb (t.mycpus i).tlbindex
          (List.range ntlb)).reverse ++ t.hangs))
      (fun e _ => e ≠ .exception) t := by
  unfold writetlb
  rw [after_ite]
  split
  · rw [after_bind, after_modCpu, after_bind, Int.toNat_natCast]
    refine (after_checkTlbDups i _ _).mono ?_ fun _ _ h => h.elim
    rintro _ m' ⟨hCpus, -, hHangs⟩
    have hCpu : m'.mycpus i =
        { t.mycpus i with
          tlb := Function.update (t.mycpus i).tlb (t.mycpus i).tlbindex (t.mycpus i).tlbentry } := by
      rw [hCpus, Machine.modCpu_mycpus_self]
    refine keeps_precomputeBoth _ m' ⟨?_, ?_, ?_⟩
    · rw [hCpu]
      exact ⟨hUnmapped.mode, hUnmapped.pc, hUnmapped.nextpc⟩
    · rw [hCpu]
      rfl
    · rw [hHangs, Machine.modCpu_mycpus_self]
      rfl
  · exact nofun

theorem execute_tlbwi (hOp : TlbOp.tlbwi.Encodes insn (t.mycpus i))
    (hUnmapped : (t.mycpus i).Unmapped) :
    After (execute b i insn)
      (fun _ => Holds i (TlbOp.tlbwi.apply (t.mycpus i).tlbUnit)
        ((dupHangs (TlbOp.tlbwi.apply (t.mycpus i).tlbUnit).tlb (t.mycpus i).tlbindex
          (List.range ntlb)).reverse ++ t.hangs))
      (fun e _ => e ≠ .exception) t := by
  rw [after_execute_cop0 i hOp.1 hUnmapped.mode]
  simp only [mxCop0, hOp.2, mxTlbwi, after_bind, after_getCpu]
  exact writetlb_holds i hUnmapped

theorem execute_tlbUnit {op : TlbOp} (hOp : op.Encodes insn (t.mycpus i))
    (hUnmapped : (t.mycpus i).Unmapped) :
    After (execute b i insn)
      (fun _ m' => (m'.mycpus i).tlbUnit = op.apply (t.mycpus i).tlbUnit)
      (fun e _ => e ≠ .exception) t := by
  have hUser := hUnmapped.mode
  cases op with
  | mtTlbhi val =>
    rw [after_execute_mtc0 i hOp.1 nofun hUser, Machine.modCpu_mycpus_self, hOp.2]
    rfl
  | mtTlblo val =>
    rw [after_execute_mtc0 i hOp.1 nofun hUser, Machine.modCpu_mycpus_self, hOp.2]
    rfl
  | mtIndex val =>
    rw [after_execute_mtc0 i hOp.1 nofun hUser, Machine.modCpu_mycpus_self, hOp.2]
    rfl
  | tlbwi => exact (execute_tlbwi i hOp hUnmapped).mono (fun _ _ h => h.unit) fun _ _ h => h
  | tlbr =>
    rw [after_execute_cop0 i hOp.1 hUser]
    simp only [mxCop0, hOp.2, mxTlbr, after_modCpu, Machine.modCpu_mycpus_self]
    rfl
  | tlbp =>
    have hFind : findtlb (t.mycpus i) (t.mycpus i).tlbentry.mtVpn = (t.mycpus i).tlbUnit.find := rfl
    rw [after_execute_cop0 i hOp.1 hUser]
    simp only [mxCop0, hOp.2, mxTlbp, probetlb, after_bind, after_getCpu, hFind, TlbOp.apply]
    cases (t.mycpus i).tlbUnit.find with
    | none =>
      rw [after_modCpu, Machine.modCpu_mycpus_self]
      rfl
    | some ix =>
      rw [after_modCpu, Machine.modCpu_mycpus_self]
      rfl

end Execute

/-! ## Programs -/

variable (b) in
/-- Cpu `i` executes an instruction for the TLB in its turn, in unmapped code. -/
structure Executes (op : TlbOp) (m m' : Machine δ) : Prop where
  step : Step b m (.turn i) m'
  issued : ∃ insn t, (issue b i).run m = .ok (.insn insn) t ∧ op.Encodes insn (m.mycpus i) ∧
    (t.mycpus i).Unmapped

variable (b) in
/-- A step of a program; those that have no label leave the registers alone. -/
def ProgramStep (m : Machine δ) (op : Option TlbOp) (m' : Machine δ) : Prop :=
  match op with
  | some op => Executes b i op m m'
  | none => (∃ a, Step b m a m') ∧ (m'.mycpus i).tlbUnit = (m.mycpus i).tlbUnit

variable (b) in
/-- Cpu `i` executes these instructions, and others between them. -/
def Program (ops : List TlbOp) (m m' : Machine δ) : Prop :=
  ∃ p, Path (ProgramStep b i) m p m' ∧ p.filterMap Prod.fst = ops

section Program

variable {i} {m m' : Machine δ}

theorem TlbOp.encodes_of_same {op : TlbOp} {insn : Word} {m t : Machine δ} (hSame : SameTlb i m t)
    (h : op.Encodes insn (m.mycpus i)) : op.Encodes insn (t.mycpus i) := by
  cases op <;> simp only [TlbOp.Encodes, hSame.r] at h ⊢ <;> exact h

/-- The instruction, with the machine in which it is executed and the one in which it ends. -/
theorem Executes.ends {op : TlbOp} (h : Executes b i op m m') :
    ∃ insn t u, SameTlb i m t ∧ op.Encodes insn (t.mycpus i) ∧ (t.mycpus i).Unmapped ∧
      (execute b i insn).run t = .ok () u ∧ u.ticked i m' := by
  obtain ⟨hStep, insn, t, hIssue, hOp, hUnmapped⟩ := h
  have hSame : SameTlb i m t :=
    after_of_run_ok (issue_sameTlb i m) hIssue insn rfl hUnmapped.nextpc
  have hOp' := TlbOp.encodes_of_same hSame hOp
  obtain ⟨stopped, hTurn⟩ := cpuTurn_of_step i hStep
  obtain ⟨u, hExec | hExec, hEnd⟩ := turn_ticked hTurn hIssue
  · exact ⟨insn, t, u, hSame, hOp', hUnmapped, hExec, hEnd⟩
  · exact absurd rfl (after_of_run_error (execute_tlbUnit i hOp' hUnmapped) hExec)

theorem Executes.apply {op : TlbOp} (h : Executes b i op m m') :
    (m'.mycpus i).tlbUnit = op.apply (m.mycpus i).tlbUnit := by
  obtain ⟨insn, t, u, hSame, hOp, hUnmapped, hExec, hEnd⟩ := h.ends
  have hUnit := after_of_run_ok (execute_tlbUnit i hOp hUnmapped) hExec
  rw [hEnd.cpu, ← hSame.unit, ← hUnit]
  rfl

/-- The registers after a program. -/
theorem Program.apply {ops : List TlbOp} (h : Program b i ops m m') :
    (m'.mycpus i).tlbUnit = ops.foldl (fun u op => op.apply u) (m.mycpus i).tlbUnit := by
  obtain ⟨p, hPath, rfl⟩ := h
  induction hPath with
  | nil m => rfl
  | @cons m t m' op p hStep _ ih =>
    cases op with
    | none =>
      rw [ih, hStep.2]
      rfl
    | some op =>
      rw [ih, Executes.apply hStep]
      rfl

/-- A write that does not hang leaves no other entry that matches along with the new one. -/
theorem Executes.alone (h : Executes b i .tlbwi m m') (hHangs : m'.hangs = m.hangs) :
    ∀ ix < ntlb, ix ≠ (m.mycpus i).tlbindex →
      (m.mycpus i).tlbentry.dup ((m.mycpus i).tlb ix) = false := by
  obtain ⟨insn, t, u, hSame, hOp, hUnmapped, hExec, sp, hEnd⟩ := h.ends
  have hHolds := after_of_run_ok (execute_tlbwi i hOp hUnmapped) hExec
  have hIndex : (t.mycpus i).tlbindex = (m.mycpus i).tlbindex :=
    congrArg TlbUnit.tlbindex hSame.unit
  have hNone : u.hangs = t.hangs := by
    rw [hSame.hangs, ← hHangs, hEnd]
    rfl
  rw [hHolds.hangs, List.append_left_eq_self, List.reverse_eq_nil_iff, dupHangs_eq_nil_iff,
    hSame.unit, hIndex] at hNone
  intro ix hix hOther
  have hDup := hNone ix hix hOther
  simp only [TlbOp.apply, Mipscpu.tlbUnit] at hDup
  rwa [Function.update_self, Function.update_of_ne hOther] at hDup

end Program

/-! ## Round trips -/

variable (b) in
/-- A run that leaves the entries of cpu `i` and the index alone, whatever it does to TLBHI and
TLBLO. -/
def Clobbers (m m' : Machine δ) : Prop :=
  ∃ p, Path (Step b) m p m' ∧ AllSteps (fun m _ m' => (m'.mycpus i).tlb = (m.mycpus i).tlb ∧
    (m'.mycpus i).tlbindex = (m.mycpus i).tlbindex) m p

section RoundTrips

variable {i} {m₀ m₁ m₂ m₃ m₄ m m' : Machine δ} {tlbhi tlblo index : Word}

theorem Clobbers.kept (h : Clobbers b i m m') :
    (m'.mycpus i).tlb = (m.mycpus i).tlb ∧ (m'.mycpus i).tlbindex = (m.mycpus i).tlbindex := by
  obtain ⟨p, hPath, hKeeps⟩ := h
  induction hPath with
  | nil m => exact ⟨rfl, rfl⟩
  | cons _ _ ih =>
    obtain ⟨⟨hTlb, hIndex⟩, hRest⟩ := hKeeps
    obtain ⟨hTlb', hIndex'⟩ := ih hRest
    exact ⟨hTlb'.trans hTlb, hIndex'.trans hIndex⟩

/-- A program that only moves to TLBHI and TLBLO. -/
theorem Program.clobbers {ops : List TlbOp} (h : Program b i ops m m')
    (hOnly : ∀ op ∈ ops, ∀ u : TlbUnit,
      (op.apply u).tlb = u.tlb ∧ (op.apply u).tlbindex = u.tlbindex) : Clobbers b i m m' := by
  obtain ⟨p, hPath, rfl⟩ := h
  induction hPath with
  | nil m => exact ⟨[], .nil m, trivial⟩
  | @cons m t m' op p hStep _ ih =>
    cases op with
    | none =>
      obtain ⟨⟨a, hAct⟩, hUnit⟩ := hStep
      obtain ⟨q, hRest, hKeeps⟩ := ih hOnly
      exact ⟨(a, t) :: q, .cons hAct hRest,
        ⟨congrArg TlbUnit.tlb hUnit, congrArg TlbUnit.tlbindex hUnit⟩, hKeeps⟩
    | some op =>
      obtain ⟨hTlb, hIndex⟩ := hOnly op (List.mem_cons_self ..) (m.mycpus i).tlbUnit
      obtain ⟨q, hRest, hKeeps⟩ := ih fun op' hOp => hOnly op' (List.mem_cons_of_mem _ hOp)
      rw [← Executes.apply hStep] at hTlb hIndex
      exact ⟨(.turn i, t) :: q, .cons hStep.step hRest, ⟨hTlb, hIndex⟩, hKeeps⟩

/-- The entry that two registers make. -/
def entryOf (tlbhi tlblo : Word) : Mipstlb := tlbsetlo (tlbsethi (resetTlbentry 0) tlbhi) tlblo

/-- An entry has been written, and no other one matches along with it. -/
structure Written (tlbhi tlblo index : Word) (u : TlbUnit) : Prop where
  index : u.tlbindex = ((index >>> 8) &&& 63).toNat
  entry : u.tlb u.tlbindex = entryOf tlbhi tlblo
  alone : ∀ ix < ntlb, ix ≠ u.tlbindex → (u.tlb u.tlbindex).dup (u.tlb ix) = false

theorem Written.index_lt {u : TlbUnit} (h : Written tlbhi tlblo index u) : u.tlbindex < ntlb := by
  rw [h.index, BitVec.toNat_and]
  exact Nat.lt_of_le_of_lt Nat.and_le_right (by decide)

theorem written (hProgram : Program b i [.mtTlbhi tlbhi, .mtTlblo tlblo, .mtIndex index] m₀ m₁)
    (hWrite : Executes b i .tlbwi m₁ m₂) (hHangs : m₂.hangs = m₁.hangs) :
    Written tlbhi tlblo index (m₂.mycpus i).tlbUnit := by
  have hUnit := hProgram.apply
  have hAlone := hWrite.alone hHangs
  have hEntry : (m₁.mycpus i).tlbentry = entryOf tlbhi tlblo := congrArg TlbUnit.tlbentry hUnit
  have hIndex : (m₁.mycpus i).tlbindex = ((index >>> 8) &&& 63).toNat :=
    congrArg TlbUnit.tlbindex hUnit
  rw [hWrite.apply]
  constructor
  · exact hIndex
  · exact (Function.update_self _ _ _).trans hEntry
  · intro ix hix hOther
    simp only [TlbOp.apply, Mipscpu.tlbUnit] at hOther ⊢
    rw [Function.update_self, Function.update_of_ne hOther]
    exact hAlone ix hix hOther

theorem Written.clobbered (h : Written tlbhi tlblo index (m.mycpus i).tlbUnit)
    (hClobber : Clobbers b i m m') : Written tlbhi tlblo index (m'.mycpus i).tlbUnit := by
  obtain ⟨hTlb, hIndex⟩ := hClobber.kept
  obtain ⟨hIx, hEntry, hAlone⟩ := h
  simp only [Mipscpu.tlbUnit, ← hTlb, ← hIndex] at hIx hEntry hAlone
  exact ⟨hIx, hEntry, hAlone⟩

/-- A probe for the entry finds it, and leaves the index where it is. -/
theorem Written.found {u : TlbUnit} (h : Written tlbhi tlblo index u) {t : Mipstlb}
    (hVpn : t.mtVpn = tlbhi &&& 0xfffff000) (hPid : t.mtPid = (tlbhi &&& 0xfc0) >>> 6) :
    TlbOp.tlbp.apply { u with tlbentry := t } = { u with tlbentry := t, tlbpf := false } := by
  have hHit : (u.tlb u.tlbindex).hits t.mtVpn t.mtPid = true := by
    rw [h.entry, hVpn, hPid, Mipstlb.hits_iff]
    exact ⟨rfl, .inl rfl⟩
  have hFind : ({ u with tlbentry := t } : TlbUnit).find = some u.tlbindex :=
    TlbUnit.find_eq h.index_lt hHit h.alone
  simp only [TlbOp.apply, hFind]

theorem Written.read (h : Written tlbhi tlblo index (m.mycpus i).tlbUnit)
    (hRead : Program b i [.tlbr] m m') :
    (m'.mycpus i).tlbUnit = { (m.mycpus i).tlbUnit with tlbentry := entryOf tlbhi tlblo } := by
  rw [hRead.apply, ← h.entry]
  rfl

theorem Written.mfc0_index (h : Written tlbhi tlblo index (m.mycpus i).tlbUnit) {mt : Mipstlb}
    (hUnit : (m'.mycpus i).tlbUnit =
      { (m.mycpus i).tlbUnit with tlbentry := mt, tlbpf := false }) :
    (m'.mycpus i).mfc0 .index = some (index &&& 0x3f00) := by
  have hIndex : (m'.mycpus i).tlbindex = ((index >>> 8) &&& 63).toNat :=
    (congrArg TlbUnit.tlbindex hUnit).trans h.index
  have hPf : (m'.mycpus i).tlbpf = false := congrArg TlbUnit.tlbpf hUnit
  simp only [Mipscpu.mfc0, Mipscpu.getindex, hIndex, hPf, ofNat_index, Bool.false_eq_true, if_false]
  exact congrArg some BitVec.or_zero

theorem probe_fails (h : ∀ ix < ntlb, ¬((m.mycpus i).tlb ix).Matches tlbhi)
    (hProbe : Program b i [.mtTlbhi tlbhi, .tlbp] m m') :
    (m'.mycpus i).mfc0 .index = some ((m.mycpus i).getindex ||| 0x80000000) := by
  have hUnit := hProbe.apply
  have hFind : (TlbOp.apply (.mtTlbhi tlbhi) (m.mycpus i).tlbUnit).find = none :=
    TlbUnit.find_eq_none fun ix hix hHit => h ix hix ((Mipstlb.hits_tlbhi_iff _ _ _).mp hHit)
  simp only [List.foldl_cons, List.foldl_nil, TlbOp.apply] at hUnit
  simp only [TlbOp.apply] at hFind
  rw [hFind] at hUnit
  have hIndex : (m'.mycpus i).tlbindex = (m.mycpus i).tlbindex := congrArg TlbUnit.tlbindex hUnit
  have hPf : (m'.mycpus i).tlbpf = true := congrArg TlbUnit.tlbpf hUnit
  simp only [Mipscpu.mfc0, Mipscpu.getindex, hIndex, hPf, if_true, BitVec.or_assoc]
  cases (m.mycpus i).tlbpf <;> simp

/-- What is written to an entry is read back, as far as the fields are there, and found; a probe for
what no entry matches fails. -/
theorem tlb_round_trips
    (hProgram : Program b i [.mtTlbhi tlbhi, .mtTlblo tlblo, .mtIndex index] m₀ m₁)
    (hWrite : Executes b i .tlbwi m₁ m₂) (hHangs : m₂.hangs = m₁.hangs)
    (hClobber : Clobbers b i m₂ m₃) (hRead : Program b i [.tlbr] m₃ m₄) :
    (m₄.mycpus i).mfc0 .tlbhi = some (tlbhi &&& 0xffffffc0) ∧
    (m₄.mycpus i).mfc0 .tlblo = some (tlblo &&& 0xffffff00) ∧
    (∀ m₅, Program b i [.tlbp] m₄ m₅ → (m₅.mycpus i).mfc0 .index = some (index &&& 0x3f00)) ∧
    (∀ m₅ tlbhi', tlbhi' &&& 0xffffffc0 = tlbhi &&& 0xffffffc0 →
      Program b i [.mtTlbhi tlbhi', .tlbp] m₃ m₅ →
      (m₅.mycpus i).mfc0 .index = some (index &&& 0x3f00)) ∧
    ∀ m m' other, (∀ ix < ntlb, ¬((m.mycpus i).tlb ix).Matches other) →
      Program b i [.mtTlbhi other, .tlbp] m m' →
      (m'.mycpus i).mfc0 .index = some ((m.mycpus i).getindex ||| 0x80000000) := by
  have hWritten := (written hProgram hWrite hHangs).clobbered hClobber
  have hUnit := hWritten.read hRead
  have hEntry : (m₄.mycpus i).tlbentry = entryOf tlbhi tlblo := congrArg TlbUnit.tlbentry hUnit
  refine ⟨?_, ?_, fun m₅ hProbe => ?_, fun m₅ tlbhi' hSame hProbe => ?_, fun m m' other hNone =>
    probe_fails hNone⟩
  · simp only [Mipscpu.mfc0, hEntry, entryOf, tlbgethi_tlbsetlo, tlbgethi_tlbsethi]
  · simp only [Mipscpu.mfc0, hEntry, entryOf, tlbgetlo_tlbsetlo]
  · have hFound := hWritten.found (t := entryOf tlbhi tlblo) rfl rfl
    have hProbed := hProbe.apply
    rw [hUnit] at hProbed
    exact hWritten.mfc0_index (hProbed.trans hFound)
  · have hProbed := hProbe.apply
    have hFound := hWritten.found (t := tlbsethi (m₃.mycpus i).tlbentry tlbhi) rfl rfl
    simp only [List.foldl_cons, List.foldl_nil] at hProbed
    rw [TlbOp.apply.eq_1, tlbsethi_congr hSame] at hProbed
    exact hWritten.mfc0_index (hProbed.trans hFound)

end RoundTrips

/-! ## A kernel that does so -/

instance (c : Mipscpu) : Decidable c.Unmapped :=
  decidable_of_iff (c.currentUsermode = false ∧ c.pc >>> 30 = 2 ∧ c.nextpc >>> 30 = 2)
    ⟨fun h => ⟨h.1, h.2.1, h.2.2⟩, fun h => ⟨h.mode, h.pc, h.nextpc⟩⟩

instance (insn : Word) (c0 : C0) : Decidable (IsMtc0 insn c0) :=
  inferInstanceAs (Decidable (_ ∧ _ ∧ _ ∧ _))

instance (insn : Word) : Decidable (cop0Op insn) := inferInstanceAs (Decidable (_ ∧ _ ∧ _))

instance (op : TlbOp) (insn : Word) (c : Mipscpu) : Decidable (op.Encodes insn c) :=
  match op with
  | .mtTlbhi _ | .mtTlblo _ | .mtIndex _ | .tlbwi | .tlbr | .tlbp =>
    inferInstanceAs (Decidable (_ ∧ _))

variable (b) in
/-- The machine after a turn that executes the instruction, if it does. -/
def executed (m : Machine δ) (op : TlbOp) : Option (Machine δ) :=
  match turned b i m with
  | some (insn, c, m') => if op.Encodes insn (m.mycpus i) ∧ c.Unmapped then some m' else none
  | none => none

theorem executes_of_executed (hi : i < b.ncpus) {op : TlbOp} {m m' : Machine δ}
    (h : executed b i m op = some m') : Executes b i op m m' := by
  unfold executed at h
  split at h
  · next insn c m'' hTurned =>
    split at h
    · next hOp =>
      cases h
      obtain ⟨hStep, t, hIssue, rfl⟩ := of_turned hi hTurned
      exact ⟨hStep, insn, t, hIssue, hOp.1, hOp.2⟩
    · cases h
  · cases h

theorem program_of_executed (hi : i < b.ncpus) {ops : List TlbOp} {m m' : Machine δ}
    (h : ops.foldlM (executed b i) m = some m') : Program b i ops m m' := by
  induction ops generalizing m with
  | nil =>
    cases h
    exact ⟨[], .nil _, rfl⟩
  | cons op ops ih =>
    rw [List.foldlM_cons] at h
    obtain ⟨t, hFirst, hRest⟩ := Option.bind_eq_some_iff.mp h
    obtain ⟨p, hPath, hOps⟩ := ih hRest
    refine ⟨(some op, t) :: p, .cons (executes_of_executed i hi hFirst) hPath, ?_⟩
    simp only [List.filterMap_cons, hOps]

/-- A kernel that writes the entry 26 for id 42, and reads it back. -/
def kernel : Machine Unit :=
  let m := machineInit () false
  let words : List Word := [0x40815000, 0x40811000, 0x40810000, 0x42000002, 0x40805000, 0x40801000,
    0x42000001, 0x42000008]
  { m with
    ram := fun index => words.getD index.toNat 0
    mycpus := fun i =>
      { m.mycpus i with
        r := fun rg => if rg = 0 then 0 else 0x12345a80
        pc := kseg0
        nextpc := kseg0 + 4
        pcpage := some (.ram 0)
        nextpcpage := some (.ram 0) } }

/-- The kernel reads back what it has written, and finds the entry. -/
theorem tlb_round_trips_kernel : ∃ m₁ m₂ m₃ m₄ m₅ : Machine Unit,
    Program bareBoard 0 [.mtTlbhi 0x12345a80, .mtTlblo 0x12345a80, .mtIndex 0x12345a80] kernel m₁ ∧
    Executes bareBoard 0 .tlbwi m₁ m₂ ∧ Program bareBoard 0 [.mtTlbhi 0, .mtTlblo 0] m₂ m₃ ∧
    Program bareBoard 0 [.tlbr] m₃ m₄ ∧ Program bareBoard 0 [.tlbp] m₄ m₅ ∧
    (m₄.mycpus 0).mfc0 .tlbhi = some 0x12345a80 ∧
    (m₄.mycpus 0).mfc0 .tlblo = some 0x12345a00 ∧
    (m₅.mycpus 0).mfc0 .index = some 0x1a00 := by
  have hRun : (([.mtTlbhi 0x12345a80, .mtTlblo 0x12345a80, .mtIndex 0x12345a80].foldlM
      (executed bareBoard 0) kernel).any fun m₁ => (executed bareBoard 0 m₁ .tlbwi).any fun m₂ =>
        m₂.hangs = m₁.hangs ∧ ([.mtTlbhi 0, .mtTlblo 0].foldlM (executed bareBoard 0) m₂).any
          fun m₃ => ([.tlbr].foldlM (executed bareBoard 0) m₃).any
            fun m₄ => ([.tlbp].foldlM (executed bareBoard 0) m₄).isSome) = true := by
    decide +kernel
  simp only [Option.any_eq_true, decide_eq_true_eq, Option.isSome_iff_exists] at hRun
  obtain ⟨m₁, h₁, m₂, h₂, hHangs, m₃, h₃, m₄, h₄, m₅, h₅⟩ := hRun
  have hCpu : 0 < bareBoard.ncpus := bareBoard.ncpus_pos
  have hProgram := program_of_executed 0 hCpu h₁
  have hWrite := executes_of_executed 0 hCpu h₂
  have hClobber := program_of_executed 0 hCpu h₃
  have hRead := program_of_executed 0 hCpu h₄
  have hProbe := program_of_executed 0 hCpu h₅
  have hKept : Clobbers bareBoard 0 m₂ m₃ := by
    refine hClobber.clobbers fun op hOp u => ?_
    simp only [List.mem_cons, List.not_mem_nil, or_false] at hOp
    obtain rfl | rfl := hOp <;> exact ⟨rfl, rfl⟩
  obtain ⟨hHi, hLo, hFound, -⟩ := tlb_round_trips hProgram hWrite hHangs hKept hRead
  exact ⟨m₁, m₂, m₃, m₄, m₅, hProgram, hWrite, hClobber, hRead, hProbe, hHi, hLo, hFound m₅ hProbe⟩

end Sys161.Mips
