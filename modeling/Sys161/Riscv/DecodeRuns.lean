import Sys161.Riscv.Decoding
import Sys161.Riscv.FetchRuns

/-!
# What the decoder carries out

An instruction word in a state: it runs as the instruction it stands for, and a
word that stands for none raises the illegal-instruction exception.
-/

namespace Sys161.Riscv

open Exec
open Mips (Board)

set_option autoImplicit false

variable {δ : Type} (b : Board δ) (i : Nat)

theorem insn32_encode (instr : Rv32) (hNear : ¬instr.FarBack) :
    insn32 b i instr.encode = (instr.call.exec b i 4 : M δ Bool) := by
  rw [insn32]
  rcases decode32_encode instr hNear with hCall | ⟨op, d, src, num, rfl⟩
  · rw [hCall]
  · have hDecode : decode32 (Rv32.csr op d src num).encode =
        .csr op d src (num.signExtend 32) (Rv32.csr op d src num).encode := by
      cases op <;> simp [Rv32.encode, decode32, decodeSystem, Csrop.funct3, iImm_iType]
    rw [hDecode]
    simp only [Rv32.call, Insn.exec, rxCsr, Csrop.run_congr (signExtend_low num)]

/-- The illegal-instruction exception is not raised. -/
def NotIll (e : Stop) (_ : Machine δ) : Prop := ∀ val, e ≠ .trap (.exception .illinst val)

theorem IsFault.notIll {vaddr : Word} {rwx : Memrwx} {t : Trap} (h : IsFault vaddr rwx t) :
    ∀ val, t ≠ .exception .illinst val := by
  rcases h with rfl | rfl <;> cases rwx <;> simp [pagefault, accessfault]

theorem TransStop.notIll {vaddr : Word} {rwx : Memrwx} {e : Stop} (h : TransStop vaddr rwx e)
    (t : Machine δ) : NotIll e t := by
  intro val
  rcases h with (⟨tr, rfl, hFault⟩ | rfl) | ⟨-, rfl⟩
  · simpa using hFault.notIll val
  · simp [pastCram]
  · simp

theorem notIll_domemFetch (vaddr : Word) (rwx : Memrwx) (m : Machine δ) :
    After (domemFetch b i vaddr rwx) (fun _ _ => True) NotIll m := by
  unfold domemFetch
  rw [after_bind]
  refine (keeps_translatemem b i (I := fun _ => True) (fun _ _ _ _ => trivial)
    (fun _ _ _ _ => trivial) vaddr rwx m trivial).mono ?_ fun e t he => he.2.notIll t
  rintro paddr t -
  rw [after_bind]
  refine (after_fetchPhys b i paddr t).mono ?_ ?_
  · rintro (_ | val) u -
    · intro val
      simpa using IsFault.notIll (.inr rfl) val
    · exact trivial
  · rintro e u ⟨rfl | ⟨-, rfl⟩, -⟩ val <;> simp [pastCram]

/-- A lookup of the page leaves the pc, also where it faults. -/
theorem pc_precomputePc (m : Machine δ) :
    After (precomputePc b i) (fun _ t => (t.mycpus i).pc = (m.mycpus i).pc)
      (fun e t => NotIll e t ∧ (t.mycpus i).pc = (m.mycpus i).pc) m := by
  refine (after_precomputePc b i (I := fun _ => True) (fun _ _ _ _ => trivial)
    (fun _ _ _ _ => trivial) trivial).mono ?_ ?_
  · rintro ⟨⟩ _ ⟨t, physpc, -, hPc, -, -, rfl⟩
    rw [Machine.modCpu_mycpus_self]
    exact hPc
  · rintro e _ ⟨hStop, t, page, -, hPc, rfl⟩
    refine ⟨hStop.notIll _, ?_⟩
    rw [Machine.modCpu_mycpus_self]
    exact hPc

theorem notIll_rxDoLr (d r1 : Reg) (m : Machine δ) :
    After (rxDoLr b i d r1) (fun _ _ => True) NotIll m := by
  unfold rxDoLr
  rw [after_bind, after_getCpu]
  dsimp only
  rw [after_ite]
  split
  · intro val
    simp
  · rw [after_bind]
    refine (notIll_domemFetch b i _ _ m).mono ?_ fun _ _ he => he
    intro val t _
    exact trivial

theorem notIll_ebreak (m : Machine δ) :
    After (Insn.ebreak.exec b i 4) (fun _ _ => True) NotIll m := by
  simp only [Insn.exec, tryBreakpoint, after_bind, after_get, after_getCpu]
  rw [after_ite]
  split
  · exact trivial
  · intro val
    simp

theorem notIll_rxDoSret (m : Machine δ) : After (rxDoSret b i) (fun _ _ => True) NotIll m := by
  unfold rxDoSret
  rw [after_bind, after_modCpu]
  exact (pc_precomputePc b i _).mono (fun _ _ _ => trivial) fun _ _ he => he.1

theorem notIll_rxDoWfi (m : Machine δ) : After (rxDoWfi i) (fun _ _ => True) NotIll m := by
  unfold rxDoWfi
  rw [after_bind, after_getCpu]
  extract_lets eie tie sie
  rw [after_ite]
  split <;> exact trivial

theorem notIll_rxDoSfenceVma (m : Machine δ) :
    After (rxDoSfenceVma b i) (fun _ _ => True) NotIll m := by
  unfold rxDoSfenceVma reloadPagetables
  simp only [after_bind, after_getCpu, after_modCpu]
  rw [after_ite]
  split
  · intro val
    simp
  · exact trivial

theorem notIll_ifSuper {x : M δ Unit} {m : Machine δ} (word : Word)
    (hSuper : (m.mycpus i).super = true) (hx : After x (fun _ _ => True) NotIll m) :
    After (do ifSuper i word x; return false) (fun _ _ => True) NotIll m := by
  unfold ifSuper
  simp only [after_bind, after_getCpu, hSuper, if_true]
  exact hx.mono (fun _ _ _ => trivial) fun _ _ he => he

/-- A word that is taken for an instruction that it is not does not come to the exception. -/
theorem notIll_lax {insn : Word} {m : Machine δ} (hLax : Lax insn (m.mycpus i).super) :
    After (insn32 b i insn) (fun _ _ => True) NotIll m := by
  unfold insn32
  rcases hLax with ⟨hOp, hWord, hLr, -⟩ | ⟨hOp, hPriv, h⟩
  · have hTop : (funct7 insn >>> 2).toNat = 2 := by
      have hLt := (funct7 insn).isLt
      have hTwo := congrArg BitVec.toNat hLr
      rw [BitVec.extractLsb'_toNat, Nat.shiftRight_eq_div_pow] at hTwo
      rw [BitVec.toNat_ushiftRight, Nat.shiftRight_eq_div_pow]
      change _ = 2 at hTwo
      omega
    have hDecode : decode32 insn = .lr (rd insn) (rs1 insn) := by
      simp only [decode32, hOp, decodeAmo, hWord, hTop]
      rfl
    rw [hDecode, Insn.exec, after_bind]
    exact (notIll_rxDoLr b i _ _ m).mono (fun _ _ _ => trivial) fun _ _ he => he
  · have hSystem : decode32 insn = decodeSystem insn := by
      simp only [decode32, hOp]
      rfl
    rw [hSystem]
    rcases h with ⟨h7, h2 | h2, -⟩ | ⟨hSuper, h7, h2 | h2, -⟩ | ⟨hSuper, h7, -⟩
    · have hDecode : decodeSystem insn = .ecall := by
        simp only [decodeSystem, hPriv, h7, h2]
        rfl
      rw [hDecode]
      intro val
      simp
    · have hDecode : decodeSystem insn = .ebreak := by
        simp only [decodeSystem, hPriv, h7, h2]
        rfl
      rw [hDecode]
      exact notIll_ebreak b i m
    · have hDecode : decodeSystem insn = .sret insn := by
        simp only [decodeSystem, hPriv, h7, h2]
        rfl
      rw [hDecode]
      exact notIll_ifSuper i insn hSuper (notIll_rxDoSret b i m)
    · have hDecode : decodeSystem insn = .wfi insn := by
        simp only [decodeSystem, hPriv, h7, h2]
        rfl
      rw [hDecode]
      exact notIll_ifSuper i insn hSuper (notIll_rxDoWfi i m)
    · have hDecode : decodeSystem insn = .sfenceVma insn := by
        simp only [decodeSystem, hPriv, h7]
        rfl
      rw [hDecode]
      exact notIll_ifSuper i insn hSuper (notIll_rxDoSfenceVma b i m)

/-- Where a jump leads. -/
def jumpDest (pc imm : Word) : Word := (pc + imm) &&& 0xfffffffe

theorem after_jal (d : Reg) (imm : Word) (m : Machine δ) :
    After ((Insn.jal d imm).exec b i 4)
      (fun _ t => (t.mycpus i).pc = jumpDest (m.mycpus i).pc imm)
      (fun e t =>
        if (m.mycpus i).cext = false ∧ jumpDest (m.mycpus i).pc imm &&& 0x2 ≠ 0 then
          e = .trap (.exception .ialign (jumpDest (m.mycpus i).pc imm))
        else (t.mycpus i).pc = jumpDest (m.mycpus i).pc imm) m := by
  simp only [Insn.exec, rxDoJal, rxJump, after_bind, after_getCpu]
  rw [after_ite]
  change if (m.mycpus i).cext = false ∧ jumpDest (m.mycpus i).pc imm &&& 0x2 ≠ 0 then _ else _
  split
  · rfl
  · rw [after_bind, after_modCpu]
    refine (pc_precomputePc b i _).mono ?_ ?_
    · rintro ⟨⟩ t hPc
      rw [Machine.modCpu_mycpus_self] at hPc
      rw [after_setX, after_pure, Machine.modCpu_mycpus_self]
      have hSetX : ∀ (c : Riscvcpu) val, (c.setX d val).pc = c.pc := by
        intro c val
        unfold Riscvcpu.setX
        split <;> rfl
      rw [hSetX]
      exact hPc
    · rintro e t ⟨-, hPc⟩
      rw [Machine.modCpu_mycpus_self] at hPc
      exact hPc

/-- Half of the range of the jump further on is another place, aligned alike. -/
theorem jumpDest_far (pc : Word) {imm : Word} (hBit : imm.getLsbD 19 = false) :
    jumpDest pc (imm ||| 0x00080000) ≠ jumpDest pc imm ∧
      jumpDest pc (imm ||| 0x00080000) &&& 0x2 = jumpDest pc imm &&& 0x2 := by
  have hOr : imm ||| 0x00080000 = imm + 0x00080000 := by
    refine (BitVec.add_eq_or_of_and_eq_zero imm _ ?_).symm
    have hTwo : (0x00080000 : Word) = BitVec.twoPow 32 19 := rfl
    rw [hTwo, BitVec.and_twoPow, hBit]
    rfl
  have hSum : pc + (imm + 0x00080000) = pc + imm + 0x00080000 := (BitVec.add_assoc _ _ _).symm
  unfold jumpDest
  rw [hOr, hSum]
  generalize pc + imm = dest
  have hAdd : (dest + 0x00080000).toNat = (dest.toNat + 2 ^ 19) % 2 ^ 32 := BitVec.toNat_add _ _
  constructor
  · intro hSame
    have hBit := congrArg (BitVec.getLsbD · 19) hSame
    simp only [BitVec.getLsbD_and] at hBit
    have hMask : (0xfffffffe : Word).getLsbD 19 = true := by decide
    rw [hMask, Bool.and_true, Bool.and_true, BitVec.getLsbD, BitVec.getLsbD,
      Nat.testBit_eq_decide_div_mod_eq, Nat.testBit_eq_decide_div_mod_eq, hAdd] at hBit
    have hLt := dest.isLt
    simp only [decide_eq_decide] at hBit
    omega
  · have hTwo : (0x2 : Word) = BitVec.twoPow 32 1 := rfl
    have hBit : (dest + 0x00080000).getLsbD 1 = dest.getLsbD 1 := by
      rw [BitVec.getLsbD, BitVec.getLsbD, Nat.testBit_eq_decide_div_mod_eq,
        Nat.testBit_eq_decide_div_mod_eq, hAdd, decide_eq_decide]
      omega
    rw [hTwo, BitVec.and_twoPow, BitVec.and_twoPow, BitVec.getLsbD_and, BitVec.getLsbD_and, hBit]

theorem run_jal_far (d : Reg) {imm : Word} (hBit : imm.getLsbD 19 = false) (m : Machine δ) :
    ((Insn.jal d (imm ||| 0x00080000)).exec b i 4).run m ≠ ((Insn.jal d imm).exec b i 4).run m := by
  intro hSame
  have hHere := after_jal b i d imm m
  have hThere := after_jal b i d (imm ||| 0x00080000) m
  rcases jumpDest_far (m.mycpus i).pc hBit with ⟨hDest, hAlign⟩
  unfold After at hHere hThere
  rw [hSame, hAlign] at hThere
  cases hRun : ((Insn.jal d imm).exec b i 4).run m with
  | ok r t =>
    rw [hRun] at hHere hThere
    exact hDest (hThere.symm.trans hHere)
  | error e t =>
    rw [hRun] at hHere hThere
    dsimp only at hHere hThere
    split at hHere
    next hOdd =>
      rw [if_pos hOdd, hHere] at hThere
      simp only [Stop.trap.injEq, Trap.exception.injEq, true_and] at hThere
      exact hDest hThere.symm
    next hEven =>
      rw [if_neg hEven] at hThere
      exact hDest (hThere.symm.trans hHere)

/-! ## The whole of the decoder -/

/-- A jump backwards by more than half of the range. -/
def FarBack (insn : Word) : Prop :=
  op32 insn = 27 ∧ insn.getLsbD 31 = true ∧ insn.getLsbD 19 = false

/-- What is asked of `insn32` for a word: it does as the instruction does whose word it is, and
refuses the word of no instruction without any other change. -/
def Executes (m : Machine δ) (insn : Word) : Prop :=
  (∀ instr : Rv32, instr.encode = insn →
    (insn32 b i insn).run m = (instr.call.exec b i 4).run m) ∧
  ((∀ instr : Rv32, instr.encode ≠ insn) →
    (insn32 b i insn).run m = .error (.trap (.exception .illinst insn)) m)

theorem getLsbD_jal (d : Reg) (imm : BitVec 20) :
    (Rv32.jal d imm).encode.getLsbD 31 = imm.getLsbD 19 ∧
      (Rv32.jal d imm).encode.getLsbD 19 = imm.getLsbD 18 := by
  simp only [Rv32.encode, jType, rType, BitVec.getLsbD_append, BitVec.getLsbD_extractLsb']
  simp

theorem farBack_encode {instr : Rv32} (h : instr.FarBack) : FarBack instr.encode := by
  cases instr with
  | jal d imm =>
    have hBits := getLsbD_jal d imm
    exact ⟨op32_rType .., hBits.1.trans h.1, hBits.2.trans h.2⟩
  | _ => exact h.elim

theorem encode_of_jal {insn : Word} (hLow : insn &&& 0x3 = 0x3) (hOp : op32 insn = 27) :
    ∃ d imm, (Rv32.jal d imm).encode = insn := by
  refine ⟨rd insn, jumpImm (rs1 insn) (rs2 insn) (funct3 insn) (funct7 insn), ?_⟩
  rw [Rv32.encode, jType_jumpImm, ← hOp]
  exact rType_fields insn hLow

/-- The far jump goes elsewhere. -/
theorem insn32_farBack {d : Reg} {imm : BitVec 20} (hSign : imm.getLsbD 19 = true)
    (hBit : imm.getLsbD 18 = false) (m : Machine δ) :
    (insn32 b i (Rv32.jal d imm).encode).run m ≠ ((Rv32.jal d imm).call.exec b i 4).run m := by
  have hImm : ((imm ++ 0#1).signExtend 32).getLsbD 19 = false := by
    simp only [BitVec.getLsbD_signExtend, BitVec.getLsbD_append]
    simpa using hBit
  have hDecode : decode32 (Rv32.jal d imm).encode =
      .jal d ((imm ++ 0#1).signExtend 32 ||| 0x00080000) := by
    have hTaken := jImm_jType d 27 imm
    rw [← BitVec.getLsbD_eq_getElem, if_pos hSign] at hTaken
    rw [← hTaken]
    simp [Rv32.encode, decode32]
  rw [insn32, hDecode]
  exact run_jal_far b i d hImm m

theorem decode32_unassigned {insn : Word} (hOp : op32 insn ∈ unassigned) :
    decode32 insn = .nothing := by
  unfold decode32
  simp only [unassigned, List.mem_cons, List.not_mem_nil, or_false] at hOp
  rcases hOp with h | h | h | h | h | h | h | h | h | h | h <;> rw [h] <;> rfl

theorem executes_of {insn : Word} (hLow : insn &&& 0x3 = 0x3) {m : Machine δ}
    (hOp : op32 insn ∉ unassigned) (hLax : ¬Lax insn (m.mycpus i).super)
    (hNear : ¬FarBack insn) : Executes b i m insn := by
  constructor
  · rintro instr rfl
    rw [insn32_encode b i instr fun h => hNear (farBack_encode h)]
  · intro hNone
    have hUser : ∀ x : M δ Unit, (m.mycpus i).super = false →
        (do ifSuper i insn x; return false : M δ Bool).run m =
          .error (.trap (.exception .illinst insn)) m := by
      intro x hSuper
      have hElse : (if (m.mycpus i).super then x else rxIll insn : M δ Unit) = rxIll insn :=
        if_neg (ne_true_of_eq_false hSuper)
      exact congrArg (fun y : M δ Unit => (do y; return false : M δ Bool).run m) hElse
    unfold insn32
    rcases decode32_cases hLow hOp hLax with hIll | ⟨instr, hInstr⟩ | ⟨hSuper, h | h | h⟩
    · rw [hIll]
      rfl
    · exact absurd hInstr (hNone instr)
    · rw [h]
      exact hUser _ hSuper
    · rw [h]
      exact hUser _ hSuper
    · rw [h]
      exact hUser _ hSuper

theorem insn32_executes_iff {insn : Word} (hLow : insn &&& 0x3 = 0x3) (m : Machine δ) :
    Executes b i m insn ↔
      op32 insn ∉ unassigned ∧ ¬Lax insn (m.mycpus i).super ∧ ¬FarBack insn := by
  constructor
  · intro hExec
    refine ⟨?_, ?_, ?_⟩
    · intro hOp
      have hNone : ∀ instr : Rv32, instr.encode ≠ insn := by
        rintro instr rfl
        exact op32_encode instr hOp
      have hRun := hExec.2 hNone
      rw [insn32, decode32_unassigned hOp] at hRun
      cases hRun
    · intro hLax
      have hNone : ∀ instr : Rv32, instr.encode ≠ insn := by
        rintro instr rfl
        exact not_lax_encode instr _ hLax
      have hNot := notIll_lax b i hLax
      unfold After at hNot
      rw [hExec.2 hNone] at hNot
      exact hNot insn rfl
    · rintro ⟨hOp, hSign, hBit⟩
      obtain ⟨d, imm, rfl⟩ := encode_of_jal hLow hOp
      have hBits := getLsbD_jal d imm
      rw [hBits.1] at hSign
      rw [hBits.2] at hBit
      exact insn32_farBack b i hSign hBit m (hExec.1 _ rfl)
  · rintro ⟨hOp, hLax, hNear⟩
    exact executes_of b i hLow hOp hLax hNear

theorem insn32_executes_nop : Executes bareBoard 0 (machineInit () true) 0x00000013 := by
  refine (insn32_executes_iff bareBoard 0 (by decide) _).mpr ⟨by decide, ?_, ?_⟩
  · unfold Lax
    decide
  · unfold FarBack
    decide

/-- The jump backwards by a whole half of the address range of `jal`. -/
theorem not_insn32_executes :
    ¬ ∀ (b : Board Unit) (i : Nat) (m : Machine Unit) (insn : Word), insn &&& 0x3 = 0x3 →
      Executes b i m insn := by
  intro h
  have hWord : (Rv32.jal 0 0x80000).encode = 0x8000006f := by decide
  have hExec := h bareBoard 0 (machineInit () true) 0x8000006f (by decide)
  rw [← hWord] at hExec
  exact insn32_farBack bareBoard 0 (by decide) (by decide) _ (hExec.1 _ rfl)

end Sys161.Riscv
