import Sys161.Mips.Cycle

/-!
# What an instruction can do

The handlers are put together from few operations. A property that each of
these keeps is kept by `execute`, whatever the instruction word: the case
analysis over the opcodes is made here once.
-/

namespace Sys161.Mips

open Exec

set_option autoImplicit false

variable {δ α : Type} (b : Board δ) (i : Nat)

/-! ## The primitives of the core -/

section After

variable {Q : α → Machine δ → Prop} {E : Stop → Machine δ → Prop} {m : Machine δ}

@[simp] theorem after_getCpu {Q : Mipscpu → Machine δ → Prop} :
    After (getCpu i) Q E m ↔ Q (m.mycpus i) m := Iff.rfl

@[simp] theorem after_modCpu {Q : Unit → Machine δ → Prop} (f : Mipscpu → Mipscpu) :
    After (modCpu i f) Q E m ↔ Q () (m.modCpu i f) := Iff.rfl

@[simp] theorem after_setReg {Q : Unit → Machine δ → Prop} (rg : Reg) (val : Word) :
    After (setReg i rg val) Q E m ↔
      Q () (m.modCpu i fun c => { c with r := Function.update c.r rg val }) := Iff.rfl

@[simp] theorem after_useMap_some {Q : Word → Machine δ → Prop} (page : Page) (pageoffset : Word) :
    After (useMap (some page) pageoffset) Q E m ↔ Q (busUseMap m.ram page pageoffset) m := Iff.rfl

@[simp] theorem after_useMap_none {Q : Word → Machine δ → Prop} (pageoffset : Word) :
    After (useMap none pageoffset) Q E m ↔ E (.undefined "null page pointer") m := Iff.rfl

@[simp] theorem after_raise (e : Exn) :
    After (raise b i e) Q E m ↔ E .exception (m.modCpu i fun c => c.exception b e) := Iff.rfl

@[simp] theorem after_hang {Q : Unit → Machine δ → Prop} (why : Hang) :
    After (hang why : M δ Unit) Q E m ↔ Q () (m.hung why) := Iff.rfl

/-- An exception that was posted counts as the answer `false`. -/
def caught (Q : Bool → Machine δ → Prop) (E : Stop → Machine δ → Prop) (e : Stop) (m : Machine δ) :
    Prop :=
  match e with
  | .exception => Q false m
  | e => E e m

theorem after_attempt {Q : Bool → Machine δ → Prop} {x : M δ Unit} :
    After (attempt x) Q E m ↔ After x (fun _ => Q true) (caught Q E) m := by
  unfold attempt
  rw [after_tryCatch, after_bind]
  have hThrow : (fun (e : Stop) (t : Machine δ) => After (match e with
      | .exception => pure false
      | e => throw e) Q E t) = caught Q E := by
    funext e t
    cases e <;> rfl
  rw [← hThrow]
  rfl

end After

section Keeps

variable {I : Machine δ → Prop} {E : Stop → Machine δ → Prop}

theorem keeps_getCpu_bind {f : Mipscpu → M δ α}
    (hf : ∀ m, I m → After (f (m.mycpus i)) (fun _ => I) E m) : Keeps I E (getCpu i >>= f) := by
  intro m hm
  rw [after_bind, after_getCpu]
  exact hf m hm

/-- As `keeps_getCpu_bind`, where the values read do not matter. -/
theorem keeps_getCpu {f : Mipscpu → M δ α} (hf : ∀ c, Keeps I E (f c)) :
    Keeps I E (getCpu i >>= f) :=
  keeps_getCpu_bind i fun m hm => hf _ m hm

theorem keeps_raise {e : Exn}
    (h : ∀ m, I m → E .exception (m.modCpu i fun c => c.exception b e)) :
    Keeps I E (raise b i e : M δ α) := h

/-- A part of the core that is tried keeps `I` if the exceptions it posts do. -/
theorem keeps_attempt {x : M δ Unit} (hx : Keeps I (caught (fun _ => I) E) x) :
    Keeps I E (attempt x) := by
  intro m hm
  rw [after_attempt]
  exact hx m hm

end Keeps

/-- An exception has been posted, and `I` holds. -/
def Posted (I : Machine δ → Prop) (e : Stop) (m : Machine δ) : Prop := e = .exception ∧ I m

theorem keeps_attempt_posted {I : Machine δ → Prop} {E : Stop → Machine δ → Prop} {x : M δ Unit}
    (hx : Keeps I (Posted I) x) : Keeps I E (attempt x) := by
  refine keeps_attempt (hx.error ?_)
  rintro _ m ⟨rfl, hm⟩
  exact hm

/-! ## Destinations -/

/-- The general register that an instruction names as its destination. -/
def dest (insn : Word) : Option Reg :=
  match opm insn with
  | .special =>
    match ops insn with
    | .jr | .syscall | .break | .sync | .mthi | .mtlo | .mult | .multu | .div | .divu | .ill => none
    | _ => some (rd insn)
  | .bcond => if (rt insn).toNat = 16 ∨ (rt insn).toNat = 17 then some 31 else none
  | .jal => some 31
  | .addi | .addiu | .slti | .sltiu | .andi | .ori | .xori | .lui => some (rt insn)
  | .lb | .lh | .lwl | .lw | .lbu | .lhu | .lwr | .lwc0 | .swc0 => some (rt insn)
  | .cop => if rs insn = 0 then some (rt insn) else none
  | _ => none

/-- The operations of the system coprocessor that a word encodes. -/
def cop0Op (insn : Word) : Prop := opm insn = .cop ∧ cn insn = 0 ∧ 16 ≤ (rs insn).toNat

def IsStore (insn : Word) : Prop :=
  match opm insn with
  | .sb | .sh | .swl | .sw | .swr | .swc0 => True
  | _ => False

/-- A move to the system coprocessor. -/
def IsMtc0 (insn : Word) (c0 : C0) : Prop :=
  opm insn = .cop ∧ cn insn = 0 ∧ (rs insn).toNat = 4 ∧ C0.ofRegsel (rd insn) (sel insn) = some c0

/-- `I` is kept by everything that the handler of an instruction is put together from; where an
exception is posted, `E` holds after it. -/
structure Rules (insn : Word) (I : Machine δ → Prop) (E : Stop → Machine δ → Prop) : Prop where
  smoke : ∀ msg m, I m → E (.smoke msg) m
  undefined : ∀ m, I m → E (.undefined "division overflow") m
  raise : ∀ e m, I m → E .exception (m.modCpu i fun c => c.exception b e)
  reg : ∀ rg val m, dest insn = some rg → I m →
    I (m.modCpu i fun c => { c with r := Function.update c.r rg val })
  hilo : ∀ hi lo hiwait lowait m, I m →
    I (m.modCpu i fun c => { c with hi := hi, lo := lo, hiwait := hiwait, lowait := lowait })
  phonyException : Keeps I E (phonyException b i)
  abranch : ∀ addr, Keeps I E (abranch b i addr)
  translatemem : ∀ vaddr iswrite, Keeps I E (translatemem b i vaddr iswrite)
  domemFetch : ∀ vaddr willbewrite, Keeps I E (domemFetch b i vaddr willbewrite)
  domemStore : IsStore insn → ∀ vaddr val, Keeps I E (domemStore b i vaddr val)
  ll : opm insn = .lwc0 → ∀ addr val m, I m →
    I (m.modCpu i fun c => { c with llActive := true, llAddr := addr, llValue := val })
  hang : ∀ why m, why = .statusRegisterWrite → (m.mycpus i).currentUsermode = false → I m →
    I (m.hung why)
  mtc0 : ∀ c0 m, IsMtc0 insn c0 → (m.mycpus i).currentUsermode = false → I m →
    I (m.modCpu i fun c => c.mtc0 (c.r (rt insn)) c0)
  reduceRandom : ∀ m, (m.mycpus i).currentUsermode = false → I m →
    I (m.modCpu i Mipscpu.reduceRandom)
  probetlb : ∀ m, (m.mycpus i).currentUsermode = false → I m →
    After (probetlb i) (fun _ => I) E m
  tlbr : ∀ m, cop0Op insn → (insn &&& 0x01ffffff).toNat = 1 →
    (m.mycpus i).currentUsermode = false → I m →
    I (m.modCpu i fun c => { c with tlbentry := c.tlb c.tlbindex })
  writetlb : ∀ ix m, cop0Op insn →
    (insn &&& 0x01ffffff).toNat = 2 ∨ (insn &&& 0x01ffffff).toNat = 6 →
    (m.mycpus i).currentUsermode = false → I m → After (writetlb b i ix) (fun _ => I) E m
  doWait : ∀ m, (m.mycpus i).currentUsermode = false → I m → After (doWait i) (fun _ => I) E m
  doRfe : ∀ m, cop0Op insn → (insn &&& 0x01ffffff).toNat = 16 →
    (m.mycpus i).currentUsermode = false → I m → After (doRfe b i) (fun _ => I) E m

namespace Rules

variable {b i} {insn : Word} {I : Machine δ → Prop} {E : Stop → Machine δ → Prop}
variable (h : Rules b i insn I E)

include h

theorem keeps_raise {e : Exn} : Keeps I E (Mips.raise b i e : M δ α) :=
  Mips.keeps_raise b i (h.raise e)

theorem keeps_setReg {rg : Reg} {val : Word} (hd : dest insn = some rg) :
    Keeps I E (setReg i rg val) := fun m hm => h.reg rg val m hd hm

theorem rdOp (f : Word → Word → Word) (hd : dest insn = some (rd insn)) :
    Keeps I E (rdOp i insn f) :=
  keeps_getCpu i fun _ => h.keeps_setReg hd

theorem rtOp (f : Word → Word) (hd : dest insn = some (rt insn)) : Keeps I E (rtOp i insn f) :=
  keeps_getCpu i fun _ => h.keeps_setReg hd

theorem chkovf {rg : Reg} (t64 : BitVec 64) (hd : dest insn = some rg) :
    Keeps I E (chkovf b i rg t64) := by
  unfold Mips.chkovf
  exact Keeps.ite (fun _ => h.keeps_raise) fun _ => h.keeps_setReg hd

theorem ibranch (target : Word) : Keeps I E (ibranch b i target) :=
  keeps_getCpu i fun _ => h.abranch _

theorem branchIf (cond : Word → Word → Bool) :
    Keeps I E (branchIf b i insn cond) :=
  keeps_getCpu i fun _ => Keeps.ite (fun _ => keeps_getCpu i fun _ => h.abranch _) fun _ =>
    Keeps.pure _

theorem link2 {rg : Reg} (hd : dest insn = some rg) : Keeps I E (link2 i rg) :=
  keeps_getCpu i fun _ => h.keeps_setReg hd

theorem branchLinkIf (cond : Word → Bool) (hd : dest insn = some 31) :
    Keeps I E (branchLinkIf b i insn cond) :=
  Keeps.bind (h.link2 hd) fun _ => h.branchIf _

theorem doload (ms : Memstyles) (addr res : Word) : Keeps I E (doload b i ms addr res) := by
  cases ms <;> exact Keeps.bind (h.domemFetch _ _) fun _ => Keeps.pure _

theorem loadOp (ms : Memstyles) (hd : dest insn = some (rt insn)) :
    Keeps I E (loadOp b i insn ms) :=
  keeps_getCpu i fun _ => Keeps.bind (h.doload _ _ _) fun _ => h.keeps_setReg hd

theorem modifyWord (hStore : IsStore insn) (addr : Word) (f : Word → Word) :
    Keeps I E (modifyWord b i addr f) :=
  Keeps.bind (h.domemFetch _ _) fun _ => h.domemStore hStore _ _

theorem dostore (hStore : IsStore insn) (ms : Memstyles) (addr val : Word) :
    Keeps I E (dostore b i ms addr val) := by
  cases ms with
  | sbyte | shalf => exact Keeps.throw fun m hm => h.smoke _ m hm
  | ubyte | uhalf | wordl | wordr => exact h.modifyWord hStore _ _

theorem storeOp (hStore : IsStore insn) (ms : Memstyles) : Keeps I E (storeOp b i insn ms) :=
  keeps_getCpu i fun _ => h.dostore hStore _ _ _

theorem stallOr (wait : Mipscpu → Bool) {x : M δ Unit} (hx : Keeps I E x) :
    Keeps I E (stallOr b i wait x) :=
  keeps_getCpu i fun _ => Keeps.ite (fun _ => h.phonyException) fun _ => hx

theorem setHilo (f : Word → Word → Word × Word) : Keeps I E (setHilo b i insn f) :=
  h.stallOr _ fun m hm => h.hilo _ _ _ _ m hm

/-- `mfhi` and `mflo` set a register and the wait of the unit they read. -/
theorem moveFrom (f : Mipscpu → Word) (hiwait lowait : Mipscpu → Nat)
    (hd : dest insn = some (rd insn)) (m : Machine δ) (hm : I m) :
    I (m.modCpu i fun c =>
      { c with
        r := Function.update c.r (rd insn) (f c), hiwait := hiwait c, lowait := lowait c }) := by
  have hReg := h.reg (rd insn) (f (m.mycpus i)) m hd hm
  have hWait := h.hilo (m.mycpus i).hi (m.mycpus i).lo (hiwait (m.mycpus i)) (lowait (m.mycpus i)) _
    hReg
  simpa [Machine.modCpu] using hWait

theorem mxMf (hOp : opm insn = .cop) (hrs : rs insn = 0) : Keeps I E (mxMf b i insn) := by
  have hd : dest insn = some (rt insn) := by simp [dest, hOp, hrs]
  refine Keeps.bind (keeps_getCpu_bind i fun m hm => ?_) fun _ => h.keeps_setReg hd
  by_cases hMode : cn insn ≠ 0 ∨ (m.mycpus i).currentUsermode = true
  · rw [if_pos hMode]
    exact h.raise _ m hm
  · rw [if_neg hMode]
    simp only [not_or, Bool.not_eq_true] at hMode
    split
    · exact h.reduceRandom m hMode.2 hm
    · split
      · exact hm
      · exact h.raise _ m hm
    · exact h.raise _ m hm

theorem mxMt (hOp : opm insn = .cop) (hrs : (rs insn).toNat = 4) : Keeps I E (mxMt b i insn) := by
  refine keeps_getCpu_bind i fun m hm => ?_
  unfold domt
  rw [after_bind, after_getCpu]
  by_cases hMode : cn insn ≠ 0 ∨ (m.mycpus i).currentUsermode = true
  · rw [if_pos hMode]
    exact h.raise _ m hm
  · rw [if_neg hMode]
    simp only [not_or, not_not, Bool.not_eq_true] at hMode
    obtain ⟨hcn, hUser⟩ := hMode
    split
    · rename_i c0 hSel
      have hMtc0 : IsMtc0 insn c0 := ⟨hOp, hcn, hrs, hSel⟩
      split
      · rw [after_bind, after_hang, after_modCpu]
        exact h.mtc0 c0 (m.hung _) hMtc0 hUser (h.hang _ m rfl hUser hm)
      · exact h.mtc0 c0 m hMtc0 hUser hm
    · exact h.raise _ m hm

theorem mxCop0 (hOp : cop0Op insn) (m : Machine δ) (hUser : (m.mycpus i).currentUsermode = false)
    (hm : I m) : After (mxCop0 b i insn) (fun _ => I) E m := by
  unfold Mips.mxCop0
  split
  · exact h.tlbr m hOp ‹_› hUser hm
  · exact h.writetlb _ m hOp (.inl ‹_›) hUser hm
  · have hRandom := h.reduceRandom m hUser hm
    exact h.writetlb _ _ hOp (.inr ‹_›) (by simpa [Mipscpu.reduceRandom] using hUser) hRandom
  · exact h.probetlb m hUser hm
  · exact h.doRfe m hOp ‹_› hUser hm
  · exact h.doWait m hUser hm
  · exact h.raise _ m hm

theorem mxCopz (hOp : opm insn = .cop) : Keeps I E (mxCopz b i insn) := by
  refine keeps_getCpu_bind i fun m hm => ?_
  by_cases hMode : cn insn ≠ 0 ∨ (m.mycpus i).currentUsermode = true
  · rw [if_pos hMode]
    exact h.raise _ m hm
  · rw [if_neg hMode]
    simp only [not_or, not_not, Bool.not_eq_true] at hMode
    obtain ⟨hcn, hUser⟩ := hMode
    split
    · exact h.mxCop0 ⟨hOp, hcn, ‹_›⟩ m hUser hm
    · split
      · exact h.mxMf hOp (BitVec.eq_of_toNat_eq ‹_›) m hm
      · exact h.raise _ m hm
      · exact h.mxMt hOp ‹_› m hm
      · exact h.raise _ m hm
      · split <;> exact h.raise _ m hm
      · split <;> exact h.raise _ m hm
      · exact h.raise _ m hm

theorem mxLl (hOp : opm insn = .lwc0) : Keeps I E (mxLl b i insn) := by
  refine keeps_getCpu i fun c => Keeps.bind (h.domemFetch _ _) fun val => ?_
  refine Keeps.bind (h.keeps_setReg ?_) fun _ m hm => h.ll hOp _ _ m hm
  simp [dest, hOp]

theorem mxSc (hStore : IsStore insn) (hd : dest insn = some (rt insn)) :
    Keeps I E (mxSc b i insn) := by
  refine keeps_getCpu i fun c => Keeps.ite (fun _ => h.keeps_setReg hd) fun _ => ?_
  refine Keeps.bind (h.domemFetch _ _) fun temp => Keeps.ite (fun _ => h.keeps_setReg hd) fun _ => ?_
  exact Keeps.bind (h.domemStore hStore _ _) fun _ => h.keeps_setReg hd

theorem mxCache : Keeps I E (mxCache b i insn) :=
  keeps_getCpu i fun _ => Keeps.ite (fun _ => h.keeps_raise) fun _ =>
    Keeps.ite (fun _ => Keeps.bind (h.translatemem _ _) fun _ => Keeps.pure _) fun _ => Keeps.pure _

theorem mxDiv : Keeps I E (mxDiv b i insn) :=
  keeps_getCpu i fun _ => Keeps.ite (fun _ => Keeps.throw h.undefined) fun _ =>
    h.setHilo _

theorem executeSpecial (hOp : opm insn = .special) : Keeps I E (executeSpecial b i insn) := by
  have hd : (match ops insn with
      | .jr | .syscall | .break | .sync | .mthi | .mtlo | .mult | .multu | .div | .divu | .ill =>
        none
      | _ => some (rd insn)) = dest insn := by simp only [dest, hOp]
  unfold Mips.executeSpecial
  cases hOps : ops insn <;> rw [hOps] at hd <;> replace hd := hd.symm
  case sll | srl | sra => exact keeps_getCpu i fun _ => h.keeps_setReg hd
  case jr => exact keeps_getCpu i fun _ => h.abranch _
  case jalr => exact Keeps.bind (h.link2 hd) fun _ => keeps_getCpu i fun _ => h.abranch _
  case syscall | «break» | ill => exact h.keeps_raise
  case sync => exact Keeps.pure _
  case mfhi => exact h.stallOr _ fun m hm => h.moveFrom Mipscpu.hi (fun _ => 2) Mipscpu.lowait hd m hm
  case mflo => exact h.stallOr _ fun m hm => h.moveFrom Mipscpu.lo Mipscpu.hiwait (fun _ => 2) hd m hm
  case mthi | mtlo => exact h.stallOr _ fun m hm => h.hilo _ _ _ _ m hm
  case mult | multu | divu => exact h.setHilo _
  case div => exact h.mxDiv
  case add | sub => exact keeps_getCpu i fun _ => h.chkovf _ hd
  all_goals exact h.rdOp _ hd

theorem executeBcond (hOp : opm insn = .bcond) : Keeps I E (executeBcond b i insn) := by
  unfold Mips.executeBcond
  split
  · exact h.branchIf _
  · exact h.branchIf _
  · exact h.branchLinkIf _ (by simp [dest, *])
  · exact h.branchLinkIf _ (by simp [dest, *])
  · exact h.keeps_raise

/-- What the building blocks keep, every instruction keeps. -/
theorem execute : Keeps I E (execute b i insn) := by
  unfold Mips.execute
  cases hOp : opm insn
  case special => exact h.executeSpecial hOp
  case bcond => exact h.executeBcond hOp
  case j => exact h.ibranch _
  case jal =>
    exact Keeps.bind (h.link2 (by simp [dest, hOp])) fun _ => h.ibranch _
  case beq | bne | blez | bgtz => exact h.branchIf _
  case addi => exact keeps_getCpu i fun _ => h.chkovf _ (by simp [dest, hOp])
  case addiu | slti | sltiu | andi | ori | xori => exact h.rtOp _ (by simp [dest, hOp])
  case lui => exact h.keeps_setReg (by simp [dest, hOp])
  case cop => exact h.mxCopz hOp
  case lb | lh | lwl | lbu | lhu | lwr => exact h.loadOp _ (by simp [dest, hOp])
  case lw =>
    exact keeps_getCpu i fun _ => Keeps.bind (h.domemFetch _ _) fun _ =>
      h.keeps_setReg (by simp [dest, hOp])
  case sb | sh | swl | swr => exact h.storeOp (by simp [IsStore, hOp]) _
  case sw => exact keeps_getCpu i fun _ => h.domemStore (by simp [IsStore, hOp]) _ _
  case cache => exact h.mxCache
  case lwc0 => exact h.mxLl hOp
  case lwc | swc | ill => exact h.keeps_raise
  case swc0 => exact h.mxSc (by simp [IsStore, hOp]) (by simp [dest, hOp])

end Rules

end Sys161.Mips
