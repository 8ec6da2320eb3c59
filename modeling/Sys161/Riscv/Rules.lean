import Sys161.Riscv.Lookup

/-!
# What an instruction can do

The instructions are put together from few operations. What these keep is kept
by `Insn.exec`; the case analysis is made here once. A condition on the words
that an instruction is about to write goes with the stores.
-/

namespace Sys161.Riscv

open Exec
open Mips (Board)

set_option autoImplicit false

variable {δ α : Type} (b : Board δ) (i : Nat)

/-! ## Words about to be written -/

/-- Every ordinary access gives up the reservation. -/
def Riscvcpu.noLr (c : Riscvcpu) : Riscvcpu := { c with lrActive := false }

section Writes

variable (V : Word → Word → Machine δ → Prop)

/-- `V` holds of the word that `modifyWord` is about to write. -/
def ModifyWrites (addr mask val : Word) (m : Machine δ) : Prop :=
  After (domemFetch b i (alignDown addr) .write)
    (fun wval => V (alignDown addr) ((wval &&& ~~~mask) ||| val)) (fun _ _ => True) m

def ByteWrites (addr val : Word) (m : Machine δ) : Prop :=
  let shift := 8 * (addr &&& 3).toNat
  ModifyWrites b i V addr (0xff <<< shift) ((val &&& 0xff) <<< shift) (m.modCpu i Riscvcpu.noLr)

def HalfWrites (addr val : Word) (m : Machine δ) : Prop :=
  if addr &&& 3 = 3 then
    ByteWrites b i V addr (val &&& 0xff) (m.modCpu i Riscvcpu.noLr) ∧
      After (storeByte b i addr (val &&& 0xff))
        (fun _ => ByteWrites b i V (addr + 1) ((val >>> 8) &&& 0xff)) (fun _ _ => True)
        (m.modCpu i Riscvcpu.noLr)
  else
    let shift := 8 * (addr &&& 3).toNat
    ModifyWrites b i V addr (0xffff <<< shift) ((val &&& 0xffff) <<< shift)
      (m.modCpu i Riscvcpu.noLr)

/-- The two words of a store that is not aligned. -/
def PairWrites (addr val1 val2 : Word) (m : Machine δ) : Prop :=
  V (alignDown addr) val1 m ∧
    After (domemStore b i (alignDown addr) val1) (fun _ => V (alignDown addr + 4) val2)
      (fun _ _ => True) m

def WordWrites (addr val : Word) (m : Machine δ) : Prop :=
  if addr &&& 3 = 0 then V addr val (m.modCpu i Riscvcpu.noLr)
  else
    After (domemFetch b i (alignDown addr) .write)
      (fun val1 => After (domemFetch b i (alignDown addr + 4) .write)
        (fun val2 => PairWrites b i V addr (splitWord addr val val1 val2).1
          (splitWord addr val val1 val2).2) (fun _ _ => True)) (fun _ _ => True)
      (m.modCpu i Riscvcpu.noLr)

def StoreWrites (ms : Memstyles) (addr val : Word) (m : Machine δ) : Prop :=
  match ms with
  | .ubyte => ByteWrites b i V addr val m
  | .uhalf => HalfWrites b i V addr val m
  | .word => WordWrites b i V addr val m
  | _ => True

/-- The store of a conditional store whose reservation stands. -/
def ScWrites (rs1 rs2 : Reg) (m : Machine δ) : Prop :=
  let c := m.mycpus i
  c.lrActive = true → c.lrAddr = c.x rs1 →
    After (domemFetch b i (c.x rs1) .write)
      (fun temp t => temp = c.lrValue → V (c.x rs1) (c.x rs2) t) (fun _ _ => True)
      (m.modCpu i Riscvcpu.noLr)

/-- `V` holds of every word that the instruction is about to write. -/
def Insn.Writes (insn : Insn) (m : Machine δ) : Prop :=
  match insn with
  | .store ms rs2 rs1 imm =>
    StoreWrites b i V ms ((m.mycpus i).x rs1 + imm) ((m.mycpus i).x rs2) m
  | .amo op _ rs1 rs2 =>
    After (doload b i .word true ((m.mycpus i).x rs1))
      (fun memval t => StoreWrites b i V .word ((t.mycpus i).x rs1)
        (op.eval memval ((t.mycpus i).x rs2)) t) (fun _ _ => True) m
  | .sc _ rs1 rs2 => ScWrites b i V rs1 rs2 m
  | _ => True

end Writes

/-! ## Loads and stores -/

theorem align_alignDown (addr : Word) : alignDown addr &&& 0x3 = 0 := by
  unfold alignDown
  rw [BitVec.and_assoc]
  simp

theorem align_add_four {addr : Word} (h : addr &&& 0x3 = 0) : (addr + 4) &&& 0x3 = 0 := by
  have hNat := congrArg BitVec.toNat h
  rw [PageBits.toNat_align] at hNat
  apply BitVec.eq_of_toNat_eq
  rw [PageBits.toNat_align, BitVec.toNat_add]
  change addr.toNat % 4 = 0 at hNat
  change (addr.toNat + 4) % 2 ^ 32 % 4 = 0
  omega

/-- `I` is kept by the reads of an access and by giving up the reservation; where an access stops,
`E` holds. -/
structure FetchRules (I : Machine δ → Prop) (E : Stop → Machine δ → Prop) : Prop where
  fetch : ∀ vaddr willrwx, vaddr &&& 0x3 = 0 → Keeps I E (domemFetch b i vaddr willrwx)
  noLr : ∀ m, I m → I (m.modCpu i Riscvcpu.noLr)

namespace FetchRules

variable {b i} {I : Machine δ → Prop} {E : Stop → Machine δ → Prop} (h : FetchRules b i I E)

include h

theorem loadHalf (addr : Word) (willrwx : Memrwx) : Keeps I E (loadHalf b i addr willrwx) := by
  refine Keeps.bind (h.fetch _ _ (align_alignDown addr)) fun _ => Keeps.ite (fun _ => ?_) fun _ => ?_
  · exact Keeps.bind (h.fetch _ _ (align_add_four (align_alignDown addr))) fun _ => Keeps.pure _
  · exact Keeps.pure _

theorem doload (ms : Memstyles) (willbewrite : Bool) (addr : Word) :
    Keeps I E (doload b i ms willbewrite addr) := by
  have hNoLr : Keeps I E (modCpu i fun c => { c with lrActive := false }) := h.noLr
  have hFetch := fun willrwx => h.fetch _ willrwx (align_alignDown addr)
  unfold Riscv.doload
  refine Keeps.bind hNoLr fun _ => ?_
  dsimp only
  cases ms with
  | sbyte | ubyte => exact Keeps.bind (hFetch _) fun _ => Keeps.pure _
  | shalf | uhalf => exact Keeps.map (h.loadHalf _ _)
  | word =>
    refine Keeps.ite (fun _ => hFetch _) fun _ => Keeps.bind (hFetch _) fun _ => ?_
    exact Keeps.bind (h.fetch _ _ (align_add_four (align_alignDown addr))) fun _ => Keeps.pure _

end FetchRules

/-- As `FetchRules`, with a store that takes `I` to `J`. -/
structure StoreRules (V : Word → Word → Machine δ → Prop) (I J : Machine δ → Prop)
    (E : Stop → Machine δ → Prop) : Prop extends FetchRules b i I E where
  store : ∀ vaddr val m, vaddr &&& 0x3 = 0 → I m → V vaddr val m →
    After (domemStore b i vaddr val) (fun _ => J) E m

namespace StoreRules

variable {b i} {V : Word → Word → Machine δ → Prop} {I J K : Machine δ → Prop}
variable {E : Stop → Machine δ → Prop}

theorem modifyWord (h : StoreRules b i V I J E) {addr mask val : Word} {m : Machine δ} (hm : I m)
    (hV : ModifyWrites b i V addr mask val m) :
    After (modifyWord b i addr mask val) (fun _ => J) E m := by
  unfold Riscv.modifyWord
  rw [after_bind]
  refine ((h.fetch _ _ (align_alignDown addr) m hm).and hV).mono ?_ fun _ _ he => he.1
  rintro wval t ⟨ht, hVal⟩
  exact h.store _ _ t (align_alignDown addr) ht hVal

theorem storeByte (h : StoreRules b i V I J E) {addr val : Word} {m : Machine δ} (hm : I m)
    (hV : ByteWrites b i V addr val m) : After (storeByte b i addr val) (fun _ => J) E m := by
  unfold Riscv.storeByte
  rw [after_bind, after_modCpu]
  exact h.modifyWord (h.noLr m hm) hV

theorem storeHalf (h : StoreRules b i V I J E) (h' : StoreRules b i V J K E)
    (hle : ∀ m, J m → K m) {addr val : Word} {m : Machine δ} (hm : I m)
    (hV : HalfWrites b i V addr val m) : After (storeHalf b i addr val) (fun _ => K) E m := by
  unfold Riscv.storeHalf
  unfold HalfWrites at hV
  rw [after_bind, after_modCpu, after_ite]
  split
  · rename_i hSplit
    rw [if_pos hSplit] at hV
    rw [after_bind]
    refine ((h.storeByte (h.noLr m hm) hV.1).and hV.2).mono ?_ fun _ _ he => he.1
    rintro ⟨⟩ t ⟨ht, hNext⟩
    exact h'.storeByte ht hNext
  · rename_i hSplit
    rw [if_neg hSplit] at hV
    exact (h.modifyWord (h.noLr m hm) hV).mono (fun _ => hle) fun _ _ he => he

theorem storeWord (h : StoreRules b i V I J E) (h' : StoreRules b i V J K E)
    (hle : ∀ m, J m → K m) {addr val : Word} {m : Machine δ} (hm : I m)
    (hV : WordWrites b i V addr val m) : After (storeWord b i addr val) (fun _ => K) E m := by
  have hNext := align_add_four (align_alignDown addr)
  unfold Riscv.storeWord
  unfold WordWrites at hV
  rw [after_bind, after_modCpu, after_ite]
  split
  · rename_i hAlign
    rw [if_pos hAlign] at hV
    exact (h.store _ _ _ hAlign (h.noLr m hm) hV).mono (fun _ => hle) fun _ _ he => he
  · rename_i hAlign
    rw [if_neg hAlign] at hV
    rw [after_bind]
    refine ((h.fetch _ _ (align_alignDown addr) _ (h.noLr m hm)).and hV).mono ?_ fun _ _ he => he.1
    rintro val1 t ⟨ht, hSecond⟩
    rw [after_bind]
    refine ((h.fetch _ _ hNext t ht).and hSecond).mono ?_ fun _ _ he => he.1
    rintro val2 u ⟨hu, hFirst, hRest⟩
    dsimp only
    rw [after_bind]
    refine ((h.store _ _ u (align_alignDown addr) hu hFirst).and hRest).mono ?_ fun _ _ he => he.1
    rintro ⟨⟩ w ⟨hw, hLast⟩
    exact h'.store _ _ w hNext hw hLast

/-- A store writes one word or two. -/
theorem dostore (h : StoreRules b i V I J E) (h' : StoreRules b i V J K E)
    (hle : ∀ m, J m → K m) {ms : Memstyles} (hms : ms = .ubyte ∨ ms = .uhalf ∨ ms = .word)
    {addr val : Word} {m : Machine δ} (hm : I m) (hV : StoreWrites b i V ms addr val m) :
    After (dostore b i ms addr val) (fun _ => K) E m := by
  rcases hms with rfl | rfl | rfl
  · exact (h.storeByte hm hV).mono (fun _ => hle) fun _ _ he => he
  · exact h.storeHalf h' hle hm hV
  · exact h.storeWord h' hle hm hV

end StoreRules

/-! ## What the dispatch calls -/

/-- Stores are of the kinds that `dostore` knows, and branches go by an even distance. -/
def Insn.Wellformed : Insn → Prop
  | .store ms _ _ _ => ms = .ubyte ∨ ms = .uhalf ∨ ms = .word
  | .branch _ _ _ imm => imm &&& 0x1 = 0
  | _ => True

theorem even_or {v w : Word} (hv : v &&& 0x1 = 0) (hw : w &&& 0x1 = 0) : (v ||| w) &&& 0x1 = 0 := by
  rw [BitVec.and_or_distrib_right, hv, hw]
  rfl

theorem even_bImm (insn : Word) : bImm insn &&& 0x1 = 0 := by
  unfold bImm signext
  refine even_or (even_or (even_or ?_ ?_) ?_) ?_
  · split <;> decide
  all_goals
    ext k hk
    rcases k with _ | k <;> simp

theorem even_cbImm (insn : Word) : cbImm insn &&& 0x1 = 0 := by
  have hImm : ((((insn &&& 0x1000) >>> 4) ||| ((insn &&& 0x0060) <<< 1) |||
      ((insn &&& 0x0004) <<< 3) ||| ((insn &&& 0x0c00) >>> 7) |||
      ((insn &&& 0x0018) >>> 2)) : Word) &&& 0x1 = 0 := by
    refine even_or (even_or (even_or (even_or ?_ ?_) ?_) ?_) ?_
    all_goals
      ext k hk
      rcases k with _ | k <;> simp
  unfold cbImm orSign
  split
  · exact even_or hImm (by decide)
  · exact hImm

theorem decode32_wellformed (insn : Word) : (decode32 insn).Wellformed := by
  unfold decode32
  split
  · unfold decodeLoad
    split <;> trivial
  · unfold decodeMiscmem
    split <;> trivial
  · unfold decodeOpimm
    split
    all_goals first | trivial | (split <;> trivial)
  · trivial
  · unfold decodeStore
    split
    · exact .inl rfl
    · exact .inr (.inl rfl)
    · exact .inr (.inr rfl)
    · trivial
  · unfold decodeAmo
    split
    · trivial
    · split <;> trivial
  · unfold decodeOp
    split
    all_goals first | trivial | (split <;> trivial)
  iterate 10 trivial
  · unfold decodeBranch
    split
    all_goals first | exact even_bImm insn | trivial
  · split <;> trivial
  · trivial
  · unfold decodeSystem
    split
    all_goals first | trivial | (split <;> trivial)
  · trivial

theorem decode16_wellformed {word : Word} {insn : Insn} (h : decode16 word = some insn) :
    insn.Wellformed := by
  unfold decode16 at h
  split at h
  · rw [← Option.some.inj h]
    unfold quadrant0
    split
    · split <;> trivial
    · trivial
    · exact .inr (.inr rfl)
    · trivial
  · rw [← Option.some.inj h]
    unfold quadrant1
    split
    · trivial
    · trivial
    · split <;> trivial
    · unfold quadrant1Lui
      split
      · trivial
      · split <;> split <;> trivial
    · unfold quadrant1Arith
      split
      · split <;> trivial
      · split <;> trivial
      · trivial
      · split
        · trivial
        · split <;> trivial
    · trivial
    · split <;> exact even_cbImm word
  · rw [← Option.some.inj h]
    unfold quadrant2
    split
    · split <;> trivial
    · split <;> trivial
    · unfold quadrant2Jump
      split
      · split
        · trivial
        · split <;> trivial
      · split
        · trivial
        · split <;> trivial
    · exact .inr (.inr rfl)
    · trivial
  · simp at h

/-! ## Control registers -/

/-- A property of cpus that the writes of registers and of control registers keep is kept by the
instructions on the latter. -/
theorem Csrop.run_induct {P : Riscvcpu → Prop} (hX : ∀ rd val c, P c → P (c.setX rd val))
    (hWrite : ∀ csr val c c', P c → c.csrwrite csr val = some c' → P c')
    {op : Csrop} {c c' : Riscvcpu} {rd rs1 : Reg} {csr : Word} (hc : P c)
    (h : op.run c rd rs1 csr = some c') : P c' := by
  have hrw : ∀ val, c.rxDoCsrrw rd val csr = some c' → P c' := by
    intro val h
    unfold Riscvcpu.rxDoCsrrw Riscvcpu.rxDoCsrX at h
    split at h
    · simp only [Option.bind_eq_bind, Option.bind_eq_some_iff, Option.pure_def,
        Option.some.injEq] at h
      obtain ⟨old, -, c₁, hc₁, rfl⟩ := h
      exact hX _ _ _ (hWrite _ _ _ _ hc hc₁)
    · exact hWrite _ _ _ _ hc h
  have hrsc : ∀ val doset, c.rxDoCsrrsc rd rs1 val doset csr = some c' → P c' := by
    intro val doset h
    unfold Riscvcpu.rxDoCsrrsc Riscvcpu.rxDoCsrRc Riscvcpu.rxDoCsrR at h
    split at h
    · simp only [Option.bind_eq_bind, Option.bind_eq_some_iff, Option.pure_def,
        Option.some.injEq] at h
      obtain ⟨old, -, c₁, hc₁, rfl⟩ := h
      exact hX _ _ _ (hWrite _ _ _ _ hc hc₁)
    · simp only [Option.map_eq_some_iff] at h
      obtain ⟨old, -, rfl⟩ := h
      exact hX _ _ _ hc
  cases op with
  | csrrw => exact hrw _ h
  | csrrwi => exact hrw _ h
  | csrrs => exact hrsc _ _ h
  | csrrc => exact hrsc _ _ h
  | csrrsi => exact hrsc _ _ h
  | csrrci => exact hrsc _ _ h

/-! ## Instructions -/

/-- What the debugger makes of a cpu at a breakpoint. -/
def Riscvcpu.breakpoint (c : Riscvcpu) : Riscvcpu :=
  { c with
    cyclecount := c.cyclecount - 1, hitBreakpoint := true, nextpc := c.pc, nextpcoff := c.pcoff }

def Machine.breakpoint (m : Machine δ) (i : Nat) : Machine δ :=
  { m with cpuCycling := false, stoppedInDebugger := true, stopIsLethal := false }.modCpu i
    Riscvcpu.breakpoint

/-- What an instruction is put together from leads from `I` to `J`; where it stops, `E` holds. -/
structure Rules (V : Word → Word → Machine δ → Prop) (insn : Insn) (I J : Machine δ → Prop)
    (E : Stop → Machine δ → Prop) : Prop extends FetchRules b i I E where
  le : ∀ m, I m → J m
  raise : ∀ code val m, I m → E (.trap (.exception code val)) m
  setX : ∀ rd val m, J m → J (m.modCpu i fun c => c.setX rd val)
  reserve : ∀ addr val m, I m →
    J (m.modCpu i fun c => { c with lrActive := true, lrAddr := addr, lrValue := val })
  dostore : ∀ ms addr val m, ms = .ubyte ∨ ms = .uhalf ∨ ms = .word → I m →
    StoreWrites b i V ms addr val m → After (dostore b i ms addr val) (fun _ => J) E m
  store : ∀ vaddr val m, vaddr &&& 0x3 = 0 → I m → V vaddr val m →
    After (domemStore b i vaddr val) (fun _ => J) E m
  jump : ∀ dest m, dest &&& 0x1 = 0 → I m → After (rxJump b i dest) (fun _ => J) E m
  jumpBy : ∀ imm m, imm &&& 0x1 = 0 → I m →
    After (rxJump b i ((m.mycpus i).pc + imm)) (fun _ => J) E m
  csr : ∀ op rd rs1 num word c m, insn = .csr op rd rs1 num word → I m →
    Csrop.run op (m.mycpus i) rd rs1 num = some c → J (m.setCpu i c)
  breakpoint : ∀ m, insn = .ebreak → I m → m.gdbCanhandle (m.mycpus i).pc = true →
    J (m.breakpoint i)
  sret : ∀ m, (m.mycpus i).super = true → I m → After (rxDoSret b i) (fun _ => J) E m
  wfi : ∀ m, (m.mycpus i).super = true → I m → After (rxDoWfi i) (fun _ => J) E m
  sfenceVma : ∀ m, (m.mycpus i).super = true → I m → After (rxDoSfenceVma b i) (fun _ => J) E m

theorem even_mask (v : Word) : (v &&& 0xfffffffe) &&& 0x1 = 0 := by
  rw [BitVec.and_assoc]
  simp

theorem even_add {v w : Word} (hv : v &&& 0x1 = 0) (hw : w &&& 0x1 = 0) : (v + w) &&& 0x1 = 0 := by
  have hMod : ∀ u : Word, (u &&& 0x1).toNat = u.toNat % 2 := by
    intro u
    rw [BitVec.toNat_and]
    exact Nat.and_two_pow_sub_one_eq_mod _ 1
  have hvNat := congrArg BitVec.toNat hv
  have hwNat := congrArg BitVec.toNat hw
  rw [hMod] at hvNat hwNat
  apply BitVec.eq_of_toNat_eq
  rw [hMod, BitVec.toNat_add]
  change v.toNat % 2 = 0 at hvNat
  change w.toNat % 2 = 0 at hwNat
  change (v.toNat + w.toNat) % 2 ^ 32 % 2 = 0
  omega

namespace Rules

variable {b i} {V : Word → Word → Machine δ → Prop} {insn : Insn} {I J : Machine δ → Prop}
variable {E : Stop → Machine δ → Prop} (h : Rules b i V insn I J E)

include h

omit h in
/-- `return` after a piece of the instruction. -/
theorem andReturn {x : M δ Unit} {r : Bool} {m : Machine δ} (hx : After x (fun _ => J) E m) :
    After (do x; return r) (fun _ => J) E m := by
  rw [after_bind]
  exact hx.mono (fun _ _ ht => ht) fun _ _ he => he

theorem jal {rd : Reg} {imm retpc : Word} {m : Machine δ} (hm : I m) :
    After (rxDoJal b i rd imm retpc) (fun _ => J) E m := by
  unfold rxDoJal
  rw [after_bind, after_getCpu, after_bind]
  exact (h.jump _ m (even_mask _) hm).mono (fun _ t ht => h.setX _ _ t ht) fun _ _ he => he

theorem jalr {rd rs1 : Reg} {imm retpc : Word} {m : Machine δ} (hm : I m) :
    After (rxDoJalr b i rd rs1 imm retpc) (fun _ => J) E m := by
  unfold rxDoJalr
  rw [after_bind, after_getCpu, after_bind]
  exact (h.jump _ m (even_mask _) hm).mono (fun _ t ht => h.setX _ _ t ht) fun _ _ he => he

theorem branch {op : Branch} {rs1 rs2 : Reg} {imm : Word} (hImm : imm &&& 0x1 = 0) {m : Machine δ}
    (hm : I m) : After (rxDoBranch b i op rs1 rs2 imm) (fun _ => J) E m := by
  unfold rxDoBranch
  rw [after_bind, after_getCpu, after_ite]
  split
  · exact h.jumpBy imm m hImm hm
  · exact h.le m hm

theorem load {ms : Memstyles} {rd rs1 : Reg} {imm : Word} {m : Machine δ} (hm : I m) :
    After (rxDoLoad b i ms rd rs1 imm) (fun _ => J) E m := by
  unfold rxDoLoad
  rw [after_bind, after_getCpu, after_bind]
  refine (h.toFetchRules.doload ms false _ m hm).mono (fun tmp t ht => ?_) fun _ _ he => he
  exact h.setX rd tmp t (h.le t ht)

theorem amo {op : Amo} {rd rs1 rs2 : Reg} {m : Machine δ} (hm : I m)
    (hV : (Insn.amo op rd rs1 rs2).Writes b i V m) :
    After (rxDoAmo b i op rd rs1 rs2) (fun _ => J) E m := by
  unfold rxDoAmo
  rw [after_bind, after_getCpu, after_bind]
  refine ((h.toFetchRules.doload .word true _ m hm).and hV).mono ?_ fun _ _ he => he.1
  rintro memval t ⟨ht, hStore⟩
  rw [after_bind, after_getCpu, after_bind]
  refine (h.dostore .word _ _ t (.inr (.inr rfl)) ht hStore).mono (fun _ u hu => ?_) fun _ _ he => he
  exact h.setX rd memval u hu

theorem lr {rd rs1 : Reg} {m : Machine δ} (hm : I m) :
    After (rxDoLr b i rd rs1) (fun _ => J) E m := by
  unfold rxDoLr
  rw [after_bind, after_getCpu, after_ite]
  split
  · exact h.raise _ _ m hm
  · rename_i hAlign
    rw [after_bind]
    refine (h.fetch _ _ (not_not.mp hAlign) m hm).mono (fun val t ht => ?_) fun _ _ he => he
    rw [after_bind, after_modCpu, after_setX]
    exact h.setX _ _ _ (h.reserve _ _ t ht)

theorem sc {rd rs1 rs2 : Reg} {m : Machine δ} (hm : I m) (hV : ScWrites b i V rs1 rs2 m) :
    After (rxDoSc b i rd rs1 rs2) (fun _ => J) E m := by
  have hFail : ∀ t, I t → J (t.modCpu i fun c => c.setX rd 0) := fun t ht => h.setX _ _ t (h.le t ht)
  unfold rxDoSc
  rw [after_bind, after_getCpu, after_ite]
  split
  · exact h.raise _ _ m hm
  · rename_i hAlign
    rw [after_ite]
    split
    · exact hFail m hm
    · rename_i hActive
      rw [after_bind, after_modCpu, after_ite]
      split
      · exact hFail _ (h.noLr m hm)
      · rename_i hAddr
        have hFetch := h.fetch _ .write (not_not.mp hAlign) _ (h.noLr m hm)
        have hWrite := hV (by simpa using hActive) (not_not.mp hAddr)
        rw [after_bind]
        refine (hFetch.and hWrite).mono ?_ fun _ _ he => he.1
        rintro temp t ⟨ht, hStore⟩
        rw [after_ite]
        split
        · exact hFail t ht
        · rename_i hSame
          rw [after_bind]
          exact (h.store _ _ t (not_not.mp hAlign) ht (hStore (not_not.mp hSame))).mono
            (fun _ u hu => h.setX _ _ u hu) fun _ _ he => he

theorem ifSuper {x : M δ Unit} {word : Word} {m : Machine δ} (hm : I m)
    (hx : (m.mycpus i).super = true → After x (fun _ => J) E m) :
    After (ifSuper i word x) (fun _ => J) E m := by
  unfold Riscv.ifSuper
  rw [after_bind, after_getCpu, after_ite]
  split
  · exact hx ‹_›
  · exact h.raise _ _ m hm

theorem rxCsr {op : Csrop} {rd rs1 : Reg} {num word : Word} (hInsn : insn = .csr op rd rs1 num word)
    {m : Machine δ} (hm : I m) : After (rxCsr i op rd rs1 num word) (fun _ => J) E m := by
  unfold Riscv.rxCsr
  rw [after_bind, after_getCpu]
  cases hRun : op.run (m.mycpus i) rd rs1 num with
  | none => exact h.raise _ _ m hm
  | some c => exact h.csr op rd rs1 num word c m hInsn hm hRun

/-- What the pieces do, an instruction does. -/
theorem exec {len : Word} (hWell : insn.Wellformed) {m : Machine δ} (hm : I m)
    (hV : insn.Writes b i V m) : After (insn.exec b i len) (fun _ => J) E m := by
  have hX : ∀ rd val, J (m.modCpu i fun c => c.setX rd val) := fun rd val =>
    h.setX rd val m (h.le m hm)
  have hRaise : ∀ code val, After (Riscv.raise code val : M δ Unit) (fun _ => J) E m :=
    fun code val => h.raise code val m hm
  cases insn with
  | alui op rd rs1 imm | lui rd imm | auipc rd imm | alu op rd rs1 rs2 => exact hX rd _
  | load ms rd rs1 imm =>
    simp only [Insn.exec]
    exact andReturn (h.load hm)
  | store ms rs2 rs1 imm =>
    simp only [Insn.Writes] at hV
    simp only [Insn.exec, rxDoStore]
    rw [after_bind, after_bind, after_getCpu]
    exact h.dostore ms _ _ m hWell hm hV
  | jal rd imm =>
    simp only [Insn.exec]
    rw [after_bind, after_getCpu]
    exact andReturn (h.jal hm)
  | jalr rd rs1 imm =>
    simp only [Insn.exec]
    rw [after_bind, after_getCpu]
    exact andReturn (h.jalr hm)
  | branch op rs1 rs2 imm =>
    simp only [Insn.exec]
    exact andReturn (h.branch hWell hm)
  | lr rd rs1 =>
    simp only [Insn.exec]
    exact andReturn (h.lr hm)
  | sc rd rs1 rs2 =>
    simp only [Insn.Writes] at hV
    simp only [Insn.exec]
    exact andReturn (h.sc hm hV)
  | amo op rd rs1 rs2 =>
    simp only [Insn.exec]
    exact andReturn (h.amo hm hV)
  | csr op rd rs1 num word =>
    simp only [Insn.exec]
    exact andReturn (h.rxCsr rfl hm)
  | ecall | ill word => exact hRaise _ _
  | ebreak =>
    simp only [Insn.exec, tryBreakpoint]
    rw [after_bind, after_bind, after_get, after_bind, after_getCpu, after_ite]
    split
    · exact h.breakpoint m rfl hm ‹_›
    · exact hRaise _ _
  | sret word =>
    simp only [Insn.exec]
    exact andReturn (h.ifSuper hm fun hSuper => h.sret m hSuper hm)
  | wfi word =>
    simp only [Insn.exec]
    exact andReturn (h.ifSuper hm fun hSuper => h.wfi m hSuper hm)
  | sfenceVma word =>
    simp only [Insn.exec]
    exact andReturn (h.ifSuper hm fun hSuper => h.sfenceVma m hSuper hm)
  | nothing => exact h.le m hm

end Rules

end Sys161.Riscv
