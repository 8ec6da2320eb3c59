import Sys161.Riscv.FetchRuns

/-!
# What a turn leaves alone besides its instruction

Much of what holds of the machine looks at the general registers and at the
registers of the walk only. The parts of a turn that fetch, trap, count and move
the pc on write neither; they are gone through here once.
-/

namespace Sys161.Riscv

open Exec
open Mips (Board Page)

set_option autoImplicit false

variable {δ α : Type} {b : Board δ} (i : Nat)

/-! ## No condition on what is written -/

section Writes

variable (m : Machine δ) (addr val : Word)

theorem byteWrites_true : ByteWrites b i (fun _ _ _ => True) addr val m :=
  after_of_forall (fun _ _ => trivial) fun _ _ => trivial

theorem halfWrites_true : HalfWrites b i (fun _ _ _ => True) addr val m := by
  unfold HalfWrites
  split
  · refine ⟨byteWrites_true i _ _ _, after_of_forall (fun _ t => ?_) fun _ _ => trivial⟩
    exact byteWrites_true i t _ _
  · exact after_of_forall (fun _ _ => trivial) fun _ _ => trivial

theorem wordWrites_true : WordWrites b i (fun _ _ _ => True) addr val m := by
  unfold WordWrites
  split
  · trivial
  · refine after_of_forall (fun _ t => after_of_forall (fun _ u => ?_) fun _ _ => trivial)
      fun _ _ => trivial
    exact ⟨trivial, after_of_forall (fun _ _ => trivial) fun _ _ => trivial⟩

theorem storeWrites_true (ms : Memstyles) : StoreWrites b i (fun _ _ _ => True) ms addr val m := by
  cases ms with
  | sbyte | shalf => trivial
  | ubyte => exact byteWrites_true i m addr val
  | uhalf => exact halfWrites_true i m addr val
  | word => exact wordWrites_true i m addr val

theorem writes_true (insn : Insn) : insn.Writes b i (fun _ _ _ => True) m := by
  cases insn with
  | store ms rs2 rs1 imm => exact storeWrites_true i m _ _ ms
  | amo op rd rs1 rs2 =>
    exact after_of_forall (fun _ t => storeWrites_true i t _ _ .word) fun _ _ => trivial
  | sc rd rs1 rs2 => exact fun _ _ => after_of_forall (fun _ _ _ => trivial) fun _ _ => trivial
  | _ => trivial

end Writes

/-! ## What looks at few registers -/

/-- The general registers, the registers of the walk, and the number of the cpu. -/
def Riscvcpu.kept (c : Riscvcpu) : (Reg → Word) × MmuState × Nat := (c.x, c.toMmuState, c.cpunum)

/-- `I` looks at the cpus in these registers only, and does not mind that cpus start and stop. -/
structure CoreBlind (I : Machine δ → Prop) : Prop where
  bus : BusBlind I
  own : ∀ k (f : Riscvcpu → Riscvcpu) m, (∀ c, (f c).kept = c.kept) → I m → I (m.modCpu k f)
  enabled : ∀ k enabled m, I m → I (m.setLamebusCpu k { m.cpus k with cpuEnabled := enabled })
  start : ∀ k sp arg m, I m →
    I (m.modCpu k fun c => { c with x := Function.update (Function.update c.x 2 sp) 10 arg })

namespace CoreBlind

variable {I : Machine δ → Prop} (h : CoreBlind I)

include h

theorem modCpu {k : Nat} {f : Riscvcpu → Riscvcpu} (hf : ∀ c, (f c).kept = c.kept) :
    Keeps I (fun _ => I) (Riscv.modCpu k f) :=
  Keeps.modify fun m hm => h.own k f m hf hm

theorem modCpu_bind {k : Nat} {f : Riscvcpu → Riscvcpu} {rest : Unit → M δ α}
    (hf : ∀ c, (f c).kept = c.kept) (hRest : Keeps I (fun _ => I) (rest ())) :
    Keeps I (fun _ => I) (Riscv.modCpu k f >>= rest) :=
  Keeps.bind (h.modCpu hf) fun _ => hRest

theorem fill (k : Nat) : FillBlind k I := by
  intro vaddr leaf m hm
  apply h.own k _ m _ hm
  intro c
  unfold Riscvcpu.fill
  split <;> rfl

theorem hang (why : Hang) : Keeps I (fun _ => I) (hang why) :=
  fun m hm => h.bus m _ (Bused.hung m why) hm

theorem translatemem (vaddr : Word) (rwx : Memrwx) :
    Keeps I (fun _ => I) (translatemem b i vaddr rwx) :=
  (keeps_translatemem b i h.bus (h.fill i) vaddr rwx).error fun _ _ he => he.1

theorem precomputePc : Keeps I (fun _ => I) (precomputePc b i) := by
  unfold Riscv.precomputePc
  apply keeps_getCpu i
  intro c
  apply Keeps.bind (h.translatemem i _ _)
  intro physpc
  apply h.modCpu_bind
  · exact fun _ => rfl
  apply Keeps.ite
  · exact fun _ => Keeps.throw fun _ hm => hm
  · exact fun _ => h.modCpu fun _ => rfl

theorem trap (tr : Trap) : Keeps I (fun _ => I) (trap b i tr) := by
  intro m hm
  apply after_trap
  · intro _
    exact h.bus _ _ (Bused.hung m _) hm
  · intro _
    have hEnter : I (m.modCpu i fun c => c.enterTrap tr) := h.own i _ m (fun _ => rfl) hm
    apply (h.precomputePc i _ hEnter).mono
    · exact fun _ _ ht => ht
    · intro e t ht
      cases e with
      | trap tr => exact h.bus _ _ (Bused.hung t _) ht
      | crashdie | smoke | undefined => exact ht

theorem trapping {x : M δ α} {handled : α} (hx : Keeps I (fun _ => I) x) :
    Keeps I (fun _ => I) (trapping b i x handled) := by
  intro m hm
  rw [after_trapping]
  apply (hx m hm).mono
  · exact fun _ _ ht => ht
  · intro e t ht
    cases e with
    | trap tr => exact h.trap i tr t ht
    | crashdie | smoke | undefined => exact ht

theorem attempt {x : M δ Unit} (hx : Keeps I (fun _ => I) x) :
    Keeps I (fun _ => I) (attempt b i x) :=
  h.trapping i (Keeps.bind hx fun _ => Keeps.pure _)

/-! ## What the bus asks of a cpu -/

theorem cpuSetEntrypoint (addr : Word) : Keeps I (fun _ => I) (cpuSetEntrypoint b i addr) := by
  have hLookup : ∀ pc : Word, Keeps I (fun _ => I) (do
      Riscv.modCpu i fun c => { c with pc := pc }
      if ← Riscv.attempt b i (Riscv.precomputePc b i) then
        pure ()
      else
        Riscv.hang .entryInvalid) := by
    intro pc
    apply h.modCpu_bind
    · exact fun _ => rfl
    apply Keeps.bind (h.attempt i (h.precomputePc i))
    intro found
    exact Keeps.ite (fun _ => Keeps.pure _) fun _ => h.hang _
  unfold Riscv.cpuSetEntrypoint
  apply keeps_getCpu i
  intro c
  apply Keeps.ite
  · exact fun _ => Keeps.bind (h.hang _) fun _ => hLookup _
  · exact fun _ => hLookup _

theorem setCpue (val : Word) : Keeps I (fun _ => I) (setCpue b val) := by
  apply keeps_setCpue b val h.bus
  · exact fun k m state hm => h.own k _ m (fun _ => rfl) hm
  · exact fun k m sp arg hm => h.start k sp arg m hm
  · exact fun k m _ hm => h.enabled k false m hm
  · exact fun k m pcva _ _ hm => h.cpuSetEntrypoint k pcva m hm

theorem domemFetch (vaddr : Word) (rwx : Memrwx) :
    Keeps I (fun _ => I) (domemFetch b i vaddr rwx) := by
  unfold Riscv.domemFetch
  apply Keeps.bind (h.translatemem i vaddr rwx)
  intro paddr
  apply Keeps.bind ((BusBlind.fetchPhys i h.bus paddr).error fun _ _ he => he.2)
  intro found
  cases found with
  | none => exact Keeps.throw fun _ hm => hm
  | some val => exact Keeps.pure _

/-! ## The pc and the fetch -/

theorem updatePc : Keeps I (fun _ => I) (updatePc b i) := by
  unfold Riscv.updatePc
  apply h.modCpu_bind
  · exact fun _ => rfl
  apply keeps_getCpu i
  intro c
  apply Keeps.ite
  · exact fun _ => h.attempt i (h.precomputePc i)
  · exact fun _ => Keeps.bind (h.modCpu fun _ => rfl) fun _ => Keeps.pure _

omit h in
theorem useMap (page : Option Page) (pageoffset : Word) :
    Keeps I (fun _ => I) (useMap page pageoffset) := by
  cases page with
  | none => exact Keeps.throw fun _ hm => hm
  | some page =>
    apply Keeps.ite
    · exact fun _ => Keeps.throw fun _ hm => hm
    · exact fun _ => Keeps.bind Keeps.get fun _ => Keeps.pure _

theorem fetchSecond : Keeps I (fun _ => I) (fetchSecond b i) := by
  unfold Riscv.fetchSecond
  apply keeps_getCpu i
  intro c
  apply Keeps.ite
  · intro _
    apply h.modCpu_bind
    · exact fun _ => rfl
    apply Keeps.bind (h.attempt i (h.precomputePc i))
    intro found
    apply Keeps.ite
    · intro _
      apply keeps_getCpu i
      intro c
      apply Keeps.bind (useMap _ _)
      exact fun _ => Keeps.bind (h.modCpu fun _ => rfl) fun _ => Keeps.pure _
    · exact fun _ => Keeps.bind (h.modCpu fun _ => rfl) fun _ => Keeps.pure _
  · exact fun _ => Keeps.bind (useMap _ _) fun _ => Keeps.pure _

theorem fetch : Keeps I (fun _ => I) (fetch b i) := by
  have hNext : ∀ len is, Keeps I (fun _ => I) (do
      Riscv.modCpu i fun c => c.setNext len
      return is : M δ Issue) :=
    fun len is => Keeps.bind (h.modCpu fun _ => rfl) fun _ => Keeps.pure _
  unfold Riscv.fetch
  apply keeps_getCpu i
  intro c
  apply Keeps.bind (useMap _ _)
  intro word
  dsimp only
  generalize (if c.pcoff &&& 0x2 ≠ 0 then word >>> 16 else word) = insn
  apply Keeps.ite (fun _ => hNext 2 _)
  intro _
  apply Keeps.ite (fun _ => Keeps.pure _)
  intro _
  apply Keeps.ite
  · intro _
    apply Keeps.bind (h.fetchSecond i)
    intro second
    cases second with
    | none => exact Keeps.pure _
    | some insn2 => exact hNext 4 _
  · exact fun _ => hNext 4 _

end CoreBlind

/-- `I` does not look at main memory and at whether there is a debugger either. -/
structure ExecBlind (I : Machine δ → Prop) : Prop extends CoreBlind I where
  ram : ∀ ix val m, I m → I { m with ram := Function.update m.ram ix val }
  ready : ∀ gdbReady m, I m → I { m with gdbReady := gdbReady }

namespace ExecBlind

variable {I : Machine δ → Prop} (h : ExecBlind I)

include h

theorem storePhys (paddr val : Word) : Keeps I (fun _ => I) (storePhys b i paddr val) := by
  intro m hm
  apply after_storePhys
  · exact fun ix => h.ram ix val m hm
  · exact fun t ht => h.bus m t ht hm
  · exact fun e _ => hm
  · exact fun _ _ => h.setCpue val m hm

theorem domemStore (vaddr val : Word) : Keeps I (fun _ => I) (domemStore b i vaddr val) := by
  unfold Riscv.domemStore
  apply Keeps.bind (h.translatemem i vaddr .write)
  intro paddr
  apply Keeps.bind (h.storePhys i paddr val)
  intro found
  exact Keeps.ite (fun _ => Keeps.pure _) fun _ => Keeps.throw fun _ hm => hm

theorem storeRules : StoreRules b i (fun _ _ _ => True) I I (fun _ => I) where
  fetch vaddr rwx _ := h.domemFetch i vaddr rwx
  noLr m hm := h.own i _ m (fun _ => rfl) hm
  store vaddr val m _ hm _ := h.domemStore i vaddr val m hm

theorem rxJump (dest : Word) : Keeps I (fun _ => I) (rxJump b i dest) := by
  apply keeps_getCpu i
  intro c
  apply Keeps.ite
  · exact fun _ => Keeps.throw fun _ hm => hm
  · exact fun _ => Keeps.bind (h.modCpu fun _ => rfl) fun _ => h.precomputePc i

theorem rxDoSret : Keeps I (fun _ => I) (rxDoSret b i) :=
  Keeps.bind (h.modCpu fun _ => rfl) fun _ => h.precomputePc i

theorem rxDoWfi : Keeps I (fun _ => I) (rxDoWfi i) := by
  intro m hm
  unfold Riscv.rxDoWfi
  rw [after_bind, after_getCpu]
  dsimp only
  generalize ((m.mycpus i).irqLamebus && _ || _ || _) = pending
  rw [after_ite]
  split
  · exact hm
  · exact h.bus _ _ (bused_mask _ _) (h.own i _ m (fun _ => rfl) hm)

/-- Control registers and `sfence.vma` apart, an instruction is put together from what `I` does not
see and from writes of the general registers. -/
theorem rules (insn : Insn) (hX : ∀ rd val m, I m → I (m.modCpu i fun c => c.setX rd val))
    (hCsr : ∀ op rd rs1 num c m, I m → Csrop.run op (m.mycpus i) rd rs1 num = some c →
      I (m.setCpu i c))
    (hSfence : ∀ m, I m → After (rxDoSfenceVma b i) (fun _ => I) (fun _ => I) m) :
    Rules b i (fun _ _ _ => True) insn I I (fun _ => I) where
  toFetchRules := (h.storeRules i).toFetchRules
  le _ hm := hm
  raise _ _ _ hm := hm
  setX := hX
  reserve _ _ m hm := h.own i _ m (fun _ => rfl) hm
  dostore ms addr val m hms hm hV :=
    (h.storeRules i).dostore (h.storeRules i) (fun _ ht => ht) hms hm hV
  store := (h.storeRules i).store
  jump dest m _ hm := h.rxJump i dest m hm
  jumpBy imm m _ hm := h.rxJump i _ m hm
  csr op rd rs1 num word c m _ hm hRun := hCsr op rd rs1 num c m hm hRun
  breakpoint m _ hm _ := by
    have hStopped : I { m with
        cpuCycling := false, stoppedInDebugger := true, stopIsLethal := false } :=
      h.bus m _ ⟨fun _ => rfl, rfl, fun _ => rfl, rfl, rfl⟩ hm
    exact h.own i Riscvcpu.breakpoint _ (fun _ => rfl) hStopped
  sret m _ hm := h.rxDoSret i m hm
  wfi m _ hm := h.rxDoWfi i m hm
  sfenceVma m _ hm := hSfence m hm

/-- What the instruction and the trap it may come to keep. -/
theorem execute (hInsn : ∀ (insn : Insn) len, insn.Wellformed →
    Keeps I (fun _ => I) (insn.exec b i len)) (is : Issue) :
    Keeps I (fun _ _ => True) (execute b i is) := by
  have hTaken : ∀ e t, I t → taken b i (fun (_ : Bool) => I) (fun _ _ => True) false e t := by
    intro e t ht
    cases e with
    | trap tr => exact (h.trap i tr t ht).mono (fun _ _ hu => hu) fun _ _ _ => trivial
    | crashdie | smoke | undefined => trivial
  intro m hm
  unfold Riscv.execute
  rw [after_trapping]
  cases is with
  | idle | fault => exact hm
  | short word =>
    dsimp only
    unfold insn16
    cases hDecode : decode16 word with
    | none => trivial
    | some insn =>
      exact (hInsn insn 2 (decode16_wellformed hDecode) m hm).mono (fun _ _ ht => ht) hTaken
  | long word =>
    exact (hInsn (decode32 word) 4 (decode32_wellformed word) m hm).mono (fun _ _ ht => ht) hTaken
  | tooLong word => exact hTaken (.trap (.exception .illinst word)) m hm

/-- Besides turns, the steps of the machine are made of what `I` does not see. -/
theorem step {m m' : Machine δ} {a : Act δ} (hm : I m) (hStep : Step b m a m')
    (hTurn : ∀ i, a = .turn i → After (Riscv.cpuTurn b i) (fun _ => I) (fun _ _ => True) m) :
    I m' := by
  rcases hStep with ⟨_, hRun⟩
  cases a with
  | turn i =>
    have hExec : After (Act.exec b (.turn i)) (fun _ => I) (fun _ _ => True) m := by
      rw [Act.exec, after_bind]
      exact hTurn i rfl
    exact after_of_run_ok hExec hRun
  | raiseIrq slot =>
    cases hRun
    exact h.bus _ _ (Bused.deviceIrq b m slot true) hm
  | lowerIrq slot =>
    cases hRun
    exact h.bus _ _ (Bused.deviceIrq b m slot false) hm
  | devices d =>
    cases hRun
    exact h.bus m _ ⟨fun _ => rfl, rfl, fun _ => rfl, rfl, rfl⟩ hm
  | poke index val =>
    cases hRun
    exact h.ram index val m hm
  | debugger cycling stopped lethal gdbReady =>
    cases hRun
    have hReady := h.ready gdbReady m hm
    exact h.bus { m with gdbReady := gdbReady } _ ⟨fun _ => rfl, rfl, fun _ => rfl, rfl, rfl⟩ hReady
  | setStack i stackaddr argument =>
    cases hRun
    exact h.start i stackaddr argument m hm
  | setEntrypoint i addr => exact after_of_run_ok (h.cpuSetEntrypoint i addr m hm) hRun

end ExecBlind

/-- `I` does not look at the statistics either. -/
structure CpuBlind (I : Machine δ → Prop) : Prop extends ExecBlind I where
  stats : ∀ sPercpu m, I m → I { m with sPercpu := sPercpu }

namespace CpuBlind

variable {I : Machine δ → Prop} (h : CpuBlind I)

include h

/-! ## Turns -/

theorem countStats (f : Mips.PercpuStats → Mips.PercpuStats) :
    Keeps I (fun _ => I) (modify fun m => m.countStats i f : M δ Unit) :=
  Keeps.modify fun m hm => h.stats _ m hm

theorem finish (stopped retireUsermode : Bool) : Keeps I (fun _ => I) (do
    if ← Riscv.updatePc b i then
      Riscv.modCpu i Riscvcpu.tick
      retire i retireUsermode
    return stopped : M δ Bool) := by
  have hRetire : Keeps I (fun _ => I) (retire i retireUsermode : M δ Unit) := by
    apply keeps_getCpu i
    exact fun c => Keeps.ite (fun _ => h.countStats i _) fun _ => Keeps.pure _
  apply Keeps.bind (h.updatePc i)
  intro found
  apply Keeps.ite
  · intro _
    apply h.modCpu_bind
    · exact fun _ => rfl
    · exact Keeps.bind hRetire fun _ => Keeps.pure _
  · exact fun _ => Keeps.pure _

theorem issue : Keeps I (fun _ => I) (issue b i) := by
  have hInterrupt : Keeps I (fun _ => I) (takeInterrupt b i) := by
    apply keeps_getCpu i
    intro c
    cases c.pendingIrq with
    | none => exact Keeps.pure _
    | some irq => exact h.trap i _
  apply keeps_getCpu i
  intro c
  apply Keeps.ite
  · exact fun _ => Keeps.bind (h.countStats i _) fun _ => Keeps.pure _
  · intro _
    apply Keeps.bind hInterrupt
    intro _
    apply Keeps.bind (Keeps.modify fun m hm => h.stats _ m hm : Keeps I (fun _ => I) (countCycle i))
    intro _
    exact Keeps.bind (h.modCpu fun _ => rfl) fun _ => h.fetch i

theorem cpuTurn (hInsn : ∀ (insn : Insn) len, insn.Wellformed →
    Keeps I (fun _ => I) (insn.exec b i len)) : Keeps I (fun _ _ => True) (cpuTurn b i) := by
  have hComplete : ∀ is, Keeps I (fun _ _ => True) (complete b i is) := by
    intro is
    unfold complete
    apply keeps_getCpu i
    intro c
    apply Keeps.bind (h.execute i hInsn is)
    intro stopped
    exact (h.finish i stopped _).error fun _ _ _ => trivial
  unfold Riscv.cpuTurn
  apply Keeps.bind ((h.issue i).error fun _ _ _ => trivial)
  intro is
  cases is with
  | idle | fault => exact Keeps.pure _
  | short word | long word | tooLong word => exact hComplete _

end CpuBlind

end Sys161.Riscv
