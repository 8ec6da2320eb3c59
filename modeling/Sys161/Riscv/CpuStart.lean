import Sys161.Riscv.CycleStats
import Sys161.Riscv.DecodeRuns

/-!
# What a RISC-V cpu starts with

There is no delay slot to be left in, and the word after the entry is not looked
up. As for MIPS, a cpu that is started keeps its mode, its interrupt enable and its
reservation from the time before it was stopped.
-/

namespace Sys161.Riscv

open Exec
open Mips (Board lamebusConfigSize lamebusControllerSlot lamebusCpuInit lamebusSlotMem lbcCramEnd
  twinBoard)

set_option autoImplicit false

variable {δ : Type} {b : Board δ}

/-- The first word of the scratch area of a cpu. -/
def Machine.startEntry (m : Machine δ) (j : Nat) : Word := (m.cpus j).cpuCram 0

/-- The top of the scratch area of a cpu. -/
def startStack (j : Nat) : Word :=
  cpuGetSecondaryStartStack (BitVec.ofNat 32 (lamebusSlotMem * lamebusControllerSlot + 32768 +
    j * lamebusConfigSize + lbcCramEnd))

def Riscvcpu.alignmask (c : Riscvcpu) : Word := if c.cext then 0xfffffffe else 0xfffffffc

def Riscvcpu.kernel (c : Riscvcpu) : Riscvcpu := { c with super := true }

/-- An aligned kernel address at which the cpu can fetch. -/
structure KernelEntry (b : Board δ) (ram : BitVec 30 → Word) (c : Riscvcpu) (addr : Word) :
    Prop where
  aligned : addr &&& c.alignmask = addr
  inMemory : c.Walks addr → c.EntryInMemory ram addr
  mapped : c.kernel.codePage b ram addr ≠ none

/-- What a trap leaves to be asked for. -/
def Riscvcpu.lastTrap (c : Riscvcpu) : Bool × Word × Word × Word :=
  (c.scauseInterrupt, c.scauseTrapcode, c.stval, c.sepc)

/-- The cpu is about to execute at the entry, with nothing of what it did before, and neither a trap
nor a hang has come of it. -/
structure Started (b : Board δ) (m : Machine δ) (j : Nat) (m' : Machine δ) : Prop where
  state : (m'.mycpus j).state = .running
  pc : (m'.mycpus j).pc = m.startEntry j
  fetch : ∃ physpc,
    (m.mycpus j).kernel.translation b m.ram (m.startEntry j) .execute = .ok physpc ∧
      (m'.mycpus j).pcpage = mapmem b physpc ∧ (m'.mycpus j).pcoff = physpc &&& 0xfff
  stack : (m'.mycpus j).x 2 = startStack j
  argument : (m'.mycpus j).x 10 = (m.cpus j).cpuCram 1
  kernel : (m'.mycpus j).super = true
  irqoff : (m'.mycpus j).statusSie = false
  unreserved : (m'.mycpus j).lrActive = false
  lastTrap : (m'.mycpus j).lastTrap = (m.mycpus j).lastTrap
  hangs : m'.hangs = m.hangs

/-- What the cpu was doing when it was stopped is not to be taken up again. -/
structure Riscvcpu.Quiescent (c : Riscvcpu) : Prop where
  kernel : c.super = true
  irqoff : c.statusSie = false
  unreserved : c.lrActive = false

/-- What follows `cpu_set_entrypoint`. -/
def Riscvcpu.launched (c : Riscvcpu) (stackaddr argument : Word) : Riscvcpu :=
  { c with
    x := Function.update (Function.update c.x 2 stackaddr) 10 argument, state := .running }

def Machine.launch (m : Machine δ) (j : Nat) (stackaddr argument : Word) : Machine δ :=
  { m.modCpu j fun c => c.launched stackaddr argument with
    cpuRunningMask := m.cpuRunningMask ||| (1#32 <<< j) }

theorem launch_mycpus_self (m : Machine δ) (j : Nat) (stackaddr argument : Word) :
    (m.launch j stackaddr argument).mycpus j = (m.mycpus j).launched stackaddr argument :=
  Machine.modCpu_mycpus_self m j fun c => c.launched stackaddr argument

/-- What a start without a hang leaves. -/
theorem started_launch {m : Machine δ} {j : Nat} {c : Riscvcpu} {physpc : Word}
    (hTrans : (m.mycpus j).kernel.translation b m.ram (m.startEntry j) .execute = .ok physpc)
    (hSame : c.uncached = ({ m.mycpus j with pc := m.startEntry j } : Riscvcpu).uncached) :
    Started b m j ((m.setCpu j (c.place (mapmem b physpc) physpc)).launch j (startStack j)
      ((m.cpus j).cpuCram 1)) ↔ (m.mycpus j).Quiescent := by
  have hSelf := launch_mycpus_self (m.setCpu j (c.place (mapmem b physpc) physpc)) j (startStack j)
    ((m.cpus j).cpuCram 1)
  rw [Machine.setCpu_mycpus_self] at hSelf
  have hKernel : c.super = (m.mycpus j).super :=
    Riscvcpu.uncached_congr hSame (fun c => c.super) fun _ => rfl
  have hIrq : c.statusSie = (m.mycpus j).statusSie :=
    Riscvcpu.uncached_congr hSame (fun c => c.statusSie) fun _ => rfl
  have hLr : c.lrActive = (m.mycpus j).lrActive :=
    Riscvcpu.uncached_congr hSame (fun c => c.lrActive) fun _ => rfl
  constructor
  · intro h
    have hKernel' := h.kernel
    have hIrq' := h.irqoff
    have hLr' := h.unreserved
    rw [hSelf] at hKernel' hIrq' hLr'
    exact ⟨hKernel.symm.trans hKernel', hIrq.symm.trans hIrq', hLr.symm.trans hLr'⟩
  · intro h
    constructor <;> try rw [hSelf]
    case pc => exact Riscvcpu.uncached_congr hSame (fun c => c.pc) fun _ => rfl
    case fetch => exact ⟨physpc, hTrans, rfl, rfl⟩
    case kernel => exact hKernel.trans h.kernel
    case irqoff => exact hIrq.trans h.irqoff
    case unreserved => exact hLr.trans h.unreserved
    case lastTrap => exact Riscvcpu.uncached_congr hSame Riscvcpu.lastTrap fun _ => rfl
    all_goals rfl

section Start

variable {Q : Unit → Machine δ → Prop} {E : Stop → Machine δ → Prop} {m : Machine δ} {j : Nat}

theorem after_launch {stackaddr argument : Word} : After (do
      cpuSetStack j stackaddr argument
      cpuEnable j) Q E m ↔ Q () (m.launch j stackaddr argument) := by
  have hTwice : ∀ f g : Riscvcpu → Riscvcpu,
      (m.modCpu j f).modCpu j g = m.modCpu j fun c => g (f c) := by
    intro f g
    simp [Machine.modCpu]
  rw [after_bind, cpuSetStack, after_modCpu, cpuEnable, after_bind, after_modCpu, hTwice]
  exact Iff.rfl

variable {val : Word} (hBit : val.getLsbD j = true) (hOff : (m.cpus j).cpuEnabled = false)

include hBit hOff

/-- To start a cpu is to look up its entry and to launch it, whatever has come of that. -/
theorem after_setCpueCpu_start
    (hAligned : m.startEntry j &&& (m.mycpus j).alignmask = m.startEntry j) :
    After (setCpueCpu b val j) Q E m ↔
      After (attempt b j (precomputePc b j))
        (fun found t => Q () ((if found then t else t.hung .entryInvalid).launch j (startStack j)
          ((m.cpus j).cpuCram 1))) E
        (m.modCpu j fun c => { c with pc := m.startEntry j }) := by
  have hEntry : (m.cpus j).cpuCram 0 = m.startEntry j := rfl
  have hMask : (m.startEntry j &&& if (m.mycpus j).cext then 0xfffffffe else 0xfffffffc) =
      m.startEntry j := hAligned
  rw [setCpueCpu, after_bind, after_get]
  simp only [hOff, hBit, Bool.false_and, Bool.not_false, Bool.true_and, Bool.false_eq_true,
    if_false, if_true]
  rw [after_bind, cpuSetEntrypoint, hEntry, after_bind, after_getCpu]
  dsimp only
  rw [hMask, if_neg (by simp), after_bind, after_modCpu, after_bind]
  apply after_congr
  refine after_of_forall ?_ fun _ _ => Iff.rfl
  rintro (_ | _) t
  · exact after_launch (E := E)
  · exact after_launch (E := E)

/-- A cpu that was stopped in user mode does not get to the entry in kernel mode: if it traps, it is
launched at its trap handler. -/
theorem not_started_user
    (hAligned : m.startEntry j &&& (m.mycpus j).alignmask = m.startEntry j)
    (hUser : (m.mycpus j).super = false) :
    After (setCpueCpu b val j) (fun _ t => ¬Started b m j t) (fun _ _ => True) m := by
  have hMode : ((m.modCpu j fun c => { c with pc := m.startEntry j }).mycpus j).super = false := by
    rw [Machine.modCpu_mycpus_self]
    exact hUser
  have hPc : ((m.modCpu j fun c => { c with pc := m.startEntry j }).mycpus j).pc =
      m.startEntry j := by
    rw [Machine.modCpu_mycpus_self]
  rw [after_setCpueCpu_start hBit hOff hAligned, after_attempt]
  generalize (m.modCpu j fun c => { c with pc := m.startEntry j }) = t₀ at hMode hPc
  refine ((pc_precomputePc b j t₀).and (precomputePc_super t₀ hMode)).mono ?_ ?_
  · rintro ⟨⟩ t ⟨-, ht⟩ hStarted
    have hKernel := hStarted.kernel
    rw [if_pos rfl, launch_mycpus_self] at hKernel
    exact absurd (ht.symm.trans hKernel) nofun
  · rintro e t ⟨⟨-, ht⟩, -⟩
    cases e with
    | trap tr =>
      apply after_trap b j tr
      · exact fun _ => trivial
      · intro hHandler
        refine (pc_precomputePc b j _).mono ?_ ?_
        · rintro ⟨⟩ u hu hStarted
          have hAt := hStarted.pc
          rw [if_neg nofun, launch_mycpus_self] at hAt
          rw [Machine.modCpu_mycpus_self] at hu
          exact hHandler (ht.trans (hPc.trans (hAt.symm.trans hu)))
        · intro e u _
          cases e <;> trivial
    | crashdie | smoke | undefined => trivial

/-- One that was stopped in kernel mode does, with whatever else it was left with. -/
theorem after_start_kernel (hEntry : KernelEntry b m.ram (m.mycpus j) (m.startEntry j))
    (hKernel : (m.mycpus j).super = true) :
    After (setCpueCpu b val j) (fun _ t => Started b m j t ↔ (m.mycpus j).Quiescent)
      (fun _ _ => False) m := by
  obtain ⟨hAligned, hMem, hMapped⟩ := hEntry
  have hSame : (m.mycpus j).kernel = m.mycpus j := by
    rw [Riscvcpu.kernel, ← hKernel]
  rw [hSame, Riscvcpu.codePage] at hMapped
  rw [after_setCpueCpu_start hBit hOff hAligned, after_attempt]
  unfold precomputePc
  rw [after_bind, after_getCpu, Machine.modCpu_mycpus_self, after_bind]
  have hEven : m.startEntry j &&& 0x1 = 0 := by
    rw [← hAligned, BitVec.and_assoc, Riscvcpu.alignmask]
    split <;> simp
  refine (after_translatemem_mem b j hEven ?_).mono ?_ ?_
  · rw [Machine.modCpu_mycpus_self]
    exact hMem
  · rintro physpc t ⟨hTrans, hLeft⟩
    rw [Machine.modCpu_mycpus_self] at hTrans
    have hFound : (m.mycpus j).translation b m.ram (m.startEntry j) .execute = .ok physpc := hTrans
    rw [hFound] at hMapped
    obtain ⟨c, rfl, hc⟩ : ∃ c, t = m.setCpu j c ∧
        c.uncached = ({ m.mycpus j with pc := m.startEntry j } : Riscvcpu).uncached := by
      rcases hLeft with rfl | ⟨-, leaf, -, rfl⟩
      · exact ⟨_, rfl, rfl⟩
      · refine ⟨_, Machine.setCpu_setCpu m j _ _, ?_⟩
        rw [Riscvcpu.fill_uncached, Machine.modCpu_mycpus_self]
    have hPlace : ((m.setCpu j c).modCpu j fun c => { c with pcpage := mapmem b physpc }).modCpu j
        (fun c => { c with pcoff := physpc &&& 0xfff, nextpcoff := physpc &&& 0xfff }) =
        m.setCpu j (c.place (mapmem b physpc) physpc) := by
      simp [Machine.modCpu, Riscvcpu.place]
    rw [after_bind, after_modCpu, if_neg hMapped, after_modCpu, hPlace, if_pos rfl]
    refine started_launch ?_ hc
    rw [hSame]
    exact hFound
  · rintro e t ⟨tr, hFault, -⟩
    rw [Machine.modCpu_mycpus_self] at hFault
    have hNone : (m.mycpus j).translation b m.ram (m.startEntry j) .execute = .error tr := hFault
    rw [hNone] at hMapped
    exact absurd rfl hMapped

end Start

/-- Setting the bit of a cpu that is off starts it as it should exactly if the cpu was not stopped in
user mode, with interrupts on or with a reservation. -/
theorem started_iff_quiescent {m : Machine δ} {j : Nat} {val : Word} (hBit : val.getLsbD j = true)
    (hOff : (m.cpus j).cpuEnabled = false)
    (hEntry : KernelEntry b m.ram (m.mycpus j) (m.startEntry j)) :
    After (setCpueCpu b val j) (fun _ m' => Started b m j m') (fun _ _ => False) m ↔
      (m.mycpus j).Quiescent := by
  cases hMode : (m.mycpus j).super with
  | true =>
    have hIff := after_start_kernel hBit hOff hEntry hMode
    constructor
    · intro h
      exact exists_end (h.and hIff) (fun _ _ ht => ht.2.mp ht.1) fun _ _ he => he.1.elim
    · exact fun hQuiescent => hIff.mono (fun _ _ ht => ht.mpr hQuiescent) fun _ _ he => he
  | false =>
    have hNot := not_started_user (b := b) hBit hOff hEntry.aligned hMode
    constructor
    · intro h
      exact exists_end (h.and hNot) (fun _ _ ht => absurd ht.1 ht.2) fun _ _ he => he.1.elim
    · intro hQuiescent
      exact absurd (hMode.symm.trans hQuiescent.kernel) nofun

/-- The second cpu is off, with an entry in its scratch area. -/
def secondOff : Machine Unit :=
  (machineInit () false).setLamebusCpu 1
    { lamebusCpuInit 1 with cpuCram := fun _ => paddrRambase }

theorem second_starts : After (setCpueCpu twinBoard 3 1)
    (fun _ m' => Started twinBoard secondOff 1 m') (fun _ _ => False) secondOff := by
  have hEntry : KernelEntry twinBoard secondOff.ram (secondOff.mycpus 1)
      (secondOff.startEntry 1) :=
    ⟨by decide, fun h => absurd h.1 (by decide), by decide⟩
  exact (started_iff_quiescent (by decide) (by decide) hEntry).mpr ⟨rfl, rfl, rfl⟩

end Sys161.Riscv
