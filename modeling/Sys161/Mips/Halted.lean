import Sys161.Mips.Ahead
import Sys161.Mips.DebugAccess

/-!
# A stopped machine

The registers as the debugger is shown them, and what a cpu does for the debugger
and in a cycle: it may stop the machine but does not let it go on.
-/

namespace Sys161.Mips

open Exec

set_option autoImplicit false

variable {δ : Type} (b : Board δ)

def Halted (m : Machine δ) : Prop := m.stoppedInDebugger = true

def getrandom (c : Mipscpu) : Word × Mipscpu :=
  let c := c.reduceRandom
  ((c.tlbrandom + BitVec.ofNat 32 randregOffset) <<< 8, c)

/-- `cpudebug_getregs`; the value of RANDOM is reduced on the way. -/
def cpudebugGetregs (m : Machine δ) (i : Nat) : List Word × Machine δ :=
  let c := m.mycpus i
  let (random, c') := getrandom c
  ((List.finRange 32).map (fun k => c.r (BitVec.ofFin k)) ++
    [c.getstatus, c.lo, c.hi, c.exVaddr, c.getcause, c.pc, 0, 0, 0, c.getindex, random,
      tlbgetlo c.tlbentry, c.exContext, tlbgethi c.tlbentry, c.exEpc, c.exPrid], m.setCpu i c')

def cpudebugGetBreakCpu (m : Machine δ) : Nat :=
  ((List.range b.ncpus).find? fun i => (m.mycpus i).hitBreakpoint).getD 0

theorem halted_blind : FetchBlind b (Halted : Machine δ → Prop) where
  fetchState _ _ _ hm := hm
  exception _ _ _ hm := hm
  vpn _ _ _ hm := hm

theorem halted_setEntrypoint (i : Nat) (addr : Word) :
    Keeps (Halted : Machine δ → Prop) (fun _ _ => True) (cpuSetEntrypoint b i addr) :=
  ((halted_blind b).cpuSetEntrypoint i (fun _ _ _ => rfl) (fun _ _ hm => hm) addr).error
    fun _ _ _ => trivial

theorem final_debugTranslatemem (i : Nat) (va : Word) (iswrite : Bool) (m : Machine δ) :
    After (debugTranslatemem i va iswrite) (fun _ t => t = m) (fun _ _ => True) m := by
  obtain ⟨hOutcome, hFinal⟩ := debugTranslatemem_spec i m va iswrite
  rw [after_iff_outcome, hOutcome, hFinal]

/-- The translation changes nothing, so it is what follows that counts. -/
theorem keeps_debugTranslatemem {α : Type} {P : Machine δ → Prop} (i : Nat) (va : Word)
    (iswrite : Bool) {f : Option Word → M δ α} (h : ∀ pa, Keeps P (fun _ _ => True) (f pa)) :
    Keeps P (fun _ _ => True) (debugTranslatemem i va iswrite >>= f) := by
  intro m hm
  rw [after_bind]
  refine (final_debugTranslatemem i va iswrite m).mono ?_ fun _ _ h => h
  rintro pa t rfl
  exact h pa t hm

theorem quiet_fetchByte (i : Nat) (m : Machine δ) (va : Word) :
    Keeps (fun t => t = m) (fun _ _ => True) (cpudebugFetchByte b i va) := by
  rw [cpudebugFetchByte]
  refine keeps_debugTranslatemem i _ false ?_
  rintro (_ | pa) _ rfl
  · rfl
  · rfl

theorem quiet_fetchWord (i : Nat) (m : Machine δ) (va : Word) :
    Keeps (fun t => t = m) (fun _ _ => True) (cpudebugFetchWord b i va) := by
  rw [cpudebugFetchWord]
  refine keeps_debugTranslatemem i _ false ?_
  rintro (_ | pa) _ rfl
  · rfl
  · rfl

theorem halted_of_quiet {α : Type} {x : M δ α}
    (h : ∀ m, Keeps (fun t => t = m) (fun _ _ => True) x) :
    Keeps (Halted : Machine δ → Prop) (fun _ _ => True) x := by
  intro m hm
  refine (h m m rfl).mono ?_ fun _ _ h => h
  rintro _ _ rfl
  exact hm

theorem halted_storeByte (i : Nat) (va : Word) (byte : BitVec 8) :
    Keeps (Halted : Machine δ → Prop) (fun _ _ => True) (cpudebugStoreByte b i va byte) := by
  rw [cpudebugStoreByte]
  refine keeps_debugTranslatemem i va true ?_
  rintro (_ | pa) t hm
  · exact hm
  · change After (busMemStorebyte b pa byte) _ _ t
    rw [busMemStorebyte, after_ite]
    split <;> exact hm

theorem halted_storeWord (i : Nat) (va word : Word) :
    Keeps (Halted : Machine δ → Prop) (fun _ _ => True) (cpudebugStoreWord b i va word) := by
  rw [cpudebugStoreWord]
  refine keeps_debugTranslatemem i va true ?_
  rintro (_ | pa) t hm
  · exact hm
  · change After (busMemStore b pa word) _ _ t
    rw [busMemStore, after_ite]
    split <;> exact hm

/-! ## A cycle -/

theorem execBlind_halted : ExecBlind b (Halted : Machine δ → Prop) where
  toFetchBlind := halted_blind b
  hang _ _ _ := rfl
  devices _ _ hm := hm
  raised _ _ hm := hm
  enabled _ _ hm := hm
  lamebusCpu _ _ _ hm := hm
  irqLines _ _ _ hm := hm
  state _ _ _ hm := hm
  runningMask _ _ hm := hm
  startReg _ _ _ _ _ hm := hm

theorem halted_execute (i : Nat) (insn : Word) :
    Keeps (Halted : Machine δ → Prop) (fun _ t => Halted t) (execute b i insn) :=
  ((execBlind_halted b).rules i (fun _ _ _ hm => hm) (fun _ _ _ _ hm => hm)
    (fun _ _ _ _ _ hm => hm) (fun _ _ _ _ hm => hm) (fun _ _ _ hm => hm) (fun _ hm => hm)
    (fun _ _ _ hm => hm) (fun _ hm => hm) ((execBlind_halted b).writetlb i fun _ _ hm => hm)
    (fun _ _ _ _ hm => hm)).execute

theorem halted_breakpoint (i : Nat) :
    Keeps (Halted : Machine δ → Prop) (fun _ t => Halted t) (breakpoint b i) := by
  refine Keeps.bind ((halted_blind b).phonyException i) fun _ => ?_
  refine Keeps.bind (Keeps.modify fun _ hm => hm) fun _ => ?_
  exact Keeps.bind (Keeps.modify fun _ _ => rfl) fun _ m hm => hm

theorem halted_fetch (i : Nat) :
    Keeps (Halted : Machine δ → Prop) (fun _ t => Halted t) (fetch b i) := by
  refine keeps_getCpu i fun c => Keeps.bind (FetchBlind.useMap _ _) fun insn => ?_
  refine Keeps.bind (keeps_attempt_posted ((halted_blind b).advancePc i insn)) fun _ => ?_
  refine Keeps.ite (fun _ => ?_) fun _ => Keeps.pure _
  refine Keeps.bind (fun m hm => hm) fun _ => Keeps.bind Keeps.get fun t => ?_
  refine keeps_getCpu i fun c => Keeps.ite (fun _ => ?_) fun _ => Keeps.pure _
  exact Keeps.bind (halted_breakpoint b i) fun _ => Keeps.pure _

theorem halted_issue (i : Nat) :
    Keeps (Halted : Machine δ → Prop) (fun _ t => Halted t) (issue b i) := by
  refine keeps_getCpu i fun c => Keeps.ite (fun _ => ?_) fun _ => ?_
  · exact Keeps.bind (fun m hm => hm) fun _ => Keeps.pure _
  · refine Keeps.bind ((halted_blind b).startCycle i) fun _ => ?_
    exact Keeps.bind (fun m hm => hm) fun _ => halted_fetch b i

theorem halted_complete (i : Nat) (insn : Word) :
    Keeps (Halted : Machine δ → Prop) (fun _ _ => True) (complete b i insn) := by
  have hInsn : Keeps (Halted : Machine δ → Prop) (fun _ _ => True)
      (attempt (execute b i insn)) := by
    intro m hm
    rw [after_attempt]
    refine (halted_execute b i insn m hm).mono (fun _ _ ht => ht) fun e t ht => ?_
    cases e with
    | exception => exact ht
    | smoke | undefined => trivial
  refine keeps_getCpu i fun c => Keeps.bind hInsn fun _ => ?_
  refine Keeps.bind (fun m hm => hm) fun _ => keeps_getCpu i fun c => ?_
  exact Keeps.ite (fun _ => Keeps.modify fun _ hm => hm) fun _ => Keeps.pure _

theorem halted_cpuTurn (i : Nat) :
    Keeps (Halted : Machine δ → Prop) (fun _ _ => True) (cpuTurn b i) := by
  refine Keeps.bind ((halted_issue b i).error fun _ _ _ => trivial) fun issued => ?_
  cases issued with
  | insn insn => exact Keeps.bind (halted_complete b i insn) fun _ => Keeps.pure _
  | idle | fault | breakpoint => exact Keeps.pure _

/-- A cycle does not let a stopped machine go on. -/
theorem halted_cpuCycle : Keeps (Halted : Machine δ → Prop) (fun _ _ => True) (cpuCycle b) :=
  Keeps.bind (Keeps.mapM fun i _ => halted_cpuTurn b i) fun _ => Keeps.pure _

/-- `onecycle`; whether the cycle is billed is told to `clock_ticks`. -/
def onecycle (clockTicks : Bool → M δ Unit) : M δ Unit := do
  clockTicks (← cpuCycle b)

theorem halted_onecycle {clockTicks : Bool → M δ Unit}
    (hTicks : ∀ billed, Keeps Halted (fun _ _ => True) (clockTicks billed)) :
    Keeps Halted (fun _ _ => True) (onecycle b clockTicks) :=
  Keeps.bind (halted_cpuCycle b) hTicks

end Sys161.Mips
