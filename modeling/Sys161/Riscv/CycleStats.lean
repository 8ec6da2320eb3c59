import Sys161.Main.CycleLedger
import Sys161.Riscv.Blind
import Sys161.Riscv.Csrs

/-!
# What a turn counts

As on the other core. An interrupt is taken before the mode is read, and an
instruction that ends in a trap clears the way for none that retires. At the end
there is a loop that can be followed until the counters go around.
-/

namespace Sys161.Riscv

open Exec Main Runs Scripts
open Mips (Board PercpuStats)

set_option autoImplicit false

variable {δ : Type} {b : Board δ} {i : Nat} {m : Machine δ}

/-- The cpus have the numbers they are known by. -/
def Numbered (m : Machine δ) : Prop := ∀ j, (m.mycpus j).cpunum = j

def StatsAre (sp : Nat → PercpuStats) (m : Machine δ) : Prop := m.sPercpu = sp ∧ Numbered m

section Keep

variable {sp : Nat → PercpuStats}

theorem StatsAre.modCpu (h : StatsAre sp m) (k : Nat) {f : Riscvcpu → Riscvcpu}
    (hf : ∀ c, (f c).cpunum = c.cpunum) : StatsAre sp (m.modCpu k f) := by
  refine ⟨h.1, fun j => ?_⟩
  rw [mycpus_modCpu]
  split
  · next hj => rw [hf, h.2, hj]
  · exact h.2 j

theorem execBlind_stats : ExecBlind (StatsAre (δ := δ) sp) where
  bus m t ht hm := by
    refine ⟨ht.stats.trans hm.1, fun j => ?_⟩
    rw [ht.congr Riscvcpu.cpunum (fun _ => rfl) j]
    exact hm.2 j
  own k f _ hf hm := hm.modCpu k fun c => congrArg (fun g => g.2.2) (hf c)
  enabled _ _ _ hm := hm
  start k _ _ _ hm := hm.modCpu k fun _ => rfl
  ram _ _ _ hm := hm
  ready _ _ hm := hm

theorem setX_cpunum (c : Riscvcpu) (rd : Reg) (val : Word) : (c.setX rd val).cpunum = c.cpunum := by
  unfold Riscvcpu.setX
  split <;> rfl

theorem StatsAre.csr (hm : StatsAre sp m) {op : Csrop} {rd rs1 : Reg} {num : Word} {c : Riscvcpu}
    (hRun : op.run (m.mycpus i) rd rs1 num = some c) : StatsAre sp (m.setCpu i c) := by
  have hNum : c.cpunum = i := by
    apply Csrop.run_induct _ _ (hm.2 i) hRun
    · exact fun rd val c hc => (setX_cpunum c rd val).trans hc
    · exact fun csr val c c' hc hWrite => (c.csrwrite_kept val hWrite).2.2.2.trans hc
  refine ⟨hm.1, fun j => ?_⟩
  by_cases hj : j = i
  · subst hj
    rw [Machine.setCpu_mycpus_self]
    exact hNum
  · rw [Machine.setCpu_mycpus_ne m _ hj]
    exact hm.2 j

theorem sfenceVma_stats :
    Keeps (StatsAre (δ := δ) sp) (fun _ => StatsAre sp) (rxDoSfenceVma b i) := by
  unfold rxDoSfenceVma reloadPagetables
  apply Keeps.bind
  · apply keeps_getCpu i
    intro c
    apply Keeps.bind
    · exact Keeps.modify fun _ hm => hm.modCpu i fun _ => rfl
    · exact fun _ => Keeps.ite (fun _ => Keeps.throw fun _ hm => hm) fun _ => Keeps.pure _
  · exact fun _ => Keeps.modify fun _ hm => hm.modCpu i fun _ => rfl

theorem execute_stats (is : Issue) :
    Keeps (StatsAre (δ := δ) sp) (fun _ _ => True) (execute b i is) := by
  apply execBlind_stats.execute i
  intro insn len hWell m hm
  have hBlind : ExecBlind (StatsAre (δ := δ) sp) := execBlind_stats
  have hRules := hBlind.rules i insn
    (fun rd val m hm => hm.modCpu i fun c => setX_cpunum c rd val)
    (fun op rd rs1 num c m hm hRun => hm.csr hRun) (sfenceVma_stats (b := b))
  exact hRules.exec hWell hm (writes_true i m insn)

theorem StatsAre.countStats (h : StatsAre sp m) (i : Nat) (f : PercpuStats → PercpuStats) :
    StatsAre (Function.update sp i (f (sp i))) (m.countStats i f) := by
  refine ⟨?_, h.2⟩
  unfold Machine.countStats
  rw [h.2 i, h.1]

end Keep

/-! ## The mode of the cycle -/

section Mode

variable {u : Bool}

theorem precomputePc_super :
    Keeps (fun m : Machine δ => (m.mycpus i).super = u) (fun _ m => (m.mycpus i).super = u)
      (precomputePc b i) := by
  have hModCpu : ∀ (f : Riscvcpu → Riscvcpu), (∀ c, (f c).super = c.super) →
      Keeps (fun m : Machine δ => (m.mycpus i).super = u) (fun _ m => (m.mycpus i).super = u)
        (modCpu i f) := by
    intro f hf
    apply Keeps.modify
    intro m hm
    rw [Machine.modCpu_mycpus_self, hf]
    exact hm
  have hFill : FillBlind i fun m : Machine δ => (m.mycpus i).super = u := by
    intro vaddr leaf m hm
    rw [Machine.modCpu_mycpus_self]
    unfold Riscvcpu.fill
    split <;> exact hm
  have hBus : BusBlind fun m : Machine δ => (m.mycpus i).super = u := by
    intro m t ht hm
    rw [ht.congr Riscvcpu.super (fun _ => rfl) i]
    exact hm
  unfold precomputePc
  apply keeps_getCpu i
  intro c
  apply Keeps.bind ((keeps_translatemem b i hBus hFill _ _).error fun _ _ he => he.1)
  intro physpc
  apply Keeps.bind
  · exact hModCpu _ fun _ => rfl
  · intro _
    apply Keeps.ite
    · exact fun _ => Keeps.throw fun _ hm => hm
    · exact fun _ => hModCpu _ fun _ => rfl

/-- Without a fault a fetch does not change the mode. -/
theorem fetch_super (m : Machine δ) (hm : (m.mycpus i).super = u) :
    After (fetch b i) (fun is t => is ≠ .fault → (t.mycpus i).super = u) (fun _ _ => True) m := by
  have hMod : ∀ (f : Riscvcpu → Riscvcpu) (t : Machine δ), (∀ c, (f c).super = c.super) →
      (t.mycpus i).super = u → ((t.modCpu i f).mycpus i).super = u := by
    intro f t hf ht
    rw [Machine.modCpu_mycpus_self, hf]
    exact ht
  have hSecond : After (fetchSecond b i)
      (fun second t => second ≠ none → (t.mycpus i).super = u) (fun _ _ => True) m := by
    unfold fetchSecond
    rw [after_bind, after_getCpu]
    dsimp only
    rw [after_ite]
    split
    · rw [after_bind, after_modCpu, after_bind, after_attempt]
      refine (precomputePc_super (u := u) _ ?_).mono ?_ ?_
      · exact hMod _ m (fun _ => rfl) hm
      · intro _ t ht
        simp only [if_true]
        rw [after_bind, after_getCpu, after_bind]
        exact after_useMap fun _ _ => hMod _ t (fun _ => rfl) ht
      · intro e t _
        cases e with
        | trap tr => exact after_of_forall (fun _ _ hNone => absurd rfl hNone) fun _ _ => trivial
        | crashdie | smoke | undefined => trivial
    · rw [after_bind]
      exact after_useMap fun _ _ => hm
  unfold fetch
  rw [after_bind, after_getCpu, after_bind]
  refine after_useMap fun word => ?_
  dsimp only
  generalize (if (m.mycpus i).pcoff &&& 0x2 ≠ 0 then word >>> 16 else word) = insn
  rw [after_ite]
  split
  · exact fun _ => hMod _ m (fun _ => rfl) hm
  · rw [after_ite]
    split
    · exact fun _ => hm
    · rw [after_ite]
      split
      · rw [after_bind]
        refine hSecond.mono (fun second t ht => ?_) fun _ _ _ => trivial
        cases second with
        | none => exact fun hFault => absurd rfl hFault
        | some insn2 => exact fun _ => hMod _ t (fun _ => rfl) (ht nofun)
      · exact fun _ => hMod _ m (fun _ => rfl) hm

end Mode

/-! ## The turn -/

/-- The instruction is executed, and retires in the mode of the cycle or does not. -/
theorem complete_stats {sp : Nat → PercpuStats} {u : Bool} (is : Issue) (hm : StatsAre sp m)
    (hMode : (m.mycpus i).super = !u) :
    After (complete b i is)
      (fun _ t => StatsAre sp t ∨ StatsAre (Function.update sp i ((sp i).retired u)) t)
      (fun _ _ => True) m := by
  have hUser : (!(m.mycpus i).super) = u := by rw [hMode, Bool.not_not]
  unfold complete
  rw [after_bind, after_getCpu, after_bind, hUser]
  refine (execute_stats is m hm).mono (fun stopped t ht => ?_) fun _ _ _ => trivial
  rw [after_bind]
  refine (execBlind_stats.updatePc i t ht).mono (fun found v hv => ?_) fun _ _ _ => trivial
  cases found with
  | false => exact Or.inl hv
  | true =>
    have hTick : StatsAre sp (v.modCpu i Riscvcpu.tick) := hv.modCpu i fun _ => rfl
    simp only [if_true]
    unfold retire
    rw [after_bind, after_modCpu, after_bind, after_bind, after_getCpu, after_ite]
    split
    · exact Or.inr (hTick.countStats i _)
    · exact Or.inl hTick

/-- A turn counts one cycle of its cpu. -/
theorem cpuTurn_counted (i : Nat) (m : Machine δ) (hm : Numbered m) :
    After (cpuTurn b i)
      (fun _ t => Numbered t ∧ TurnCounted i m.sPercpu t.sPercpu) (fun _ _ => True) m := by
  have hDone : ∀ counts (t : Machine δ), CycleCounted (m.sPercpu i) counts →
      StatsAre (Function.update m.sPercpu i counts) t →
      Numbered t ∧ TurnCounted i m.sPercpu t.sPercpu := by
    intro counts t hCounted ht
    rw [ht.1]
    exact ⟨ht.2, turnCounted_update hCounted⟩
  have hStart : StatsAre m.sPercpu m := ⟨rfl, hm⟩
  have hInterrupt : Keeps (StatsAre m.sPercpu) (fun _ => StatsAre m.sPercpu)
      (takeInterrupt b i) := by
    apply keeps_getCpu i
    intro c
    cases c.pendingIrq with
    | none => exact Keeps.pure _
    | some irq => exact execBlind_stats.trap i _
  unfold cpuTurn issue
  rw [after_bind, after_bind, after_getCpu, after_ite]
  split
  · exact hDone _ _ .idle (hStart.countStats i _)
  · rw [after_bind]
    refine (hInterrupt m hStart).mono (fun _ s hs => ?_) fun _ _ _ => trivial
    unfold countCycle
    rw [after_bind, after_modify, after_bind, after_modCpu]
    have hCycle := (hs.countStats i (PercpuStats.cycle !(s.mycpus i).super)).modCpu i
      (f := fun c => { c with trapped := false, hitBreakpoint := false }) fun _ => rfl
    have hMode : (((s.countStats i (PercpuStats.cycle !(s.mycpus i).super)).modCpu i fun c =>
        { c with trapped := false, hitBreakpoint := false }).mycpus i).super =
        !!(s.mycpus i).super := by
      rw [Machine.modCpu_mycpus_self, Bool.not_not]
      rfl
    refine ((execBlind_stats.fetch i _ hCycle).and (fetch_super _ hMode)).mono
      (fun is t ht => ?_) fun _ _ _ => trivial
    obtain ⟨hStats, hSuper⟩ := ht
    have hComplete : is ≠ .fault → After (complete b i is)
        (fun _ t => Numbered t ∧ TurnCounted i m.sPercpu t.sPercpu) (fun _ _ => True) t := by
      intro hFault
      refine (complete_stats is hStats (hSuper hFault)).mono (fun _ v hv => ?_) fun _ _ _ => trivial
      rcases hv with hStays | hRetired
      · exact hDone _ _ (.cycle _) hStays
      · rw [Function.update_self, Function.update_idem] at hRetired
        exact hDone _ _ (.retired _) hRetired
    cases is with
    | idle | fault => exact hDone _ _ (.cycle _) hStats
    | short insn | long insn | tooLong insn => exact hComplete nofun

/-! ## Calls -/

/-- The core with its runs, where calls take the place of turns. -/
def core (b : Board δ) : Core Stop (Machine δ) (Act δ) where
  ncpus := b.ncpus
  sPercpu := Machine.sPercpu
  cpuCycle := cpuCycle b
  valid a := a.Valid b ∧ ∀ i, a ≠ .turn i
  exec a := a.exec b

theorem lawful_core : (core b).Lawful Numbered := by
  apply Core.lawful_of_turns rfl
  · exact fun i m hm => cpuTurn_counted i m hm
  · intro m a t hm hValid hRun
    have hStats : StatsAre m.sPercpu t := execBlind_stats.step ⟨rfl, hm⟩ ⟨hValid.1, hRun⟩
      fun i ha => absurd ha (hValid.2 i)
    exact ⟨hStats.2, hStats.1⟩

/-! ## A jump to itself -/

section Spin

/-- A cpu in the kernel with interrupts off, in the first page of memory. -/
structure AtJump (c : Riscvcpu) : Prop where
  state : c.state = .running
  cpunum : c.cpunum = 0
  super : c.super = true
  statusSie : c.statusSie = false
  mmuEnable : c.mmuEnable = false
  pc : c.pc = 0xc0000010
  pcoff : c.pcoff = 0x10
  pcpage : c.pcpage = some (.ram 0)

instance (c : Riscvcpu) : Decidable (AtJump c) :=
  decidable_of_iff ((c.state = .running ∧ c.cpunum = 0 ∧ c.super = true) ∧
      (c.statusSie = false ∧ c.mmuEnable = false) ∧
      c.pc = 0xc0000010 ∧ c.pcoff = 0x10 ∧ c.pcpage = some (.ram 0))
    ⟨fun h => ⟨h.1.1, h.1.2.1, h.1.2.2, h.2.1.1, h.2.1.2, h.2.2.1, h.2.2.2.1, h.2.2.2.2⟩, fun h =>
      ⟨⟨h.state, h.cpunum, h.super⟩, ⟨h.statusSie, h.mmuEnable⟩, h.pc, h.pcoff, h.pcpage⟩⟩

/-- The instruction there is `jal x0, 0`. -/
structure Spinning (counts : PercpuStats) (m : Machine Unit) : Prop where
  cpu : AtJump (m.mycpus 0)
  jump : m.ram 4 = 0x0000006f
  stats : m.sPercpu 0 = counts

/-- In the middle of a turn, which has not trapped. -/
structure Retiring (counts : PercpuStats) (m : Machine Unit) : Prop extends Spinning counts m where
  trapped : (m.mycpus 0).trapped = false

/-- The jump has been taken. -/
structure Landed (counts : PercpuStats) (m : Machine Unit) : Prop extends Retiring counts m where
  nextpc : (m.mycpus 0).nextpc = 0xc0000010
  nextpcoff : (m.mycpus 0).nextpcoff = 0x10

variable {counts : PercpuStats} {m : Machine Unit}

theorem Retiring.fetch (h : Retiring counts m) :
    After (fetch bareBoard 0) (fun is t => is = .long 0x6f ∧ Retiring counts t)
      (fun _ _ => False) m := by
  have hWord : busUseMap m.ram (.ram 0) (0x10 &&& 0xfffffffc) = 0x6f := h.jump
  have hInsn : (if (0x10 : Word) &&& 0x2 ≠ 0 then (0x6f : Word) >>> 16 else 0x6f) = 0x6f := by
    decide
  unfold Riscv.fetch useMap
  rw [after_bind, after_getCpu, h.cpu.pcoff, h.cpu.pcpage, after_bind]
  dsimp only
  rw [after_ite, if_neg (by decide), after_bind, after_get, after_pure, hWord, hInsn,
    if_neg (by decide), if_neg (by decide), if_neg (by decide), after_bind, after_modCpu]
  exact ⟨rfl, { h with cpu := { h.cpu with } }⟩

theorem precomputePc_atJump (hMmu : (m.mycpus 0).mmuEnable = false)
    (hPc : (m.mycpus 0).pc = 0xc0000010) :
    After (precomputePc bareBoard 0)
      (fun _ t => t = (m.modCpu 0 fun c => { c with pcpage := some (.ram 0) }).modCpu 0 fun c =>
        { c with pcoff := 0x10, nextpcoff := 0x10 }) (fun _ _ => False) m := by
  have hMap : mapmem bareBoard 0xc0000010 = some (.ram 0) := by decide
  unfold precomputePc translatemem
  rw [after_bind, after_getCpu, hPc, after_bind, after_ite, if_neg (by decide), after_bind,
    after_getCpu, after_ite, if_pos hMmu, after_pure, hMap, after_bind, after_modCpu, after_ite,
    if_neg (by simp), after_modCpu]
  rfl

theorem Retiring.execute (h : Retiring counts m) :
    After (execute bareBoard 0 (.long 0x6f)) (fun _ t => Landed counts t) (fun _ _ => False) m := by
  have hDecode : decode32 0x6f = .jal 0 0 := by decide
  have hDest : (0xc0000010 + 0 : Word) &&& 0xfffffffe = 0xc0000010 := by decide
  unfold Riscv.execute
  rw [after_trapping]
  dsimp only
  unfold insn32 Insn.exec
  rw [hDecode]
  dsimp only
  unfold rxDoJal rxJump
  rw [after_bind, after_getCpu, after_bind, after_bind, after_getCpu, h.cpu.pc, hDest, after_bind,
    after_bind, after_getCpu, after_ite, if_neg (by simp), after_bind, after_modCpu]
  refine (precomputePc_atJump ?_ ?_).mono ?_ fun _ _ he => he.elim
  · exact h.cpu.mmuEnable
  · rfl
  · rintro _ t rfl
    exact { h with
      cpu := { h.cpu with pc := rfl, pcoff := rfl, pcpage := rfl }
      nextpc := rfl, nextpcoff := rfl }

theorem Landed.updatePc (h : Landed counts m) :
    After (updatePc bareBoard 0) (fun found t => found = true ∧ Retiring counts t)
      (fun _ _ => False) m := by
  unfold Riscv.updatePc
  rw [after_bind, after_modCpu, after_bind, after_getCpu, Machine.modCpu_mycpus_self, h.nextpc]
  dsimp only
  rw [after_ite, if_neg (by decide), after_bind, after_modCpu, after_pure]
  exact ⟨rfl, { h with cpu := { h.cpu with pc := h.nextpc, pcoff := h.nextpcoff } }⟩

theorem Spinning.counted (h : Spinning counts m) (f : PercpuStats → PercpuStats) :
    Spinning (f counts) (m.countStats 0 f) := by
  refine ⟨h.cpu, h.jump, ?_⟩
  unfold Machine.countStats
  dsimp only
  rw [h.cpu.cpunum, Function.update_self, h.stats]

/-- Every turn is a cycle in the kernel with an instruction that retires. -/
theorem Spinning.cpuTurn (h : Spinning counts m) :
    After (cpuTurn bareBoard 0) (fun _ t => Spinning ((counts.cycle false).retired false) t)
      (fun _ _ => False) m := by
  have hIrq : (m.mycpus 0).pendingIrq = none := by
    unfold Riscvcpu.pendingIrq
    rw [if_pos h.cpu.statusSie]
  unfold Riscv.cpuTurn issue takeInterrupt
  rw [after_bind, after_bind, after_getCpu, after_ite, if_neg (not_not.mpr h.cpu.state), after_bind,
    after_bind, after_getCpu, hIrq]
  dsimp only
  unfold countCycle
  rw [after_pure, after_bind, after_modify, after_bind, after_modCpu, h.cpu.super, Bool.not_true]
  have hCycle := h.counted (PercpuStats.cycle false)
  have hBegun : Retiring (counts.cycle false) ((m.countStats 0 (PercpuStats.cycle false)).modCpu 0
      fun c => { c with trapped := false, hitBreakpoint := false }) :=
    { hCycle with cpu := { hCycle.cpu with }, trapped := rfl }
  refine hBegun.fetch.mono ?_ fun _ _ he => he
  rintro _ t ⟨rfl, ht⟩
  dsimp only
  unfold complete
  rw [after_bind, after_getCpu, ht.cpu.super, after_bind]
  refine ht.execute.mono (fun _ u hu => ?_) fun _ _ he => he
  rw [after_bind]
  refine hu.updatePc.mono ?_ fun _ _ he => he
  rintro _ v ⟨rfl, hv⟩
  have hTick : Retiring (counts.cycle false) (v.modCpu 0 Riscvcpu.tick) :=
    { hv with cpu := { hv.cpu with } }
  simp only [if_true]
  unfold retire
  rw [after_bind, after_modCpu, after_bind, after_bind, after_getCpu, after_ite,
    if_pos hTick.trapped]
  exact hTick.counted _

theorem Spinning.call (h : Spinning counts m) :
    ∃ t, (core bareBoard).Step m none t ∧ Spinning ((counts.cycle false).retired false) t := by
  have hCall : After ((core bareBoard).perform none)
      (fun _ t => Spinning ((counts.cycle false).retired false) t) (fun _ _ => False) m := by
    have hOne : List.range bareBoard.ncpus = [0] := rfl
    change After (cpuCycle bareBoard >>= fun _ => pure ()) _ _ m
    unfold cpuCycle
    rw [hOne, List.mapM_cons, List.mapM_nil]
    simp only [after_bind]
    exact h.cpuTurn
  obtain ⟨⟨⟩, t, hRun, hSpinning⟩ := exists_of_after hCall
  refine ⟨t, ⟨?_, hRun⟩, hSpinning⟩
  simp

/-- The counts in the loop. One of the cycles before it was a trap. -/
def spun (n : Nat) : PercpuStats := ⟨0, BitVec.ofNat 64 (n + 4), 0, 0, BitVec.ofNat 64 (n + 3)⟩

theorem spun_succ (n : Nat) : ((spun n).cycle false).retired false = spun (n + 1) := by
  have hKcycles : BitVec.ofNat 64 (n + 4) + 1 = BitVec.ofNat 64 (n + 1 + 4) := by
    rw [ofNat_succ, Nat.add_right_comm]
  have hKretired : BitVec.ofNat 64 (n + 3) + 1 = BitVec.ofNat 64 (n + 1 + 3) := by
    rw [ofNat_succ, Nat.add_right_comm]
  unfold spun
  rw [← hKcycles, ← hKretired]
  rfl

theorem Spinning.calls {k : Nat} (h : Spinning (spun k) m) (n : Nat) :
    ∃ p t, Path (core bareBoard).Step m p t ∧ Main.calls p = n ∧ Spinning (spun (k + n)) t := by
  induction n generalizing m k with
  | zero => exact ⟨[], m, .nil m, rfl, h⟩
  | succ n ih =>
    obtain ⟨t, hStep, hNext⟩ := h.call
    rw [spun_succ] at hNext
    obtain ⟨p, u, hPath, hCalls, hEnd⟩ := ih hNext
    refine ⟨(none, t) :: p, u, .cons hStep hPath, ?_, ?_⟩
    · rw [← hCalls]
      simp [Main.calls]
    · rwa [Nat.add_right_comm] at hEnd

/-- `auipc x5, 0`, `addi x5, x5, 16`, `csrrw x0, stvec, x5`, `ecall` and the jump, where the trap
leads. -/
def untilLoop : List (Option (Act Unit)) :=
  [some (.poke 0 0x00000297), some (.poke 1 0x01028293), some (.poke 2 0x10529073),
    some (.poke 3 0x00000073), some (.poke 4 0x0000006f), some (.setEntrypoint 0 0xc0000000),
    none, none, none, none]

theorem exists_spinning : ∃ p m, Path (core bareBoard).Step (machineInit () true) p m ∧
    Main.calls p = 4 ∧ Spinning (spun 0) m := by
  have hSeen : yields (runAll (core bareBoard).perform untilLoop)
      (fun _ m => (decide (AtJump (m.mycpus 0)), m.ram 4, m.sPercpu 0)) (machineInit () true) =
      some (true, 0x6f, spun 0) := by decide +kernel
  have hValid : ∀ a ∈ untilLoop, ∀ a' ∈ a, (core bareBoard).valid a' := by
    simp [untilLoop, core, Act.Valid, bareBoard, Mips.bareBoard]
  obtain ⟨p, m, hPath, hActs, hEnd⟩ := path_of_seen hSeen hValid
  simp only [Prod.mk.injEq, decide_eq_true_eq] at hEnd
  refine ⟨p, m, hPath, ?_, ⟨hEnd.1, hEnd.2.1, hEnd.2.2⟩⟩
  rw [calls_eq, hActs]
  rfl

end Spin

end Sys161.Riscv
