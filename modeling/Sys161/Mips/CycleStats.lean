import Sys161.Main.CycleLedger
import Sys161.Mips.Isolation

/-!
# What a turn counts

The kernel, user and idle cycles of a cpu and the instructions it has retired.
Only the start and the end of its own turn count; the mode is read at the start,
and nothing between there and the instruction changes it.
-/

namespace Sys161.Mips

open Exec Main Runs

set_option autoImplicit false

variable {δ : Type} {b : Board δ} {i : Nat} {m : Machine δ}

/-- The cpus have the numbers they are known by. -/
def Numbered (m : Machine δ) : Prop := ∀ j, (m.mycpus j).cpunum = j

def StatsAre (sp : Nat → PercpuStats) (m : Machine δ) : Prop := m.sPercpu = sp ∧ Numbered m

section Keep

variable {sp : Nat → PercpuStats}

theorem StatsAre.modCpu (h : StatsAre sp m) (k : Nat) {f : Mipscpu → Mipscpu}
    (hf : ∀ c, (f c).cpunum = c.cpunum) : StatsAre sp (m.modCpu k f) := by
  refine ⟨h.1, fun j => ?_⟩
  by_cases hj : j = k
  · subst hj
    rw [Machine.modCpu_mycpus_self, hf, h.2]
  · rw [Machine.modCpu_mycpus_ne m f hj, h.2]

theorem execBlind_stats : ExecBlind b (StatsAre (δ := δ) sp) where
  fetchState j _ _ hm := hm.modCpu j fun _ => rfl
  exception j _ _ hm := hm.modCpu j fun _ => rfl
  vpn j _ _ hm := hm.modCpu j fun _ => rfl
  hang _ _ hm := hm
  devices _ _ hm := hm
  raised _ _ hm := hm
  enabled _ _ hm := hm
  lamebusCpu _ _ _ hm := hm
  irqLines j _ _ hm := hm.modCpu j fun _ => rfl
  state j _ _ hm := hm.modCpu j fun _ => rfl
  runningMask _ _ hm := hm
  startReg j _ _ _ _ hm := hm.modCpu j fun _ => rfl

theorem stopBlind_stats : StopBlind b (StatsAre (δ := δ) sp) where
  toFetchBlind := execBlind_stats.toFetchBlind
  debugger _ _ _ _ hm := hm
  hitBreakpoint j _ _ hm := hm.modCpu j fun _ => rfl
  uncount j _ hm := hm.modCpu j fun _ => rfl

theorem execute_stats (insn : Word) :
    Keeps (StatsAre (δ := δ) sp) (fun _ => StatsAre sp) (execute b i insn) := by
  have hBlind : ExecBlind b (StatsAre (δ := δ) sp) := execBlind_stats
  refine (hBlind.rules i (fun _ _ _ hm => hm) (fun _ _ _ _ hm => hm.modCpu i fun _ => rfl)
    (fun _ _ _ _ _ hm => hm.modCpu i fun _ => rfl) (fun _ _ _ _ hm => hm.modCpu i fun _ => rfl)
    (fun c0 _ _ hm => hm.modCpu i fun _ => ?_) (fun _ hm => hm.modCpu i fun _ => rfl)
    (fun _ _ _ hm => hm.modCpu i fun _ => rfl) (fun _ hm => hm.modCpu i fun _ => rfl)
    (hBlind.writetlb i fun _ _ hm => hm.modCpu i fun _ => rfl)
    (fun _ _ _ _ hm => hm.modCpu i fun _ => rfl)).execute
  cases c0 <;> rfl

theorem ownBlind_usermode (u : Bool) :
    OwnBlind i fun m : Machine δ => (m.mycpus i).currentUsermode = u where
  cpu c m hc hm := by
    rw [Machine.setCpu_mycpus_self]
    exact (congrArg (fun g => g.2.1.currentUsermode) hc).trans hm
  stats _ _ hm := hm
  debugger _ _ _ _ hm := hm

theorem StatsAre.countStats (h : StatsAre sp m) (i : Nat) (f : PercpuStats → PercpuStats) :
    StatsAre (Function.update sp i (f (sp i))) (m.countStats i f) := by
  refine ⟨?_, h.2⟩
  unfold Machine.countStats
  rw [h.2 i, h.1]

end Keep

/-- The instruction is executed, and retires in the mode of the cycle or does not. -/
theorem complete_stats {sp : Nat → PercpuStats} {u : Bool} (insn : Word) (hm : StatsAre sp m)
    (hMode : (m.mycpus i).currentUsermode = u) :
    After (complete b i insn)
      (fun _ t => StatsAre sp t ∨ StatsAre (Function.update sp i ((sp i).retired u)) t)
      (fun _ _ => True) m := by
  unfold complete
  rw [after_bind, after_getCpu, after_bind, after_attempt]
  have hRest : ∀ t, StatsAre sp t → After (do
      Mips.modCpu i Mipscpu.tick
      Mips.retire i (m.mycpus i).pc (m.mycpus i).currentUsermode : M δ Unit)
      (fun _ t => StatsAre sp t ∨ StatsAre (Function.update sp i ((sp i).retired u)) t)
      (fun _ _ => True) t := by
    intro t ht
    have hTick : StatsAre sp (t.modCpu i Mipscpu.tick) := ht.modCpu i fun _ => rfl
    unfold retire
    rw [after_bind, after_modCpu, after_bind, after_getCpu, after_ite, hMode]
    split
    · exact Or.inr (hTick.countStats i _)
    · exact Or.inl hTick
  refine (execute_stats insn m hm).mono (fun _ t ht => hRest t ht) fun e t ht => ?_
  cases e with
  | exception => exact hRest t ht
  | smoke | undefined => trivial

/-- A turn counts one cycle of its cpu. -/
theorem cpuTurn_counted (i : Nat) (m : Machine δ) (hm : Numbered m) :
    After (cpuTurn b i)
      (fun _ t => Numbered t ∧ TurnCounted i m.sPercpu t.sPercpu) (fun _ _ => True) m := by
  have hDone : ∀ counts (t : Machine δ), CycleCounted (m.sPercpu i) counts →
      StatsAre (Function.update m.sPercpu i counts) t →
      Numbered t ∧ TurnCounted i m.sPercpu t.sPercpu := by
    intro counts t hCounted ht
    rw [ht.1]
    exact ⟨ht.2, turnCounted_update hCounted⟩
  have hStart : StatsAre m.sPercpu m := ⟨rfl, hm⟩
  unfold cpuTurn issue
  rw [after_bind, after_bind, after_getCpu, after_ite]
  split
  · exact hDone _ _ .idle (hStart.countStats i _)
  · have hBegun := execBlind_stats.startCycle i (b := b) m hStart
    unfold countCycle
    rw [after_bind, after_modCpu, after_bind, after_modify]
    generalize m.modCpu i (fun c => c.startCycle b) = s at hBegun
    have hCycle := hBegun.countStats i (PercpuStats.cycle (s.mycpus i).currentUsermode)
    have hMode : ((s.countStats i (PercpuStats.cycle (s.mycpus i).currentUsermode)).mycpus
        i).currentUsermode = (s.mycpus i).currentUsermode := rfl
    refine ((stopBlind_stats.fetch i _ hCycle).and
      ((ownBlind_usermode _).fetch _ hMode)).mono (fun is t ht => ?_) fun _ _ _ => trivial
    obtain ⟨hStats, hUser⟩ := ht
    cases is with
    | insn insn =>
      dsimp only
      rw [after_bind]
      refine (complete_stats insn hStats (hUser nofun)).mono (fun _ v hv => ?_) fun _ _ _ => trivial
      rcases hv with hStays | hRetired
      · exact hDone _ _ (.cycle _) hStays
      · rw [Function.update_self, Function.update_idem] at hRetired
        exact hDone _ _ (.retired _) hRetired
    | idle | fault | breakpoint => exact hDone _ _ (.cycle _) hStats

/-! ## Calls -/

/-- The core with its runs, where calls take the place of turns. -/
def core (b : Board δ) : Core Stop (Machine δ) (Act δ) where
  ncpus := b.ncpus
  sPercpu := Machine.sPercpu
  cpuCycle := cpuCycle b
  valid a := a.Valid b ∧ ∀ i, a ≠ .turn i
  exec a := a.exec b

theorem lawful_core : (core b).Lawful Numbered := by
  apply Core.lawful_of_turns rfl
  · exact fun i m hm => cpuTurn_counted i m hm
  · intro m a t hm hValid hRun
    have hStats : StatsAre m.sPercpu t := execBlind_stats.step (fun _ _ _ hm => hm)
      (fun _ _ _ _ _ hm => hm) ⟨rfl, hm⟩ (fun i ha => absurd ha (hValid.2 i)) ⟨hValid.1, hRun⟩
    exact ⟨hStats.2, hStats.1⟩

end Sys161.Mips
