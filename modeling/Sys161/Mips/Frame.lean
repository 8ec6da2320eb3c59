import Sys161.Mips.Rules

/-!
# Properties that do not look at the fetch position

Most invariants say nothing of the program counters and their pages, of the
statistics or of the debugger. For these it is enough to look at what an
exception, a register write and the like do; translation, branches and the
course of a cycle follow.
-/

namespace Sys161.Mips

open Exec

set_option autoImplicit false

variable {δ α : Type} (b : Board δ) (i : Nat)

/-- `I` does not look at the fetch position of a cpu, and is kept by exceptions. -/
structure FetchBlind (I : Machine δ → Prop) : Prop where
  fetchState : ∀ i fs m, I m → I (m.modCpu i fun c => { c with toFetchState := fs })
  exception : ∀ i e m, I m → I (m.modCpu i fun c => c.exception b e)
  vpn : ∀ i vpage m, I m → I (m.modCpu i fun c => c.setVpn vpage)

namespace FetchBlind

variable {b} {I : Machine δ → Prop} (h : FetchBlind b I)

include h

theorem modFetch (f : Mipscpu → FetchState) (m : Machine δ) (hm : I m) :
    I (m.modCpu i fun c => { c with toFetchState := f c }) :=
  h.fetchState i (f (m.mycpus i)) m hm

theorem keeps_raise (e : Exn) : Keeps I (Posted I) (raise b i e : M δ α) :=
  fun m hm => ⟨rfl, h.exception i e m hm⟩

theorem translatemem (vaddr : Word) (iswrite : Bool) :
    Keeps I (Posted I) (translatemem b i vaddr iswrite) := by
  refine keeps_getCpu_bind i fun m hm => ?_
  have hTlbentry : I (m.modCpu i fun _ => (translate (m.mycpus i) vaddr iswrite).2) := by
    unfold translate
    split
    · simpa [Machine.modCpu] using hm
    · split
      · simpa [Machine.modCpu] using hm
      · exact h.vpn i (vaddr &&& 0xfffff000) m hm
  rw [after_bind, after_modCpu]
  cases (translate (m.mycpus i) vaddr iswrite).1 with
  | ok paddr => exact hTlbentry
  | error e => exact h.keeps_raise i e _ hTlbentry

theorem precomputePc : Keeps I (Posted I) (precomputePc b i) := by
  refine keeps_getCpu i fun c => Keeps.bind (h.translatemem i _ _) fun physpc => ?_
  refine Keeps.bind (fun m hm => h.modFetch i (fun c => { c.toFetchState with pcpage := _ }) m hm)
    fun _ => ?_
  exact Keeps.ite (fun _ => h.keeps_raise i _) fun _ m hm =>
    h.modFetch i (fun c => { c.toFetchState with pcoff := _ }) m hm

theorem precomputeNextpc : Keeps I (Posted I) (precomputeNextpc b i) := by
  refine keeps_getCpu i fun c => Keeps.bind (h.translatemem i _ _) fun physnext => ?_
  refine Keeps.bind
    (fun m hm => h.modFetch i (fun c => { c.toFetchState with nextpcpage := _ }) m hm) fun _ => ?_
  exact Keeps.ite (fun _ => h.keeps_raise i _) fun _ m hm =>
    h.modFetch i (fun c => { c.toFetchState with nextpcoff := _ }) m hm

theorem precomputeBoth {E : Stop → Machine δ → Prop} : Keeps I E (precomputeBoth b i) :=
  Keeps.bind (keeps_attempt_posted (h.precomputePc i)) fun _ =>
    Keeps.bind (keeps_attempt_posted (h.precomputeNextpc i)) fun _ => Keeps.pure _

omit h in
theorem keeps_of_posted {x : M δ α} (hx : Keeps I (Posted I) x) : Keeps I (fun _ => I) x :=
  hx.error fun _ _ he => he.2

theorem phonyException : Keeps I (fun _ => I) (phonyException b i) := by
  refine Keeps.bind (fun m hm => h.modFetch i (fun c =>
    { c.toFetchState with
      jumping := false, inJumpdelay := false, pc := c.expc, nextpc := c.expc + 4 }) m hm) fun _ => ?_
  have hThrow : ∀ msg, Keeps I (fun _ => I) (throw (.smoke msg) : M δ Unit) :=
    fun _ => Keeps.throw fun _ hm => hm
  refine Keeps.bind (keeps_attempt_posted (h.precomputePc i)) fun _ =>
    Keeps.ite (fun _ => ?_) fun _ => hThrow _
  exact Keeps.bind (keeps_attempt_posted (h.precomputeNextpc i)) fun _ =>
    Keeps.ite (fun _ => Keeps.pure _) fun _ => hThrow _

omit h in
theorem useMap (page : Option Page) (pageoffset : Word) :
    Keeps I (fun _ => I) (useMap page pageoffset : M δ Word) := by
  cases page with
  | none => exact Keeps.throw fun _ hm => hm
  | some page => exact fun m hm => hm

theorem abranch (addr : Word) : Keeps I (fun _ => I) (abranch b i addr) := by
  refine Keeps.ite (fun _ => keeps_of_posted (h.keeps_raise i _)) fun _ => ?_
  refine Keeps.bind (fun m hm =>
    h.modFetch i (fun c => { c.toFetchState with nextpc := addr, jumping := true }) m hm) fun _ => ?_
  refine keeps_getCpu i fun c => Keeps.bind (useMap _ _) fun word => Keeps.ite (fun _ m hm => ?_)
    fun _ => keeps_of_posted (h.precomputeNextpc i)
  exact h.modFetch i (fun c => { c.toFetchState with nextpcpage := none, nextpcoff := 0 }) m hm

theorem updateExpc (m : Machine δ) (hm : I m) : I (m.modCpu i Mipscpu.updateExpc) := by
  have hFetch := h.modFetch i (fun c => c.updateExpc.toFetchState) m hm
  convert hFetch using 2
  funext c
  unfold Mipscpu.updateExpc
  split <;> rfl

theorem startCycle (m : Machine δ) (hm : I m) : I (m.modCpu i fun c => c.startCycle b) := by
  have hStart := h.updateExpc i m hm
  unfold Mipscpu.startCycle
  by_cases hIrq : (m.mycpus i).updateExpc.interrupted = true
  · have hFetch := h.modFetch i (fun c => { c.toFetchState with expc := c.pc }) _
      (h.exception i ⟨.irq, 0, 0⟩ _ hStart)
    simpa [Machine.modCpu, hIrq] using hFetch
  · simpa [Machine.modCpu, hIrq] using hStart

theorem advancePc (insn : Word) : Keeps I (Posted I) (advancePc b i insn) := by
  refine Keeps.bind (fun m hm => h.modFetch i (fun c => c.advance.toFetchState) m hm) fun _ => ?_
  refine keeps_getCpu i fun c => Keeps.ite (fun _ => Keeps.ite (fun _ m hm => ?_) fun _ =>
    h.precomputeNextpc i) fun _ m hm => ?_
  · exact h.modFetch i (fun c => { c.toFetchState with nextpcpage := none, nextpcoff := 0 }) m hm
  · exact h.modFetch i (fun c => { c.toFetchState with nextpcoff := c.nextpcoff + 4 }) m hm

theorem doRfe (hStatus : ∀ m, (m.mycpus i).currentUsermode = false → I m →
      I (m.modCpu i fun c =>
        { c with
          currentUsermode := c.prevUsermode, currentIrqon := c.prevIrqon
          prevUsermode := c.oldUsermode, prevIrqon := c.oldIrqon }))
    (m : Machine δ) (hUser : (m.mycpus i).currentUsermode = false) (hm : I m) :
    After (doRfe b i) (fun _ => I) (fun _ => I) m := by
  unfold Mips.doRfe
  rw [after_bind, after_getCpu, if_neg (by simp [hUser]), after_bind, after_modCpu]
  refine h.precomputeBoth i _ ?_
  have hFetch := h.modFetch i (fun c => { c.toFetchState with inJumpdelay := false, expc := c.pc }) _
    (hStatus m hUser hm)
  simpa [Machine.modCpu] using hFetch

section Hang

variable (hHang : ∀ why m, I m → I (m.hung why))

include hHang

omit h in
theorem keeps_hang (why : Hang) : Keeps I (fun _ => I) (Mips.hang why : M δ Unit) := hHang why

omit h in
theorem checkTlbDups (newix : Nat) : Keeps I (fun _ => I) (checkTlbDups i newix : M δ Unit) :=
  keeps_getCpu i fun _ => Keeps.forM fun _ _ =>
    Keeps.ite (fun _ => keeps_hang hHang _) fun _ => Keeps.pure _

omit h in
theorem hangUnless {x : M δ Unit} (hx : Keeps I (Posted I) x) :
    Keeps I (fun _ => I) (hangUnless x) :=
  Keeps.bind (keeps_attempt_posted hx) fun _ =>
    Keeps.ite (fun _ => Keeps.pure _) fun _ => keeps_hang hHang _

theorem cpuSetEntrypoint
    (hReg : ∀ val m, I m → I (m.modCpu i fun c => { c with r := Function.update c.r 25 val }))
    (addr : Word) : Keeps I (fun _ => I) (cpuSetEntrypoint b i addr) := by
  have hRest : Keeps I (fun _ => I) (do
      let addr := addr &&& 0xfffffffc
      Mips.modCpu i fun c =>
        { c with r := Function.update c.r 25 addr, expc := addr, pc := addr, nextpc := addr + 4 }
      Mips.hangUnless (Mips.precomputePc b i)
      Mips.hangUnless (Mips.precomputeNextpc b i)) := by
    refine Keeps.bind (fun m hm => ?_) fun _ => Keeps.bind (hangUnless hHang (h.precomputePc i))
      fun _ => hangUnless hHang (h.precomputeNextpc i)
    have hFetch := h.modFetch i (fun c =>
      { c.toFetchState with
        expc := addr &&& 0xfffffffc, pc := addr &&& 0xfffffffc
        nextpc := (addr &&& 0xfffffffc) + 4 }) _ (hReg (addr &&& 0xfffffffc) m hm)
    simpa [Machine.modCpu] using hFetch
  exact Keeps.ite (fun _ => Keeps.bind (keeps_hang hHang _) fun _ => hRest) fun _ => hRest

end Hang

end FetchBlind

/-- `I` does not look at the debugger either, nor at what a breakpoint leaves in a cpu. -/
structure StopBlind (I : Machine δ → Prop) : Prop extends FetchBlind b I where
  debugger : ∀ cycling stopped lethal m, I m →
    I { m with cpuCycling := cycling, stoppedInDebugger := stopped, stopIsLethal := lethal }
  hitBreakpoint : ∀ i hit m, I m → I (m.modCpu i fun c => { c with hitBreakpoint := hit })
  uncount : ∀ i m, I m → I (m.modCpu i fun c => { c with exCount := c.exCount - 1 })

namespace StopBlind

variable {b} {I : Machine δ → Prop} (h : StopBlind b I)

include h

theorem breakpoint : Keeps I (fun _ => I) (breakpoint b i) := by
  refine Keeps.bind (h.phonyException i) fun _ => Keeps.bind (fun m hm => ?_) fun _ =>
    Keeps.bind (fun m hm => ?_) fun _ m hm => ?_
  · exact h.debugger false m.stoppedInDebugger m.stopIsLethal m hm
  · exact h.debugger m.cpuCycling true false m hm
  · have hHit := h.hitBreakpoint i true _ (h.uncount i m hm)
    simpa [Machine.modCpu] using hHit

theorem fetch : Keeps I (fun _ => I) (fetch b i) := by
  refine keeps_getCpu i fun c => Keeps.bind (FetchBlind.useMap _ _) fun insn => ?_
  refine Keeps.bind (keeps_attempt_posted (h.advancePc i insn)) fun _ => ?_
  refine Keeps.ite (fun _ => ?_) fun _ => Keeps.pure _
  refine Keeps.bind (h.hitBreakpoint i false) fun _ => Keeps.bind Keeps.get fun t => ?_
  refine keeps_getCpu i fun c => Keeps.ite (fun _ => ?_) fun _ => Keeps.pure _
  exact Keeps.bind (h.breakpoint i) fun _ => Keeps.pure _

end StopBlind

/-- `I` does not look at the statistics and the course of a cycle either. -/
structure TurnBlind (I : Machine δ → Prop) : Prop extends StopBlind b I where
  stats : ∀ sp m, I m → I { m with sPercpu := sp }
  hang : ∀ why m, I m → I (m.hung why)

namespace TurnBlind

variable {b} {I : Machine δ → Prop} (h : TurnBlind b I)

include h

theorem retire (retirePc : Word) (retireUsermode : Bool) :
    Keeps I (fun _ => I) (retire i retirePc retireUsermode : M δ Unit) :=
  keeps_getCpu i fun _ => Keeps.ite (fun _ m hm => h.stats _ m hm) fun _ => Keeps.pure _

theorem issue : Keeps I (fun _ => I) (issue b i) := by
  refine keeps_getCpu i fun c => Keeps.ite (fun _ => ?_) fun _ => ?_
  · exact Keeps.bind (fun m hm => h.stats _ m hm) fun _ => Keeps.pure _
  · exact Keeps.bind (h.startCycle i) fun _ => Keeps.bind (fun m hm => h.stats _ m hm) fun _ =>
      h.fetch i

/-- A turn keeps `I` if the instruction that it executes and the end of the cycle do. -/
theorem cpuTurn {J : Machine δ → Prop} (hTick : ∀ m, J m → I (m.modCpu i Mipscpu.tick))
    (m : Machine δ) (hm : I m)
    (hExec : ∀ insn t, (Mips.issue b i).run m = .ok (.insn insn) t → I t →
      After (execute b i insn) (fun _ => J) (fun _ => J) t) :
    After (cpuTurn b i) (fun _ => I) (fun _ _ => True) m := by
  unfold Mips.cpuTurn
  rw [after_bind]
  refine (after_run (h.issue i m hm)).mono ?_ fun _ _ _ => trivial
  rintro (_ | _ | _ | insn) t ⟨ht, hIssue⟩
  case insn =>
    have hRest : ∀ retirePc retireUsermode u, J u → After (do
        Mips.modCpu i Mipscpu.tick
        Mips.retire i retirePc retireUsermode : M δ Unit) (fun _ => I) (fun _ _ => True) u := by
      intro retirePc retireUsermode u hu
      rw [after_bind, after_modCpu]
      exact (h.retire i _ _ _ (hTick u hu)).mono (fun _ _ hv => hv) fun _ _ _ => trivial
    have hInsn : After (attempt (execute b i insn)) (fun _ => J) (fun _ _ => True) t := by
      rw [after_attempt]
      refine (hExec insn t hIssue ht).mono (fun _ _ hu => hu) fun e u hu => ?_
      cases e with
      | exception => exact hu
      | smoke | undefined => trivial
    simp only [complete, after_bind, after_getCpu, after_pure]
    refine hInsn.mono (fun _ u hu => ?_) fun _ _ _ => trivial
    simpa only [after_bind] using hRest _ _ u hu
  all_goals exact ht

end TurnBlind

/-! ## Device registers -/

/-- What interrupts change in a cpu is its lines and its state. -/
theorem cpuSetIrqs_mycpus {α : Type} {g : Mipscpu → α}
    (hg : ∀ c lines state, g { c with toIrqLines := lines, state := state } = g c) (m : Machine δ)
    (i : Nat) (lamebus ipi : Bool) (j : Nat) :
    g ((m.cpuSetIrqs i lamebus ipi).mycpus j) = g (m.mycpus j) := by
  have hLines : ∀ state, g { m.mycpus i with irqLamebus := lamebus, irqIpi := ipi, state := state } =
      g (m.mycpus i) := fun state => hg (m.mycpus i) ⟨lamebus, ipi⟩ state
  unfold Machine.cpuSetIrqs
  dsimp only
  by_cases hj : j = i
  · subst hj
    split
    · simpa [Machine.setCpu] using hLines .running
    · simpa [Machine.setCpu] using hLines (m.mycpus j).state
  · split <;> simp [Machine.setCpu, hj]

theorem irqupdate_mycpus {α : Type} {g : Mipscpu → α}
    (hg : ∀ c lines state, g { c with toIrqLines := lines, state := state } = g c) (m : Machine δ)
    (j : Nat) : g ((m.irqupdate b).mycpus j) = g (m.mycpus j) := by
  unfold Machine.irqupdate
  generalize m.busRaisedInterrupts &&& m.busEnabledInterrupts = mask
  induction List.range b.ncpus generalizing m with
  | nil => rfl
  | cons i l ih =>
    rw [List.foldl_cons, ih]
    unfold irqupdateCpu
    dsimp only
    split
    · rw [cpuSetIrqs_mycpus hg]
      rfl
    · rfl

theorem deviceIrq_mycpus {α : Type} {g : Mipscpu → α}
    (hg : ∀ c lines state, g { c with toIrqLines := lines, state := state } = g c) (m : Machine δ)
    (slot : Nat) (raised : Bool) (j : Nat) :
    g ((m.deviceIrq b slot raised).mycpus j) = g (m.mycpus j) := by
  cases raised <;> exact irqupdate_mycpus b hg _ j

/-- The physical address of the register that starts and stops the cpus. -/
def cpueAddr : Word := 0x1fff7e14

/-- `I` is kept by what a register access can come to, that register apart. -/
structure BusKeeps (I : Machine δ → Prop) (E : Stop → Machine δ → Prop) : Prop where
  smoke : ∀ msg m, I m → E (.smoke msg) m
  pastCram : ∀ m, I m → E pastCram m
  hang : ∀ why m, I m → I (m.hung why)
  devices : ∀ d m, I m → I { m with devices := d }
  deviceIrq : ∀ slot raised m, slot < lamebusNslots → I m → I (m.deviceIrq b slot raised)
  cram : ∀ j cram m, I m → I (m.setLamebusCpu j { m.cpus j with cpuCram := cram })
  cirqe : ∀ j val m, j < b.ncpus → I m →
    I ((m.setLamebusCpu j { m.cpus j with cpuEnabledInterrupts := val }).irqupdate b)
  cipi : ∀ j ipi m, j < b.ncpus → I m →
    I ((m.setLamebusCpu j { m.cpus j with cpuIpi := ipi }).cpuSetIrqs j (m.cpus j).cpuInterrupting
      ipi)
  irqe : ∀ val m, I m → I ({ m with busEnabledInterrupts := val }.irqupdate b)

/-- What is asked of each cpu is kept where it is asked of neither the interrupt lines nor the
state. -/
theorem busKeeps_mycpus {α : Type} {g : Mipscpu → α}
    (hg : ∀ c lines state, g { c with toIrqLines := lines, state := state } = g c)
    {K : Nat → α → Prop} {E : Stop → Machine δ → Prop}
    (hSmoke : ∀ msg m, (∀ j, K j (g (m.mycpus j))) → E (.smoke msg) m)
    (hCram : ∀ m, (∀ j, K j (g (m.mycpus j))) → E pastCram m) :
    BusKeeps b (fun m : Machine δ => ∀ j, K j (g (m.mycpus j))) E where
  smoke := hSmoke
  pastCram := hCram
  hang _ _ hm := hm
  devices _ _ hm := hm
  deviceIrq slot raised m _ hm j := by
    rw [deviceIrq_mycpus b hg]
    exact hm j
  cram _ _ _ hm := hm
  cirqe _ _ m _ hm j := by
    rw [irqupdate_mycpus b hg]
    exact hm j
  cipi _ _ m _ hm j := by
    rw [cpuSetIrqs_mycpus hg]
    exact hm j
  irqe _ m hm j := by
    rw [irqupdate_mycpus b hg]
    exact hm j

namespace BusKeeps

variable {b} {I : Machine δ → Prop} {E : Stop → Machine δ → Prop} (h : BusKeeps b I E)

include h

theorem keeps_hang (why : Hang) : Keeps I E (Mips.hang why : M δ Unit) := h.hang why

theorem deviceIrqs {slot : Nat} (hSlot : slot < lamebusNslots) (irqs : List Bool) (m : Machine δ)
    (hm : I m) : I (irqs.foldl (Machine.deviceIrq b slot) m) := by
  induction irqs generalizing m with
  | nil => exact hm
  | cons raised l ih => exact ih _ (h.deviceIrq slot raised m hSlot hm)

theorem reply {slot : Nat} (hSlot : slot < lamebusNslots) (ret : Reply δ α) (m : Machine δ)
    (hm : I m) : I (m.reply b slot ret) := by
  have hDevices := h.devices ret.devices m hm
  refine h.deviceIrqs hSlot ret.irqs _ ?_
  split
  · exact h.hang _ _ hDevices
  · exact hDevices

theorem cramWord (offset : Nat) : Keeps I E (cramWord offset : M δ (BitVec 5)) := by
  exact Keeps.ite (fun _ => Keeps.pure _) fun _ => Keeps.throw h.pastCram

theorem lamebusControllerFetchCpu (offset : Nat) :
    Keeps I E (lamebusControllerFetchCpu b offset) := by
  have hPure : ∀ val, Keeps I E (pure val : M δ (Option Word)) := fun _ => Keeps.pure _
  unfold Mips.lamebusControllerFetchCpu
  refine Keeps.bind Keeps.get fun m => ?_
  dsimp only
  refine Keeps.ite (fun _ => hPure _) fun _ => Keeps.ite (fun _ => ?_) fun _ => ?_
  · exact Keeps.bind (h.cramWord _) fun _ => hPure _
  · split <;> exact hPure _

theorem lamebusControllerFetchConfig (cpunum offset : Nat) :
    Keeps I E (lamebusControllerFetchConfig b cpunum offset) := by
  have hPure : ∀ val, Keeps I E (pure val : M δ (Option Word)) := fun _ => Keeps.pure _
  refine Keeps.bind Keeps.get fun m => ?_
  split
  iterate 3 exact hPure _
  refine Keeps.ite (fun _ => hPure _) fun _ => ?_
  split
  iterate 2 exact hPure _
  · exact Keeps.ite (fun _ => Keeps.bind (h.keeps_hang _) fun _ => hPure _) fun _ => hPure _
  · exact hPure _
  iterate 3 exact Keeps.ite (fun _ => hPure _) fun _ => hPure _
  exact hPure _

theorem lamebusControllerFetch (cpunum offset : Nat) :
    Keeps I E (lamebusControllerFetch b cpunum offset) := by
  unfold Mips.lamebusControllerFetch
  split
  · exact Keeps.ite (fun _ => Keeps.pure _) fun _ => h.lamebusControllerFetchCpu _
  · exact h.lamebusControllerFetchConfig _ _

theorem lamebusControllerStoreCpu (offset : Nat) (val : Word) :
    Keeps I E (lamebusControllerStoreCpu b offset val) := by
  refine Keeps.get_bind fun m hm => ?_
  dsimp only
  split
  · exact hm
  · have hRegion : offset / lamebusConfigSize < b.ncpus := by omega
    split
    · rw [after_bind]
      unfold Mips.cramWord
      split
      · exact h.cram _ _ m hm
      · exact h.pastCram m hm
    · split
      · exact h.cirqe _ val m hRegion hm
      · exact h.cipi _ _ m hRegion hm
      · exact hm

theorem lamebusControllerStoreConfig (offset : Nat) (val : Word)
    (hCpue : offset = 0x7e14 → Keeps I E (setCpue b val)) :
    Keeps I E (lamebusControllerStoreConfig b offset val) := by
  have hPure : ∀ val, Keeps I E (pure val : M δ Bool) := fun _ => Keeps.pure _
  refine Keeps.ite (fun _ => hPure _) fun hRegion => ?_
  split
  · exact Keeps.ite (fun _ => Keeps.bind (h.keeps_hang _) fun _ => hPure _) fun _ => hPure _
  · exact Keeps.bind (h.irqe val) fun _ => hPure _
  · rename_i hOffset
    have hAt : offset = 0x7e14 := by
      simp only [lamebusConfigSize, lamebusControllerSlot] at hOffset hRegion
      omega
    exact Keeps.ite (fun _ => hPure _) fun _ => Keeps.bind (hCpue hAt) fun _ => hPure _
  · exact hPure _

theorem lamebusControllerStore (offset : Nat) (val : Word)
    (hCpue : offset = 0x7e14 → Keeps I E (setCpue b val)) :
    Keeps I E (lamebusControllerStore b offset val) := by
  unfold Mips.lamebusControllerStore
  split
  · exact Keeps.ite (fun _ => Keeps.pure _) fun _ => h.lamebusControllerStoreCpu _ _
  · exact h.lamebusControllerStoreConfig _ _ hCpue

theorem busIoFetch (cpunum : Nat) (offset : Word) : Keeps I E (busIoFetch b cpunum offset) := by
  refine Keeps.ite (fun _ => Keeps.pure _) fun hSlot => Keeps.ite (fun _ => Keeps.throw (h.smoke _))
    fun _ => Keeps.ite (fun _ => h.lamebusControllerFetch _ _) fun _ => Keeps.bind Keeps.get fun m => ?_
  exact Keeps.bind (h.reply (by omega) _) fun _ => Keeps.pure _

theorem busIoStore (cpunum : Nat) (offset val : Word)
    (hCpue : offset = 0x1f7e14 → Keeps I E (setCpue b val)) :
    Keeps I E (busIoStore b cpunum offset val) := by
  refine Keeps.ite (fun _ => Keeps.pure _) fun hSlot => Keeps.ite (fun _ => Keeps.throw (h.smoke _))
    fun _ => Keeps.ite (fun hController => ?_) fun _ => Keeps.bind Keeps.get fun m => ?_
  · refine h.lamebusControllerStore _ _ fun hOffset => hCpue (BitVec.eq_of_toNat_eq ?_)
    simp only [lamebusSlotMem, lamebusControllerSlot] at hController hOffset
    change offset.toNat = 2063892
    omega
  · exact Keeps.bind (h.reply (by omega) _) fun _ => Keeps.pure _

theorem fetchPhys (paddr : Word) : Keeps I E (fetchPhys b i paddr) := by
  have hRam : ∀ offset, Keeps I E (do return (← get).busMemFetch b offset : M δ (Option Word)) :=
    fun _ => Keeps.bind Keeps.get fun _ => Keeps.pure _
  refine Keeps.ite (fun _ => hRam _) fun _ => Keeps.ite (fun _ => Keeps.pure _) fun _ =>
    Keeps.ite (fun _ => ?_) fun _ => hRam _
  exact keeps_getCpu i fun _ => h.busIoFetch _ _

theorem storePhys {paddr val : Word}
    (hRam : ∀ index m, I m → I { m with ram := Function.update m.ram index val })
    (hCpue : paddr = cpueAddr → Keeps I E (setCpue b val)) :
    Keeps I E (storePhys b i paddr val) := by
  have hStore : ∀ offset, Keeps I E (busMemStore b offset val : M δ Bool) := by
    refine fun _ => Keeps.ite (fun _ => Keeps.pure _) fun _ => ?_
    exact Keeps.bind (hRam _) fun _ => Keeps.pure _
  refine Keeps.ite (fun _ => hStore _) fun _ => Keeps.ite (fun _ => Keeps.pure _) fun _ =>
    Keeps.ite (fun _ => ?_) fun _ => hStore _
  refine keeps_getCpu i fun _ => h.busIoStore _ _ _ fun hOffset => hCpue ?_
  simp only [cpueAddr]
  bv_omega

theorem domemFetch {vaddr : Word} {willbewrite : Bool}
    (hTrans : Keeps I E (translatemem b i vaddr willbewrite))
    (hRaise : ∀ e, Keeps I E (raise b i e : M δ Word)) :
    Keeps I E (domemFetch b i vaddr willbewrite) := by
  refine Keeps.bind hTrans fun paddr => Keeps.bind (h.fetchPhys i paddr) fun val => ?_
  cases val with
  | none => exact hRaise _
  | some val => exact Keeps.pure _

end BusKeeps

/-- `I` is kept by what any register access can come to. -/
structure IoKeeps (I : Machine δ → Prop) (E : Stop → Machine δ → Prop) : Prop
    extends BusKeeps b I E where
  setCpue : ∀ val, Keeps I E (setCpue b val)

theorem IoKeeps.domemStore {b : Board δ} {I : Machine δ → Prop} {E : Stop → Machine δ → Prop}
    (h : IoKeeps b I E) {vaddr val : Word} (hTrans : Keeps I E (translatemem b i vaddr true))
    (hRaise : ∀ e, Keeps I E (raise b i e : M δ Unit))
    (hRam : ∀ index m, I m → I { m with ram := Function.update m.ram index val }) :
    Keeps I E (domemStore b i vaddr val) :=
  Keeps.bind hTrans fun _ =>
    Keeps.bind (h.toBusKeeps.storePhys i hRam fun _ => h.setCpue val) fun _ =>
      Keeps.ite (fun _ => Keeps.pure _) fun _ => hRaise _

/-- `I` does not look at the bus and at what the bus changes in a cpu, the registers a cpu starts
with apart. -/
structure ExecBlind (I : Machine δ → Prop) : Prop extends FetchBlind b I where
  hang : ∀ why m, I m → I (m.hung why)
  devices : ∀ d m, I m → I { m with devices := d }
  raised : ∀ w m, I m → I { m with busRaisedInterrupts := w }
  enabled : ∀ w m, I m → I { m with busEnabledInterrupts := w }
  lamebusCpu : ∀ j cpu m, I m → I (m.setLamebusCpu j cpu)
  irqLines : ∀ j lines m, I m → I (m.modCpu j fun c => { c with toIrqLines := lines })
  state : ∀ j state m, I m → I (m.modCpu j fun c => { c with state := state })
  runningMask : ∀ w m, I m → I { m with cpuRunningMask := w }
  startReg : ∀ j (rg : Reg) val m, rg = 25 ∨ rg = 29 ∨ rg = 4 → I m →
    I (m.modCpu j fun c => { c with r := Function.update c.r rg val })

namespace ExecBlind

variable {b} {I : Machine δ → Prop} (h : ExecBlind b I)

include h

theorem cpuSetIrqs (m : Machine δ) (lamebus ipi : Bool) (hm : I m) :
    I (m.cpuSetIrqs i lamebus ipi) := by
  have hLines := h.irqLines i ⟨lamebus, ipi⟩ m hm
  unfold Machine.cpuSetIrqs
  dsimp only
  split
  · have hRun := h.state i .running _ hLines
    simpa [Machine.modCpu] using h.runningMask (m.cpuRunningMask ||| 1#32 <<< i) _ hRun
  · exact hLines

theorem irqupdate (m : Machine δ) (hm : I m) : I (m.irqupdate b) := by
  unfold Machine.irqupdate
  generalize m.busRaisedInterrupts &&& m.busEnabledInterrupts = mask
  induction List.range b.ncpus generalizing m with
  | nil => exact hm
  | cons j l ih =>
    refine ih _ ?_
    unfold irqupdateCpu
    dsimp only
    split
    · exact h.cpuSetIrqs j _ _ _ (h.lamebusCpu j _ m hm)
    · exact hm

theorem deviceIrq (slot : Nat) (raised : Bool) (m : Machine δ) (hm : I m) :
    I (m.deviceIrq b slot raised) := by
  cases raised <;> exact h.irqupdate _ (h.raised _ m hm)

theorem cpuSetEntrypoint (addr : Word) : Keeps I (fun _ => I) (cpuSetEntrypoint b i addr) :=
  h.toFetchBlind.cpuSetEntrypoint i h.hang (fun val m hm => h.startReg i 25 val m (.inl rfl) hm) addr

theorem cpuSetStack (stackaddr argument : Word) :
    Keeps I (fun _ => I) (cpuSetStack i stackaddr argument : M δ Unit) := by
  intro m hm
  have hRegs := h.startReg i 4 argument _ (.inr (.inr rfl))
    (h.startReg i 29 stackaddr m (.inr (.inl rfl)) hm)
  simpa [Mips.cpuSetStack, Machine.modCpu] using hRegs

theorem setCpue (val : Word) : Keeps I (fun _ => I) (setCpue b val) := by
  refine Keeps.forM fun j _ => Keeps.bind Keeps.get fun m => Keeps.ite (fun _ => ?_) fun _ =>
    Keeps.ite (fun _ => ?_) fun _ => Keeps.pure _
  · refine Keeps.bind (fun m hm => h.lamebusCpu j _ m hm) fun _ => ?_
    exact Keeps.bind (h.state j _) fun _ m hm => h.runningMask _ m hm
  · refine Keeps.bind (h.cpuSetEntrypoint j _) fun _ => Keeps.bind (h.cpuSetStack j _ _) fun _ => ?_
    exact Keeps.bind (h.state j _) fun _ m hm => h.runningMask _ m hm

theorem ioKeeps : IoKeeps b I (fun _ => I) where
  smoke _ _ hm := hm
  pastCram _ hm := hm
  hang := h.hang
  devices := h.devices
  deviceIrq slot raised m _ hm := h.deviceIrq slot raised m hm
  cram j _ m hm := h.lamebusCpu j _ m hm
  cirqe j _ m _ hm := h.irqupdate _ (h.lamebusCpu j _ m hm)
  cipi j _ m _ hm := h.cpuSetIrqs j _ _ _ (h.lamebusCpu j _ m hm)
  irqe val m hm := h.irqupdate _ (h.enabled val m hm)
  setCpue := h.setCpue

theorem domemFetch (vaddr : Word) (willbewrite : Bool) :
    Keeps I (fun _ => I) (domemFetch b i vaddr willbewrite) :=
  h.ioKeeps.domemFetch i (FetchBlind.keeps_of_posted (h.translatemem i _ _)) fun _ =>
    FetchBlind.keeps_of_posted (h.keeps_raise i _)

theorem domemStore
    (hRam : ∀ index val m, I m → I { m with ram := Function.update m.ram index val })
    (vaddr val : Word) : Keeps I (fun _ => I) (domemStore b i vaddr val) :=
  h.ioKeeps.domemStore i (FetchBlind.keeps_of_posted (h.translatemem i _ _))
    (fun _ => FetchBlind.keeps_of_posted (h.keeps_raise i _)) fun index m hm => hRam index val m hm

theorem doWait (m : Machine δ) (hm : I m) : After (doWait i) (fun _ => I) (fun _ => I) m := by
  refine keeps_getCpu i (fun c => Keeps.ite (fun _ => ?_) fun _ => Keeps.pure _) m hm
  exact Keeps.bind (h.state i .idle) fun _ m hm => h.runningMask _ m hm

theorem writetlb
    (hWrite : ∀ ix m, I m →
      I (m.modCpu i fun c => { c with tlb := Function.update c.tlb ix c.tlbentry }))
    (ix : Int) : Keeps I (fun _ => I) (writetlb b i ix) := by
  refine Keeps.ite (fun _ => ?_) fun _ => Keeps.throw fun _ hm => hm
  exact Keeps.bind (hWrite ix.toNat) fun _ => Keeps.bind (FetchBlind.checkTlbDups i h.hang _) fun _ =>
    h.precomputeBoth i

/-- What is left to show for an instruction. -/
theorem rules {insn : Word}
    (hRam : ∀ index val m, I m → I { m with ram := Function.update m.ram index val })
    (hReg : ∀ rg val m, dest insn = some rg → I m →
      I (m.modCpu i fun c => { c with r := Function.update c.r rg val }))
    (hHilo : ∀ hi lo hiwait lowait m, I m →
      I (m.modCpu i fun c => { c with hi := hi, lo := lo, hiwait := hiwait, lowait := lowait }))
    (hLl : opm insn = .lwc0 → ∀ addr val m, I m →
      I (m.modCpu i fun c => { c with llActive := true, llAddr := addr, llValue := val }))
    (hMtc0 : ∀ c0 m, IsMtc0 insn c0 → I m → I (m.modCpu i fun c => c.mtc0 (c.r (rt insn)) c0))
    (hRandom : ∀ m, I m → I (m.modCpu i Mipscpu.reduceRandom))
    (hProbe : ∀ ix pf m, I m → I (m.modCpu i fun c => { c with tlbindex := ix, tlbpf := pf }))
    (hTlbr : ∀ m, I m → I (m.modCpu i fun c => { c with tlbentry := c.tlb c.tlbindex }))
    (hWrite : ∀ ix m, I m → After (Mips.writetlb b i ix) (fun _ => I) (fun _ => I) m)
    (hStatus : cop0Op insn → (insn &&& 0x01ffffff).toNat = 16 → ∀ m,
      (m.mycpus i).currentUsermode = false → I m → I (m.modCpu i fun c =>
        { c with
          currentUsermode := c.prevUsermode, currentIrqon := c.prevIrqon
          prevUsermode := c.oldUsermode, prevIrqon := c.oldIrqon })) :
    Rules b i insn I (fun _ => I) where
  smoke _ _ hm := hm
  undefined _ hm := hm
  raise e m hm := h.exception i e m hm
  reg := hReg
  hilo := hHilo
  phonyException := h.phonyException i
  abranch := h.abranch i
  translatemem vaddr iswrite := FetchBlind.keeps_of_posted (h.translatemem i vaddr iswrite)
  domemFetch := h.domemFetch i
  domemStore _ := h.domemStore i hRam
  ll := hLl
  hang why m _ _ hm := h.hang why m hm
  mtc0 c0 m hOp _ hm := hMtc0 c0 m hOp hm
  reduceRandom m _ hm := hRandom m hm
  probetlb m _ hm := by
    unfold Mips.probetlb
    rw [after_bind, after_getCpu]
    split
    · exact hProbe (m.mycpus i).tlbindex true m hm
    · exact hProbe _ false m hm
  tlbr m _ _ _ hm := hTlbr m hm
  writetlb ix m _ _ _ hm := hWrite ix m hm
  doWait m _ hm := h.doWait i m hm
  doRfe m hOp hFunct hUser hm := h.doRfe i (hStatus hOp hFunct) m hUser hm

end ExecBlind

/-- `I` does not look at the statistics, the debugger and the course of a cycle either. -/
structure BusBlind (I : Machine δ → Prop) : Prop extends TurnBlind b I where
  devices : ∀ d m, I m → I { m with devices := d }
  raised : ∀ w m, I m → I { m with busRaisedInterrupts := w }
  enabled : ∀ w m, I m → I { m with busEnabledInterrupts := w }
  lamebusCpu : ∀ j cpu m, I m → I (m.setLamebusCpu j cpu)
  irqLines : ∀ j lines m, I m → I (m.modCpu j fun c => { c with toIrqLines := lines })
  state : ∀ j state m, I m → I (m.modCpu j fun c => { c with state := state })
  runningMask : ∀ w m, I m → I { m with cpuRunningMask := w }
  startReg : ∀ j (rg : Reg) val m, rg = 25 ∨ rg = 29 ∨ rg = 4 → I m →
    I (m.modCpu j fun c => { c with r := Function.update c.r rg val })

theorem BusBlind.execBlind {b : Board δ} {I : Machine δ → Prop} (h : BusBlind b I) :
    ExecBlind b I where
  toFetchBlind := h.toFetchBlind
  hang := h.hang
  devices := h.devices
  raised := h.raised
  enabled := h.enabled
  lamebusCpu := h.lamebusCpu
  irqLines := h.irqLines
  state := h.state
  runningMask := h.runningMask
  startReg := h.startReg

/-- A property may be asked for only as long as some messages have not been printed. -/
theorem BusBlind.unlessHung {b : Board δ} {I : Machine δ → Prop} (h : BusBlind b I)
    (bad : Hang → Prop) : BusBlind b fun m => (∀ why ∈ m.hangs, ¬ bad why) → I m where
  fetchState i fs m hm hHangs := h.fetchState i fs m (hm hHangs)
  exception i e m hm hHangs := h.exception i e m (hm hHangs)
  vpn i vpn m hm hHangs := h.vpn i vpn m (hm hHangs)
  stats sp m hm hHangs := h.stats sp m (hm hHangs)
  debugger cycling stopped lethal m hm hHangs := h.debugger cycling stopped lethal m (hm hHangs)
  hang why m hm hHangs := h.hang why m (hm fun w hw => hHangs w (List.mem_cons_of_mem _ hw))
  hitBreakpoint i hit m hm hHangs := h.hitBreakpoint i hit m (hm hHangs)
  uncount i m hm hHangs := h.uncount i m (hm hHangs)
  devices d m hm hHangs := h.devices d m (hm hHangs)
  raised w m hm hHangs := h.raised w m (hm hHangs)
  enabled w m hm hHangs := h.enabled w m (hm hHangs)
  lamebusCpu j cpu m hm hHangs := h.lamebusCpu j cpu m (hm hHangs)
  irqLines j lines m hm hHangs := h.irqLines j lines m (hm hHangs)
  state j state m hm hHangs := h.state j state m (hm hHangs)
  runningMask w m hm hHangs := h.runningMask w m (hm hHangs)
  startReg j rg val m hrg hm hHangs := h.startReg j rg val m hrg (hm hHangs)

/-! ## Properties of each cpu -/

theorem forall_modCpu {P : Nat → Mipscpu → Prop} {m : Machine δ} {f : Mipscpu → Mipscpu}
    (hm : ∀ j, P j (m.mycpus j)) (hf : P i (f (m.mycpus i))) :
    ∀ j, P j ((m.modCpu i f).mycpus j) := by
  intro j
  by_cases hj : j = i
  · subst hj
    simpa using hf
  · rw [Machine.modCpu_mycpus_ne m f hj]
    exact hm j

/-- `P` does not look at what the bus and the course of a cycle change in a cpu. -/
structure CpuBlind (P : Mipscpu → Prop) : Prop where
  fetchState : ∀ fs c, P c → P { c with toFetchState := fs }
  exception : ∀ e c, P c → P (c.exception b e)
  vpn : ∀ vpage c, P c → P (Mipscpu.setVpn c vpage)
  hitBreakpoint : ∀ hit c, P c → P { c with hitBreakpoint := hit }
  exCount : ∀ count c, P c → P { c with exCount := count }
  irqLines : ∀ lines c, P c → P { c with toIrqLines := lines }
  state : ∀ state c, P c → P { c with state := state }
  startReg : ∀ (rg : Reg) val c, rg = 25 ∨ rg = 29 ∨ rg = 4 → P c →
    P { c with r := Function.update c.r rg val }

variable {b}

theorem CpuBlind.busBlind {P : Nat → Mipscpu → Prop} (h : ∀ j, CpuBlind b (P j)) :
    BusBlind b fun m : Machine δ => ∀ j, P j (m.mycpus j) where
  fetchState i fs _ hm := forall_modCpu i hm ((h i).fetchState fs _ (hm i))
  exception i e _ hm := forall_modCpu i hm ((h i).exception e _ (hm i))
  vpn i vpn _ hm := forall_modCpu i hm ((h i).vpn vpn _ (hm i))
  stats _ _ hm := hm
  debugger _ _ _ _ hm := hm
  hang _ _ hm := hm
  hitBreakpoint i hit _ hm := forall_modCpu i hm ((h i).hitBreakpoint hit _ (hm i))
  uncount i _ hm := forall_modCpu i hm ((h i).exCount _ _ (hm i))
  devices _ _ hm := hm
  raised _ _ hm := hm
  enabled _ _ hm := hm
  lamebusCpu _ _ _ hm := hm
  irqLines j lines _ hm := forall_modCpu j hm ((h j).irqLines lines _ (hm j))
  state j state _ hm := forall_modCpu j hm ((h j).state state _ (hm j))
  runningMask _ _ hm := hm
  startReg j rg val _ hrg hm := forall_modCpu j hm ((h j).startReg rg val _ hrg (hm j))

end Sys161.Mips
