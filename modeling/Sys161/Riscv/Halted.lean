import Sys161.Riscv.Blind
import Sys161.Riscv.DebugAccess

/-!
# A stopped machine

As for MIPS, nothing a cpu does lets a machine go on that the debugger has stopped.
-/

namespace Sys161.Riscv

open Exec
open Mips (Board Page Reply)

set_option autoImplicit false

variable {δ : Type} (b : Board δ)

def Halted (m : Machine δ) : Prop := m.stoppedInDebugger = true

def cpudebugGetregs (m : Machine δ) (i : Nat) : List Word × Machine δ :=
  let c := m.mycpus i
  ((List.finRange 32).map (fun k => c.x (BitVec.ofFin k)) ++ [c.pc], m)

def cpudebugGetBreakCpu (m : Machine δ) : Nat :=
  ((List.range b.ncpus).find? fun i => (m.mycpus i).hitBreakpoint).getD 0

theorem stopped_cpuSetIrqs (m : Machine δ) (j : Nat) (l p : Bool) :
    (m.cpuSetIrqs j l p).stoppedInDebugger = m.stoppedInDebugger :=
  (apply_ite Machine.stoppedInDebugger _ _ _).trans (ite_self m.stoppedInDebugger)

theorem stopped_irqupdateCpu (mask : Word) (m : Machine δ) (j : Nat) :
    (irqupdateCpu mask m j).stoppedInDebugger = m.stoppedInDebugger := by
  unfold irqupdateCpu
  dsimp only
  split
  · exact stopped_cpuSetIrqs ..
  · rfl

theorem halted_irqupdate {m : Machine δ} (hm : Halted m) : Halted (m.irqupdate b) := by
  unfold Machine.irqupdate
  generalize m.busRaisedInterrupts &&& m.busEnabledInterrupts = mask
  induction List.range b.ncpus generalizing m with
  | nil => exact hm
  | cons j l ih => exact ih ((stopped_irqupdateCpu mask m j).trans hm)

theorem halted_reply {α : Type} {m : Machine δ} (slot : Nat) (ret : Reply δ α) (hm : Halted m) :
    Halted (m.reply b slot ret) := by
  have hIrqs : ∀ (irqs : List Bool) (t : Machine δ), Halted t →
      Halted (irqs.foldl (Machine.deviceIrq b slot) t) := by
    intro irqs
    induction irqs with
    | nil => exact fun t ht => ht
    | cons raised irqs ih =>
      intro t ht
      apply ih
      cases raised with
      | true => exact halted_irqupdate b (m := { t with busRaisedInterrupts := _ }) ht
      | false => exact halted_irqupdate b (m := { t with busRaisedInterrupts := _ }) ht
  unfold Machine.reply
  apply hIrqs
  split
  · rfl
  · exact hm

theorem halted_fetchCpu (offset : Nat) :
    Keeps (Halted : Machine δ → Prop) (fun _ t => Halted t)
      (lamebusControllerFetchCpu b offset) := by
  unfold lamebusControllerFetchCpu
  refine Keeps.bind Keeps.get fun m => Keeps.ite (fun _ => Keeps.pure _) fun _ =>
    Keeps.ite (fun _ => Keeps.bind ?_ fun _ => Keeps.pure _) fun _ => ?_
  · exact Keeps.ite (fun _ => Keeps.pure _) fun _ => Keeps.throw fun _ hm => hm
  · split <;> exact Keeps.pure _

theorem halted_fetchConfig (cpunum offset : Nat) :
    Keeps (Halted : Machine δ → Prop) (fun _ t => Halted t)
      (lamebusControllerFetchConfig b cpunum offset) := by
  have hHang : Keeps (Halted : Machine δ → Prop) (fun _ t => Halted t) (hang .powerRead) :=
    fun _ _ => rfl
  refine Keeps.bind Keeps.get fun m => ?_
  split
  iterate 3 exact Keeps.pure _
  refine Keeps.ite (fun _ => Keeps.pure _) fun _ => ?_
  split
  iterate 2 exact Keeps.pure _
  · exact Keeps.ite (fun _ => Keeps.bind hHang fun _ => Keeps.pure _) fun _ => Keeps.pure _
  · exact Keeps.pure _
  iterate 3 exact Keeps.ite (fun _ => Keeps.pure _) fun _ => Keeps.pure _
  exact Keeps.pure _

theorem halted_busIoFetch (cpunum : Nat) (offset : Word) :
    Keeps (Halted : Machine δ → Prop) (fun _ t => Halted t) (busIoFetch b cpunum offset) := by
  refine Keeps.ite (fun _ => Keeps.pure _) fun _ => Keeps.ite (fun _ => ?_) fun _ =>
    Keeps.ite (fun _ => ?_) fun _ => Keeps.bind Keeps.get fun m => ?_
  · exact Keeps.throw fun _ hm => hm
  · unfold lamebusControllerFetch
    exact Keeps.ite (fun _ => Keeps.ite (fun _ => Keeps.pure _) fun _ => halted_fetchCpu b _)
      fun _ => halted_fetchConfig b _ _
  · exact Keeps.bind (Keeps.modify fun m hm => halted_reply b _ _ hm) fun _ => Keeps.pure _

theorem halted_fetchPhys (i : Nat) (paddr : Word) :
    Keeps (Halted : Machine δ → Prop) (fun _ t => Halted t) (fetchPhys b i paddr) := by
  refine Keeps.ite (fun _ => Keeps.pure _) fun _ => Keeps.ite (fun _ => ?_) fun _ =>
    Keeps.ite (fun _ => Keeps.pure _) fun _ => ?_
  · exact Keeps.bind Keeps.get fun _ => Keeps.pure _
  · exact keeps_getCpu i fun c => halted_busIoFetch b _ _

/-! ## The debugger's accesses -/

theorem halted_debugTranslatemem (i : Nat) (vaddr : Word) (rwx : Memrwx) :
    Keeps (Halted : Machine δ → Prop) (fun _ t => Halted t)
      (debugTranslatemem b i vaddr rwx) := by
  unfold debugTranslatemem
  refine keeps_getCpu i fun c => Keeps.ite (fun _ => Keeps.pure _) fun _ =>
    Keeps.ite (fun _ => Keeps.pure _) fun _ => Keeps.ite (fun _ => ?_) fun _ => ?_
  · exact Keeps.ite (fun _ => Keeps.pure _) fun _ => Keeps.pure _
  · split
    · exact Keeps.pure _
    · refine Keeps.bind Keeps.get fun m => ?_
      split
      · exact Keeps.pure _
      · exact Keeps.pure _
      · refine Keeps.bind (halted_fetchPhys b i _) fun entry => ?_
        split
        · exact Keeps.pure _
        · split <;> exact Keeps.pure _

theorem halted_fetchByte (i : Nat) (va : Word) :
    Keeps (Halted : Machine δ → Prop) (fun _ t => Halted t) (cpudebugFetchByte b i va) := by
  refine Keeps.bind (halted_debugTranslatemem b i _ _) fun pa => ?_
  split
  · exact Keeps.pure _
  · exact Keeps.ite (fun _ => Keeps.pure _) fun _ => Keeps.bind Keeps.get fun _ => Keeps.pure _

theorem halted_fetchWord (i : Nat) (va : Word) :
    Keeps (Halted : Machine δ → Prop) (fun _ t => Halted t) (cpudebugFetchWord b i va) := by
  refine Keeps.bind (halted_debugTranslatemem b i _ _) fun pa => ?_
  split
  · exact Keeps.pure _
  · exact Keeps.ite (fun _ => Keeps.pure _) fun _ => Keeps.bind Keeps.get fun _ => Keeps.pure _

theorem halted_storeByte (i : Nat) (va : Word) (byte : BitVec 8) :
    Keeps (Halted : Machine δ → Prop) (fun _ t => Halted t) (cpudebugStoreByte b i va byte) := by
  refine Keeps.bind (halted_debugTranslatemem b i _ _) fun pa => ?_
  split
  · exact Keeps.pure _
  · refine Keeps.ite (fun _ => Keeps.pure _) fun _ => Keeps.ite (fun _ => Keeps.pure _) fun _ => ?_
    exact Keeps.bind (Keeps.modify fun _ hm => hm) fun _ => Keeps.pure _

theorem halted_storeWord (i : Nat) (va word : Word) :
    Keeps (Halted : Machine δ → Prop) (fun _ t => Halted t) (cpudebugStoreWord b i va word) := by
  refine Keeps.bind (halted_debugTranslatemem b i _ _) fun pa => ?_
  split
  · exact Keeps.pure _
  · refine Keeps.ite (fun _ => Keeps.pure _) fun _ => Keeps.ite (fun _ => Keeps.pure _) fun _ => ?_
    exact Keeps.bind (Keeps.modify fun _ hm => hm) fun _ => Keeps.pure _

/-! ## The entry point -/

theorem halted_modCpu (i : Nat) (f : Riscvcpu → Riscvcpu) :
    Keeps (Halted : Machine δ → Prop) (fun _ t => Halted t) (modCpu i f) :=
  Keeps.modify fun _ hm => hm

theorem halted_liftTrap {α : Type} (x : Except Trap α) :
    Keeps (Halted : Machine δ → Prop) (fun _ t => Halted t) (liftTrap x) := by
  cases x with
  | ok a => exact Keeps.pure _
  | error t => exact Keeps.throw fun _ hm => hm

theorem halted_findLeaf (i : Nat) (vaddr : Word) (rwx : Memrwx) :
    Keeps (Halted : Machine δ → Prop) (fun _ t => Halted t) (findLeaf b i vaddr rwx) := by
  refine keeps_getCpu i fun c => ?_
  split
  · exact Keeps.throw fun _ hm => hm
  · refine Keeps.bind Keeps.get fun m => Keeps.bind (halted_liftTrap _) fun entry => ?_
    split
    · exact Keeps.pure _
    · refine Keeps.bind (halted_fetchPhys b i _) fun entry => ?_
      split
      · exact Keeps.throw fun _ hm => hm
      · exact halted_liftTrap _

theorem halted_translatemem (i : Nat) (vaddr : Word) (rwx : Memrwx) :
    Keeps (Halted : Machine δ → Prop) (fun _ t => Halted t) (translatemem b i vaddr rwx) := by
  have hThrow : ∀ e, Keeps (Halted : Machine δ → Prop) (fun _ t => Halted t)
      (throw e : M δ Word) := fun _ => Keeps.throw fun _ hm => hm
  refine Keeps.ite (fun _ => hThrow _) fun _ => keeps_getCpu i fun c =>
    Keeps.ite (fun _ => Keeps.pure _) fun _ => Keeps.ite (fun _ => ?_) fun _ => ?_
  · exact Keeps.ite (fun _ => Keeps.pure _) fun _ => hThrow _
  · refine Keeps.bind (halted_findLeaf b i vaddr rwx) fun leaf => keeps_getCpu i fun c => ?_
    refine Keeps.bind (halted_liftTrap _) fun paddr => ?_
    exact Keeps.bind (halted_modCpu i _) fun _ => Keeps.pure _

theorem halted_precomputePc (i : Nat) :
    Keeps (Halted : Machine δ → Prop) (fun _ t => Halted t) (precomputePc b i) := by
  refine keeps_getCpu i fun c => Keeps.bind (halted_translatemem b i _ _) fun physpc => ?_
  refine Keeps.bind (halted_modCpu i _) fun _ => Keeps.ite (fun _ => ?_) fun _ => halted_modCpu i _
  exact Keeps.throw fun _ hm => hm

theorem halted_trap (i : Nat) (tr : Trap) :
    Keeps (Halted : Machine δ → Prop) (fun _ t => Halted t) (trap b i tr) := by
  intro m hm
  refine after_trap b i tr (fun _ => rfl) fun _ => ?_
  refine (halted_precomputePc b i (m.modCpu i _) hm).mono (fun _ _ h => h) fun e t ht => ?_
  cases e with
  | trap tr => exact rfl
  | crashdie | smoke | undefined => exact ht

theorem halted_trapping {α : Type} (i : Nat) {x : M δ α} (handled : α)
    (hx : Keeps Halted (fun _ t => Halted t) x) :
    Keeps Halted (fun _ t => Halted t) (trapping b i x handled) := by
  intro m hm
  rw [after_trapping]
  refine (hx m hm).mono (fun _ _ ht => ht) fun e t ht => ?_
  cases e with
  | trap tr => exact halted_trap b i tr t ht
  | crashdie | smoke | undefined => exact ht

theorem halted_attempt (i : Nat) {x : M δ Unit} (hx : Keeps Halted (fun _ t => Halted t) x) :
    Keeps Halted (fun _ t => Halted t) (attempt b i x) :=
  halted_trapping b i false (Keeps.bind hx fun _ => Keeps.pure _)

theorem halted_setEntrypoint (i : Nat) (addr : Word) :
    Keeps (Halted : Machine δ → Prop) (fun _ t => Halted t) (cpuSetEntrypoint b i addr) := by
  have hHang : ∀ why, Keeps (Halted : Machine δ → Prop) (fun _ t => Halted t) (hang why) :=
    fun _ _ _ => rfl
  have hRest : ∀ alignmask, Keeps (Halted : Machine δ → Prop) (fun _ t => Halted t) (do
      modCpu i fun c => { c with pc := addr &&& alignmask }
      if ← attempt b i (precomputePc b i) then pure () else hang .entryInvalid : M δ Unit) := by
    refine fun alignmask => Keeps.bind (halted_modCpu i _) fun _ => ?_
    refine Keeps.bind (halted_attempt b i (halted_precomputePc b i)) fun fine => ?_
    exact Keeps.ite (fun _ => Keeps.pure _) fun _ => hHang _
  refine keeps_getCpu i fun c => Keeps.ite (fun _ => ?_) fun _ => hRest _
  exact Keeps.bind (hHang _) fun _ => hRest _

/-! ## Stores -/

theorem halted_setCpue (val : Word) :
    Keeps (Halted : Machine δ → Prop) (fun _ t => Halted t) (setCpue b val) := by
  have hMask : ∀ f : Machine δ → Machine δ, (∀ m, (f m).stoppedInDebugger = m.stoppedInDebugger) →
      Keeps (Halted : Machine δ → Prop) (fun _ t => Halted t) (modify f : M δ Unit) :=
    fun f hf => Keeps.modify fun m hm => (hf m).trans hm
  refine Keeps.forM fun j _ => Keeps.bind Keeps.get fun m => Keeps.ite (fun _ => ?_) fun _ =>
    Keeps.ite (fun _ => ?_) fun _ => Keeps.pure _
  · refine Keeps.bind (hMask _ fun _ => rfl) fun _ => ?_
    exact Keeps.bind (halted_modCpu j _) fun _ => hMask _ fun _ => rfl
  · refine Keeps.bind (halted_setEntrypoint b j _) fun _ => Keeps.bind (halted_modCpu j _) fun _ => ?_
    exact Keeps.bind (halted_modCpu j _) fun _ => hMask _ fun _ => rfl

theorem halted_storeCpu (offset : Nat) (val : Word) :
    Keeps (Halted : Machine δ → Prop) (fun _ t => Halted t)
      (lamebusControllerStoreCpu b offset val) := by
  refine Keeps.bind Keeps.get fun m => Keeps.ite (fun _ => Keeps.pure _) fun _ =>
    Keeps.ite (fun _ => ?_) fun _ => ?_
  · refine Keeps.bind ?_ fun word => Keeps.bind (Keeps.modify fun _ hm => hm) fun _ => Keeps.pure _
    exact Keeps.ite (fun _ => Keeps.pure _) fun _ => Keeps.throw fun _ hm => hm
  · split
    · refine Keeps.bind (Keeps.modify fun m hm => ?_) fun _ => Keeps.pure _
      exact halted_irqupdate b (m := m.setLamebusCpu _ _) hm
    · refine Keeps.bind (Keeps.modify fun m hm => ?_) fun _ => Keeps.pure _
      exact (stopped_cpuSetIrqs (m.setLamebusCpu _ _) _ _ _).trans hm
    · exact Keeps.pure _

theorem halted_storeConfig (offset : Nat) (val : Word) :
    Keeps (Halted : Machine δ → Prop) (fun _ t => Halted t)
      (lamebusControllerStoreConfig b offset val) := by
  refine Keeps.ite (fun _ => Keeps.pure _) fun _ => ?_
  split
  · refine Keeps.ite (fun _ => Keeps.bind (fun _ _ => rfl) fun _ => Keeps.pure _) fun _ => ?_
    exact Keeps.pure _
  · refine Keeps.bind (Keeps.modify fun m hm => ?_) fun _ => Keeps.pure _
    exact halted_irqupdate b (m := { m with busEnabledInterrupts := _ }) hm
  · exact Keeps.ite (fun _ => Keeps.pure _) fun _ =>
      Keeps.bind (halted_setCpue b val) fun _ => Keeps.pure _
  · exact Keeps.pure _

theorem halted_storePhys (i : Nat) (paddr val : Word) :
    Keeps (Halted : Machine δ → Prop) (fun _ t => Halted t) (storePhys b i paddr val) := by
  refine Keeps.ite (fun _ => Keeps.pure _) fun _ => Keeps.ite (fun _ => ?_) fun _ =>
    Keeps.ite (fun _ => Keeps.pure _) fun _ => keeps_getCpu i fun c => ?_
  · refine Keeps.ite (fun _ => Keeps.pure _) fun _ => ?_
    exact Keeps.bind (Keeps.modify fun _ hm => hm) fun _ => Keeps.pure _
  · refine Keeps.ite (fun _ => Keeps.pure _) fun _ => Keeps.ite (fun _ => ?_) fun _ =>
      Keeps.ite (fun _ => ?_) fun _ => Keeps.bind Keeps.get fun m => ?_
    · exact Keeps.throw fun _ hm => hm
    · refine Keeps.ite (fun _ => ?_) fun _ => halted_storeConfig b _ val
      exact Keeps.ite (fun _ => Keeps.pure _) fun _ => halted_storeCpu b _ val
    · exact Keeps.bind (Keeps.modify fun m hm => halted_reply b _ _ hm) fun _ => Keeps.pure _

theorem halted_domemFetch (i : Nat) (vaddr : Word) (willrwx : Memrwx) :
    Keeps (Halted : Machine δ → Prop) (fun _ t => Halted t) (domemFetch b i vaddr willrwx) := by
  refine Keeps.bind (halted_translatemem b i _ _) fun paddr => ?_
  refine Keeps.bind (halted_fetchPhys b i paddr) fun word => ?_
  cases word with
  | some val => exact Keeps.pure _
  | none => exact Keeps.throw fun _ hm => hm

theorem halted_domemStore (i : Nat) (vaddr val : Word) :
    Keeps (Halted : Machine δ → Prop) (fun _ t => Halted t) (domemStore b i vaddr val) := by
  refine Keeps.bind (halted_translatemem b i _ _) fun paddr => ?_
  refine Keeps.bind (halted_storePhys b i paddr val) fun found => ?_
  exact Keeps.ite (fun _ => Keeps.pure _) fun _ => Keeps.throw fun _ hm => hm

theorem halted_storeRules (i : Nat) : StoreRules b i (fun _ _ _ => True)
    (Halted : Machine δ → Prop) Halted (fun _ t => Halted t) where
  fetch vaddr rwx _ := halted_domemFetch b i vaddr rwx
  noLr _ hm := hm
  store vaddr val m _ hm _ := halted_domemStore b i vaddr val m hm

/-! ## A cycle -/

theorem halted_rxJump (i : Nat) (dest : Word) :
    Keeps (Halted : Machine δ → Prop) (fun _ t => Halted t) (rxJump b i dest) := by
  refine keeps_getCpu i fun c => Keeps.ite (fun _ => Keeps.throw fun _ hm => hm) fun _ => ?_
  exact Keeps.bind (halted_modCpu i _) fun _ => halted_precomputePc b i

theorem halted_rxDoSfenceVma (i : Nat) :
    Keeps (Halted : Machine δ → Prop) (fun _ t => Halted t) (rxDoSfenceVma b i) := by
  refine Keeps.bind ?_ fun _ => halted_modCpu i _
  refine keeps_getCpu i fun c => Keeps.bind (halted_modCpu i _) fun _ => ?_
  exact Keeps.ite (fun _ => Keeps.throw fun _ hm => hm) fun _ => Keeps.pure _

theorem halted_rxDoWfi (i : Nat) :
    Keeps (Halted : Machine δ → Prop) (fun _ t => Halted t) (rxDoWfi i) := by
  refine keeps_getCpu i fun c => Keeps.ite (fun _ => Keeps.pure _) fun _ => ?_
  exact Keeps.bind (halted_modCpu i _) fun _ => Keeps.modify fun _ hm => hm

theorem halted_rules (i : Nat) (insn : Insn) : Rules b i (fun _ _ _ => True) insn
    (Halted : Machine δ → Prop) Halted (fun _ t => Halted t) where
  toFetchRules := (halted_storeRules b i).toFetchRules
  le _ hm := hm
  raise _ _ _ hm := hm
  setX _ _ _ hm := hm
  reserve _ _ _ hm := hm
  dostore _ _ _ _ hms hm hV :=
    (halted_storeRules b i).dostore (halted_storeRules b i) (fun _ ht => ht) hms hm hV
  store := (halted_storeRules b i).store
  jump dest m _ hm := halted_rxJump b i dest m hm
  jumpBy _ m _ hm := halted_rxJump b i _ m hm
  csr _ _ _ _ _ _ _ _ hm _ := hm
  breakpoint _ _ _ _ := rfl
  sret m _ hm := Keeps.bind (halted_modCpu i _) (fun _ => halted_precomputePc b i) m hm
  wfi m _ hm := halted_rxDoWfi i m hm
  sfenceVma m _ hm := halted_rxDoSfenceVma b i m hm

theorem halted_exec (i : Nat) {insn : Insn} (hWell : insn.Wellformed) (len : Word) :
    Keeps (Halted : Machine δ → Prop) (fun _ t => Halted t) (insn.exec b i len) :=
  fun m hm => (halted_rules b i insn).exec hWell hm (writes_true i m insn)

theorem halted_execute (i : Nat) (is : Issue) :
    Keeps (Halted : Machine δ → Prop) (fun _ t => Halted t) (execute b i is) := by
  refine halted_trapping b i false ?_
  cases is with
  | idle | fault => exact Keeps.pure _
  | tooLong word => exact Keeps.bind (Keeps.throw fun _ hm => hm) fun _ => Keeps.pure _
  | long word => exact halted_exec b i (decode32_wellformed word) 4
  | short word =>
    dsimp only
    unfold insn16
    cases hDecode : decode16 word with
    | none => exact Keeps.throw fun _ hm => hm
    | some insn => exact halted_exec b i (decode16_wellformed hDecode) 2

theorem halted_updatePc (i : Nat) :
    Keeps (Halted : Machine δ → Prop) (fun _ t => Halted t) (updatePc b i) := by
  refine Keeps.bind (halted_modCpu i _) fun _ => keeps_getCpu i fun c => Keeps.ite (fun _ => ?_) ?_
  · exact halted_attempt b i (halted_precomputePc b i)
  · exact fun _ => Keeps.bind (halted_modCpu i _) fun _ => Keeps.pure _

theorem halted_useMap (page : Option Page) (pageoffset : Word) :
    Keeps (Halted : Machine δ → Prop) (fun _ t => Halted t) (useMap page pageoffset) :=
  CoreBlind.useMap page pageoffset

theorem halted_fetchSecond (i : Nat) :
    Keeps (Halted : Machine δ → Prop) (fun _ t => Halted t) (fetchSecond b i) := by
  refine keeps_getCpu i fun c => Keeps.ite (fun _ => ?_) fun _ => ?_
  · refine Keeps.bind (halted_modCpu i _) fun _ => ?_
    refine Keeps.bind (halted_attempt b i (halted_precomputePc b i)) fun found =>
      Keeps.ite (fun _ => keeps_getCpu i fun c => ?_) fun _ => ?_
    · refine Keeps.bind (halted_useMap _ _) fun _ => ?_
      exact Keeps.bind (halted_modCpu i _) fun _ => Keeps.pure _
    · exact Keeps.bind (halted_modCpu i _) fun _ => Keeps.pure _
  · exact Keeps.bind (halted_useMap _ _) fun _ => Keeps.pure _

theorem halted_fetch (i : Nat) :
    Keeps (Halted : Machine δ → Prop) (fun _ t => Halted t) (fetch b i) := by
  have hNext : ∀ len is, Keeps (Halted : Machine δ → Prop) (fun _ t => Halted t) (do
      modCpu i fun c => c.setNext len
      return is : M δ Issue) :=
    fun len is => Keeps.bind (halted_modCpu i _) fun _ => Keeps.pure _
  refine keeps_getCpu i fun c => Keeps.bind (halted_useMap _ _) fun word => ?_
  refine Keeps.ite (fun _ => hNext 2 _) fun _ => Keeps.ite (fun _ => Keeps.pure _) fun _ =>
    Keeps.ite (fun _ => ?_) fun _ => hNext 4 _
  refine Keeps.bind (halted_fetchSecond b i) fun second => ?_
  cases second with
  | none => exact Keeps.pure _
  | some insn2 => exact hNext 4 _

theorem halted_issue (i : Nat) :
    Keeps (Halted : Machine δ → Prop) (fun _ t => Halted t) (issue b i) := by
  refine keeps_getCpu i fun c => Keeps.ite (fun _ => ?_) fun _ => ?_
  · exact Keeps.bind (fun m hm => hm) fun _ => Keeps.pure _
  · refine Keeps.bind (keeps_getCpu i fun c => ?_) fun _ => Keeps.bind (fun m hm => hm) fun _ =>
      Keeps.bind (halted_modCpu i _) fun _ => halted_fetch b i
    cases c.pendingIrq with
    | none => exact Keeps.pure _
    | some irq => exact halted_trap b i _

theorem halted_complete (i : Nat) (is : Issue) :
    Keeps (Halted : Machine δ → Prop) (fun _ t => Halted t) (complete b i is) := by
  refine keeps_getCpu i fun c => Keeps.bind (halted_execute b i is) fun stopped => ?_
  refine Keeps.bind (halted_updatePc b i) fun found => Keeps.ite (fun _ => ?_) fun _ =>
    Keeps.pure _
  refine Keeps.bind (halted_modCpu i _) fun _ => Keeps.bind (keeps_getCpu i fun c => ?_) fun _ =>
    Keeps.pure _
  exact Keeps.ite (fun _ => Keeps.modify fun _ hm => hm) fun _ => Keeps.pure _

theorem halted_cpuTurn (i : Nat) :
    Keeps (Halted : Machine δ → Prop) (fun _ t => Halted t) (cpuTurn b i) := by
  refine Keeps.bind (halted_issue b i) fun is => ?_
  cases is with
  | idle | fault => exact Keeps.pure _
  | short | long | tooLong => exact halted_complete b i _

/-- A cycle does not let a stopped machine go on. -/
theorem halted_cpuCycle :
    Keeps (Halted : Machine δ → Prop) (fun _ t => Halted t) (cpuCycle b) :=
  Keeps.bind (Keeps.mapM fun i _ => halted_cpuTurn b i) fun _ => Keeps.pure _

def onecycle (clockTicks : Bool → M δ Unit) : M δ Unit := do
  clockTicks (← cpuCycle b)

theorem halted_onecycle {clockTicks : Bool → M δ Unit}
    (hTicks : ∀ billed, Keeps Halted (fun _ _ => True) (clockTicks billed)) :
    Keeps Halted (fun _ _ => True) (onecycle b clockTicks) :=
  Keeps.bind ((halted_cpuCycle b).error fun _ _ _ => trivial) hTicks
end Sys161.Riscv
