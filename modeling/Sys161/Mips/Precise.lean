import Sys161.Mips.FetchPath

/-!
# Precise exceptions

What an instruction has done by the time it posts an exception: nothing to the
general registers, the multiply unit and main memory, the link register of a
branch apart.
-/

namespace Sys161.Mips

open Exec

set_option autoImplicit false

variable {δ α β : Type} (b : Board δ) (i : Nat)

/-- The registers an instruction computes on, the position it is at, and the translations. -/
def Mipscpu.operands (c : Mipscpu) : (Reg → Word) × Word × Word × Word × Bool × Mapping :=
  (c.r, c.hi, c.lo, c.expc, c.inJumpdelay, c.mapping)

structure Untouched (t m : Machine δ) : Prop where
  operands : (m.mycpus i).operands = (t.mycpus i).operands
  ram : m.ram = t.ram

variable {i} in
theorem Untouched.refl (t : Machine δ) : Untouched i t t := ⟨rfl, rfl⟩

variable {i} in
theorem Untouched.trans {t m u : Machine δ} (h : Untouched i t m) (h' : Untouched i m u) :
    Untouched i t u :=
  ⟨h'.operands.trans h.operands, h'.ram.trans h.ram⟩

/-- The last thing that has happened is an exception of the cpu, of a kind that `P` allows. -/
def Raised (P : Exn → Prop) (t u : Machine δ) : Prop :=
  ∃ m e, P e ∧ Untouched i t m ∧ u = m.modCpu i fun c => c.exception b e

variable {b i} in
theorem Untouched.raised {P : Exn → Prop} {t m u : Machine δ} (h : Untouched i t m)
    (h' : Raised b i P m u) : Raised b i P t u := by
  obtain ⟨m', e, he, hm', rfl⟩ := h'
  exact ⟨m', e, he, h.trans hm', rfl⟩

/-- If the program throws it has posted an exception from the state `t`. -/
def Posts (P : Exn → Prop) (t : Machine δ) (e : Stop) (u : Machine δ) : Prop :=
  e = .exception → Raised b i P t u

/-- A program that only looks. -/
def Clean (P : Exn → Prop) (x : M δ α) : Prop :=
  ∀ t, After x (fun _ m => Untouched i t m) (Posts b i P t) t

/-- A program that posts exceptions only as long as it has written nothing. -/
def Precise (P : Exn → Prop) (x : M δ α) : Prop := ∀ t, After x (fun _ _ => True) (Posts b i P t) t

/-- A program that posts no exception. -/
def Quiet (x : M δ α) : Prop := Keeps (fun _ => True) (fun e _ => e ≠ .exception) x

section Rules

variable {b i} {P : Exn → Prop}

theorem Clean.pure (a : α) : Clean b i P (pure a : M δ α) := Untouched.refl

theorem Clean.raise {e : Exn} (he : P e) : Clean b i P (raise b i e : M δ α) := fun t _ =>
  ⟨t, e, he, .refl t, rfl⟩

theorem Clean.bind {x : M δ β} {f : β → M δ α} (hx : Clean b i P x) (hf : ∀ a, Clean b i P (f a)) :
    Clean b i P (x >>= f) := by
  intro t
  rw [after_bind]
  refine (hx t).mono (fun a m hm => ?_) fun _ _ h => h
  exact (hf a m).mono (fun _ _ h => hm.trans h) fun _ _ h he => hm.raised (h he)

theorem Clean.precise {x : M δ α} (hx : Clean b i P x) : Precise b i P x :=
  fun t => (hx t).mono (fun _ _ _ => trivial) fun _ _ h => h

theorem Clean.ite {c : Prop} [Decidable c] {x y : M δ α} (hx : c → Clean b i P x)
    (hy : ¬c → Clean b i P y) : Clean b i P (if c then x else y) := by
  split
  · exact hx ‹_›
  · exact hy ‹_›

theorem Clean.getCpu {f : Mipscpu → M δ α} (hf : ∀ c, Clean b i P (f c)) :
    Clean b i P (Mips.getCpu i >>= f) :=
  Clean.bind (fun t => .refl t) hf

theorem Precise.bind {x : M δ β} {f : β → M δ α} (hx : Clean b i P x)
    (hf : ∀ a, Precise b i P (f a)) : Precise b i P (x >>= f) := by
  intro t
  rw [after_bind]
  refine (hx t).mono (fun a m hm => ?_) fun _ _ h => h
  exact (hf a m).mono (fun _ _ _ => trivial) fun _ _ h he => hm.raised (h he)

theorem Precise.getCpu {f : Mipscpu → M δ α} (hf : ∀ c, Precise b i P (f c)) :
    Precise b i P (Mips.getCpu i >>= f) :=
  Precise.bind (fun t => .refl t) hf

theorem Precise.ite {c : Prop} [Decidable c] {x y : M δ α} (hx : c → Precise b i P x)
    (hy : ¬c → Precise b i P y) : Precise b i P (if c then x else y) := by
  split
  · exact hx ‹_›
  · exact hy ‹_›

theorem Precise.raise {e : Exn} (he : P e) : Precise b i P (Mips.raise b i e : M δ α) :=
  (Clean.raise he).precise

theorem Quiet.precise {x : M δ α} (hx : Quiet x) : Precise b i P x :=
  fun t => (hx t trivial).mono (fun _ _ h => h) fun _ _ h he => absurd he h

theorem Quiet.modify {f : Machine δ → Machine δ} : Quiet (modify f) := fun _ _ => trivial

theorem Quiet.modCpu {f : Mipscpu → Mipscpu} : Quiet (Mips.modCpu i f : M δ Unit) :=
  fun _ _ => trivial

theorem Quiet.setReg {rg : Reg} {val : Word} : Quiet (Mips.setReg i rg val : M δ Unit) :=
  fun _ _ => trivial

theorem Quiet.hang {why : Hang} : Quiet (Mips.hang why : M δ Unit) := fun _ _ => trivial

/-- Exceptions in a part that is tried are taken care of. -/
theorem Quiet.attempt (x : M δ Unit) : Quiet (Mips.attempt x) := by
  intro t _
  rw [after_attempt]
  refine after_of_forall (fun _ _ => trivial) fun e t => ?_
  cases e with
  | exception => trivial
  | smoke msg => exact nofun
  | undefined msg => exact nofun

end Rules

/-! ## Programs that post no exception -/

section Quiet

theorem quiet_precomputeBoth : Quiet (precomputeBoth b i) :=
  Keeps.bind (Quiet.attempt _) fun _ => Keeps.bind (Quiet.attempt _) fun _ => Keeps.pure _

theorem quiet_phonyException : Quiet (phonyException b i) := by
  have hThrow : ∀ msg, Quiet (throw (.smoke msg) : M δ Unit) := fun _ => Keeps.throw fun _ _ => nofun
  refine Keeps.bind Quiet.modCpu fun _ => Keeps.bind (Quiet.attempt _) fun _ =>
    Keeps.ite (fun _ => ?_) fun _ => hThrow _
  exact Keeps.bind (Quiet.attempt _) fun _ => Keeps.ite (fun _ => Keeps.pure _) fun _ => hThrow _

theorem quiet_hangUnless (x : M δ Unit) : Quiet (hangUnless x) :=
  Keeps.bind (Quiet.attempt x) fun _ => Keeps.ite (fun _ => Keeps.pure _) fun _ => Quiet.hang

theorem quiet_cpuSetEntrypoint (addr : Word) : Quiet (cpuSetEntrypoint b i addr) := by
  have hRest : Quiet (do
      let addr := addr &&& 0xfffffffc
      modCpu i fun c =>
        { c with r := Function.update c.r 25 addr, expc := addr, pc := addr, nextpc := addr + 4 }
      hangUnless (precomputePc b i)
      hangUnless (precomputeNextpc b i)) :=
    Keeps.bind Quiet.modCpu fun _ => Keeps.bind (quiet_hangUnless _) fun _ => quiet_hangUnless _
  exact Keeps.ite (fun _ => Keeps.bind Quiet.hang fun _ => hRest) fun _ => hRest

theorem quiet_setCpue (val : Word) : Quiet (setCpue b val) := by
  refine Keeps.forM fun j _ => Keeps.bind Keeps.get fun m => Keeps.ite (fun _ => ?_) fun _ =>
    Keeps.ite (fun _ => ?_) fun _ => Keeps.pure _
  · exact Keeps.bind Quiet.modify fun _ => Keeps.bind Quiet.modCpu fun _ => Quiet.modify
  · exact Keeps.bind (quiet_cpuSetEntrypoint b j _) fun _ => Keeps.bind Quiet.modCpu fun _ =>
      Keeps.bind Quiet.modCpu fun _ => Quiet.modify

theorem quiet_doWait : Quiet (doWait i : M δ Unit) := by
  refine keeps_getCpu i fun c => Keeps.ite (fun _ => ?_) fun _ => Keeps.pure _
  exact Keeps.bind Quiet.modCpu fun _ => Quiet.modify

theorem quiet_checkTlbDups (newix : Nat) : Quiet (checkTlbDups i newix : M δ Unit) :=
  keeps_getCpu i fun _ => Keeps.forM fun _ _ => Keeps.ite (fun _ => Quiet.hang) fun _ => Keeps.pure _

theorem quiet_writetlb (ix : Int) : Quiet (writetlb b i ix) := by
  refine Keeps.ite (fun _ => ?_) fun _ => Keeps.throw fun _ _ => nofun
  exact Keeps.bind Quiet.modCpu fun _ => Keeps.bind (quiet_checkTlbDups i _) fun _ =>
    quiet_precomputeBoth b i

theorem quiet_doRfe : Quiet (doRfe b i) := by
  refine keeps_getCpu i fun c => Keeps.ite (fun _ => Keeps.throw fun _ _ => nofun) fun _ => ?_
  exact Keeps.bind Quiet.modCpu fun _ => quiet_precomputeBoth b i

theorem quiet_probetlb : Quiet (probetlb i : M δ Unit) := by
  refine keeps_getCpu i fun c => ?_
  split <;> exact Quiet.modCpu

end Quiet


/-! ## Translation and memory -/

section Clean

variable {b i} {P : Exn → Prop}

theorem untouched_setCpu {m : Machine δ} {c : Mipscpu}
    (h : c.operands = (m.mycpus i).operands) : Untouched i m (m.setCpu i c) :=
  ⟨by rw [Machine.setCpu_mycpus_self, h], rfl⟩

theorem operands_translated (c : Mipscpu) (vaddr : Word) (iswrite : Bool) :
    (c.translated vaddr iswrite).operands = c.operands := by
  obtain h | h := translated_eq c vaddr iswrite <;> rw [h]
  rfl

theorem raised_setCpu {m : Machine δ} {c : Mipscpu} {e : Exn} (he : P e)
    (h : c.operands = (m.mycpus i).operands) : Raised b i P m (m.setCpu i (c.exception b e)) := by
  refine ⟨m.setCpu i c, e, he, untouched_setCpu h, ?_⟩
  rw [Machine.modCpu, Machine.setCpu_mycpus_self, Machine.setCpu_setCpu]

/-- Address errors and the exceptions of the TLB. -/
def Exn.Mmu (e : Exn) : Prop :=
  match e.code with
  | .mod | .tlbl | .tlbs | .adel | .ades => True
  | _ => False

theorem mmu_of_translate {mp : Mapping} {vaddr : Word} {iswrite : Bool} {e : Exn}
    (h : mp.translate vaddr iswrite = .error e) : e.Mmu := by
  have hWrite : ∀ cn, Exn.Mmu ⟨if iswrite then .ades else .adel, cn, vaddr⟩ ∧
      Exn.Mmu ⟨if iswrite then .tlbs else .tlbl, cn, vaddr⟩ := by
    intro cn
    cases iswrite <;> exact ⟨trivial, trivial⟩
  unfold Mapping.translate at h
  split at h
  · exact Except.error.inj h ▸ (hWrite 0).1
  · split at h
    · cases h
    · unfold mapped at h
      split at h
      · exact Except.error.inj h ▸ (hWrite _).2
      · split at h
        · exact Except.error.inj h ▸ (hWrite 0).2
        · split at h
          · exact Except.error.inj h ▸ trivial
          · cases h

theorem vaddr_of_translate {mp : Mapping} {vaddr : Word} {iswrite : Bool} {e : Exn}
    (h : mp.translate vaddr iswrite = .error e) : e.vaddr = vaddr := by
  unfold Mapping.translate at h
  split at h
  · exact congrArg Exn.vaddr (Except.error.inj h).symm
  · split at h
    · cases h
    · unfold mapped at h
      split at h
      · exact congrArg Exn.vaddr (Except.error.inj h).symm
      · split at h
        · exact congrArg Exn.vaddr (Except.error.inj h).symm
        · split at h
          · exact congrArg Exn.vaddr (Except.error.inj h).symm
          · cases h

theorem clean_translatemem {vaddr : Word} (hP : ∀ e : Exn, e.Mmu → e.vaddr = vaddr → P e)
    (iswrite : Bool) :
    Clean b i P (translatemem b i vaddr iswrite) := by
  intro t
  rw [after_translatemem]
  split
  · exact untouched_setCpu (operands_translated _ _ _)
  · rename_i e he
    exact fun _ => raised_setCpu (hP e (mmu_of_translate he) (vaddr_of_translate he))
      (operands_translated _ _ _)

theorem posts_precomputeNextpc (t : Machine δ)
    (hP : ∀ e, (t.mycpus i).mapping.fetch b (t.mycpus i).nextpc = .error e → P e) :
    After (precomputeNextpc b i) (fun _ m => Untouched i t m) (Posts b i P t) t := by
  rw [after_precomputeNextpc]
  dsimp only
  split
  · exact untouched_setCpu (operands_translated (t.mycpus i) (t.mycpus i).nextpc false)
  · rename_i e he
    exact fun _ => raised_setCpu (hP e he) (operands_translated _ _ _)

variable (b) in
/-- What is wrong with the target of a branch. -/
def BranchFault (mp : Mapping) (addr : Word) (e : Exn) : Prop :=
  addr &&& 0x3 ≠ 0 ∧ e = ⟨.adel, 0, addr⟩ ∨ mp.fetch b addr = .error e

theorem posts_abranch (t : Machine δ) {addr : Word}
    (hP : ∀ e, BranchFault b (t.mycpus i).mapping addr e → P e) :
    After (abranch b i addr) (fun _ m => Untouched i t m) (Posts b i P t) t := by
  unfold abranch
  rw [after_ite]
  split
  · rename_i hAlign
    exact Clean.raise (hP _ (.inl ⟨hAlign, rfl⟩)) t
  rw [after_bind, after_modCpu, after_bind, after_getCpu, after_bind]
  generalize hm : t.modCpu i _ = m
  have hSame : Untouched i t m := by
    rw [← hm]
    exact untouched_setCpu rfl
  have hNext : (m.mycpus i).nextpc = addr := by
    rw [← hm, Machine.modCpu_mycpus_self]
  have hMapping : (m.mycpus i).mapping = (t.mycpus i).mapping :=
    congrArg (fun o => o.2.2.2.2.2) hSame.operands
  cases (m.mycpus i).pcpage with
  | none => exact nofun
  | some page =>
    rw [after_useMap_some, after_ite]
    split
    · exact hSame.trans (untouched_setCpu rfl)
    · refine (posts_precomputeNextpc m fun e he => hP e (.inr ?_)).mono
        (fun _ _ h => hSame.trans h) fun _ _ h he => hSame.raised (h he)
      rw [← hMapping, ← hNext]
      exact he

/-- Two states that differ in what interrupts change. -/
structure SameButIrqs (m m' : Machine δ) : Prop where
  ram : m'.ram = m.ram
  hangs : m'.hangs = m.hangs

theorem cpuSetIrqs_same (m : Machine δ) (j : Nat) (lamebus ipi : Bool) :
    SameButIrqs m (m.cpuSetIrqs j lamebus ipi) := by
  unfold Machine.cpuSetIrqs
  dsimp only
  split
  · exact ⟨rfl, rfl⟩
  · exact ⟨rfl, rfl⟩

variable (b) in
theorem irqupdate_same (m : Machine δ) : SameButIrqs m (m.irqupdate b) := by
  unfold Machine.irqupdate
  generalize m.busRaisedInterrupts &&& m.busEnabledInterrupts = mask
  induction List.range b.ncpus generalizing m with
  | nil => exact ⟨rfl, rfl⟩
  | cons j l ih =>
    rw [List.foldl_cons]
    have hCpu : SameButIrqs m (irqupdateCpu mask m j) := by
      unfold irqupdateCpu
      dsimp only
      split
      · obtain ⟨hRam, hHangs⟩ := cpuSetIrqs_same (m.setLamebusCpu j _) j _ (m.cpus j).cpuIpi
        exact ⟨hRam, hHangs⟩
      · exact ⟨rfl, rfl⟩
    exact ⟨(ih _).ram.trans hCpu.ram, (ih _).hangs.trans hCpu.hangs⟩

/-- Register accesses leave the operands and main memory alone. -/
theorem busKeeps_untouched (t : Machine δ) :
    BusKeeps b (Untouched i t) fun e _ => e ≠ .exception where
  smoke _ _ _ := nofun
  pastCram _ _ := nofun
  hang _ _ hm := ⟨hm.operands, hm.ram⟩
  devices _ _ hm := ⟨hm.operands, hm.ram⟩
  deviceIrq slot raised m _ hm := by
    refine ⟨(deviceIrq_mycpus b (g := Mipscpu.operands) (fun _ _ _ => rfl) m slot raised i).trans
      hm.operands, ?_⟩
    cases raised <;> exact ((irqupdate_same b _).ram).trans hm.ram
  cram _ _ _ hm := ⟨hm.operands, hm.ram⟩
  cirqe _ _ _ _ hm := ⟨(irqupdate_mycpus b (g := Mipscpu.operands) (fun _ _ _ => rfl) _ i).trans
    hm.operands, ((irqupdate_same b _).ram).trans hm.ram⟩
  cipi j _ _ _ hm := ⟨(cpuSetIrqs_mycpus (g := Mipscpu.operands) (fun _ _ _ => rfl) _ j _ _ i).trans
    hm.operands, ((cpuSetIrqs_same _ j _ _).ram).trans hm.ram⟩
  irqe _ _ hm := ⟨(irqupdate_mycpus b (g := Mipscpu.operands) (fun _ _ _ => rfl) _ i).trans
    hm.operands, ((irqupdate_same b _).ram).trans hm.ram⟩

theorem Clean.of_keeps {x : M δ α}
    (hx : ∀ t, Keeps (Untouched i t) (fun e _ => e ≠ .exception) x) : Clean b i P x :=
  fun t => (hx t t (.refl t)).mono (fun _ _ h => h) fun _ _ h he => absurd he h

theorem clean_fetchPhys (paddr : Word) : Clean b i P (fetchPhys b i paddr) :=
  Clean.of_keeps fun t => (busKeeps_untouched t).fetchPhys i paddr

/-- Exceptions that say nothing of an address. -/
def Exn.Plain (e : Exn) : Prop :=
  match e.code with
  | .dbe | .sys | .bp | .ri | .cpu | .ovf => True
  | _ => False

theorem clean_domemFetch (hPlain : ∀ e, e.Plain → e.vaddr = 0 → P e) {vaddr : Word}
    (hData : ∀ e : Exn, e.Mmu → e.vaddr = vaddr → P e) (willbewrite : Bool) :
    Clean b i P (domemFetch b i vaddr willbewrite) := by
  refine Clean.bind (clean_translatemem hData _) fun paddr =>
    Clean.bind (clean_fetchPhys paddr) fun val => ?_
  cases val with
  | none => exact Clean.raise (hPlain _ trivial rfl)
  | some val => exact Clean.pure val

/-- A store that is refused has written nothing. -/
def Refusing (t : Machine δ) (x : M δ Bool) : Prop :=
  After x (fun ok m => ok = false → Untouched i t m) (fun e _ => e ≠ .exception) t

theorem refusing_of_keeps {t : Machine δ} {x : M δ Bool}
    (hx : Keeps (Untouched i t) (fun e _ => e ≠ .exception) x) : Refusing (i := i) t x :=
  (hx t (.refl t)).mono (fun _ _ h _ => h) fun _ _ h => h

theorem refusing_busMemStore (t : Machine δ) (offset val : Word) :
    Refusing (i := i) t (busMemStore b offset val) := by
  unfold Refusing busMemStore
  rw [after_ite]
  split
  · exact fun _ => .refl t
  · exact nofun

theorem refusing_busIoStore (t : Machine δ) (cpunum : Nat) (offset val : Word) :
    Refusing (i := i) t (busIoStore b cpunum offset val) := by
  by_cases hCpue : offset = 0x1f7e14
  · -- The register that starts the cpus is there, or this is an old board.
    subst hCpue
    have hStore : busIoStore b cpunum 0x1f7e14 val = (if b.isold then pure false else do
        setCpue b val
        return true : M δ Bool) := rfl
    unfold Refusing
    rw [hStore, after_ite]
    split
    · exact fun _ => .refl t
    · rw [after_bind]
      exact (quiet_setCpue b val t trivial).mono (fun _ _ _ => nofun) fun _ _ h => h
  · exact refusing_of_keeps ((busKeeps_untouched t).busIoStore cpunum offset val fun h =>
      absurd h hCpue)

theorem refusing_storePhys (t : Machine δ) (paddr val : Word) :
    Refusing (i := i) t (storePhys b i paddr val) := by
  unfold Refusing storePhys
  rw [after_ite]
  split
  · exact refusing_busMemStore t _ _
  rw [after_ite]
  split
  · exact fun _ => .refl t
  rw [after_ite]
  split
  · exact refusing_busIoStore t _ _ _
  · exact refusing_busMemStore t _ _

theorem precise_domemStore (hPlain : ∀ e, e.Plain → e.vaddr = 0 → P e) {vaddr : Word}
    (hData : ∀ e : Exn, e.Mmu → e.vaddr = vaddr → P e) (val : Word) :
    Precise b i P (domemStore b i vaddr val) := by
  refine Precise.bind (clean_translatemem hData _) fun paddr t => ?_
  rw [after_bind]
  refine (refusing_storePhys t paddr val).mono (fun ok m hm => ?_) fun _ _ h he => absurd he h
  cases ok with
  | true => trivial
  | false => exact fun _ => ⟨m, ⟨.dbe, 0, 0⟩, hPlain _ trivial rfl, hm rfl, rfl⟩

end Clean

/-! ## Instructions -/

/-- The register that takes the return address. -/
def linkReg (insn : Word) : Option Reg :=
  match opm insn with
  | .special => if ops insn = .jalr then some (rd insn) else none
  | .bcond => if (rt insn).toNat = 16 ∨ (rt insn).toNat = 17 then some 31 else none
  | .jal => some 31
  | _ => none

/-- The link register is written before the target of the branch is looked at. -/
def Machine.linked (m : Machine δ) (insn : Word) : Machine δ :=
  match linkReg insn with
  | some rg => m.modCpu i fun c => { c with r := Function.update c.r rg c.nextpc }
  | none => m

/-- Where an instruction transfers control to, if it does. -/
def transfer (insn : Word) (c : Mipscpu) : Option Word :=
  let x := c.r (rs insn)
  let branch (cond : Bool) := if cond then some (c.pc + (smm insn <<< 2)) else none
  match opm insn with
  | .special =>
    match ops insn with
    | .jr | .jalr => some x
    | _ => none
  | .bcond =>
    match (rt insn).toNat with
    | 0 | 16 => branch (x.slt 0)
    | 1 | 17 => branch (!x.slt 0)
    | _ => none
  | .j | .jal => some ((c.pc &&& 0xf0000000) ||| (targ insn <<< 2))
  | .beq => branch (x == c.r (rt insn))
  | .bne => branch (x != c.r (rt insn))
  | .blez => branch (x.sle 0)
  | .bgtz => branch (BitVec.slt 0 x)
  | _ => none

/-- The loads and stores, and cache control. -/
def UsesMemory (insn : Word) : Prop :=
  match opm insn with
  | .lb | .lh | .lwl | .lw | .lbu | .lhu | .lwr | .lwc0 => True
  | .sb | .sh | .swl | .sw | .swr | .swc0 | .cache => True
  | _ => False

/-- What an instruction may post an exception for: no address, the word that it loads or stores, or
the target that it transfers control to. -/
inductive Cause (insn : Word) (c : Mipscpu) : Exn → Prop where
  | plain {e : Exn} : e.Plain → e.vaddr = 0 → Cause insn c e
  | data {e : Exn} : UsesMemory insn → e.Mmu →
      e.vaddr &&& 0xfffffffc = needaddr c insn &&& 0xfffffffc → Cause insn c e
  | target {e : Exn} {addr : Word} : transfer insn c = some addr →
      BranchFault b c.mapping addr e → Cause insn c e

section Execute

variable {b i} {insn : Word} {P : Exn → Prop}

theorem quiet_rdOp (f : Word → Word → Word) : Quiet (rdOp i insn f : M δ Unit) :=
  keeps_getCpu i fun _ => Quiet.setReg

theorem quiet_rtOp (f : Word → Word) : Quiet (rtOp i insn f : M δ Unit) :=
  keeps_getCpu i fun _ => Quiet.setReg

theorem quiet_stallOr (wait : Mipscpu → Bool) {x : M δ Unit} (hx : Quiet x) :
    Quiet (stallOr b i wait x) :=
  keeps_getCpu i fun _ => Keeps.ite (fun _ => quiet_phonyException b i) fun _ => hx

theorem quiet_setHilo (f : Word → Word → Word × Word) : Quiet (setHilo b i insn f) :=
  quiet_stallOr _ Quiet.modCpu

section Plain

variable (hPlain : ∀ e, e.Plain → e.vaddr = 0 → P e)

include hPlain

theorem precise_chkovf (rg : Reg) (t64 : BitVec 64) : Precise b i P (chkovf b i rg t64) :=
  Precise.ite (fun _ => Precise.raise (hPlain _ trivial rfl)) fun _ => Quiet.setReg.precise

theorem clean_domf (cn : Word) (reg : Reg) (sel : BitVec 3) : Clean b i P (domf b i cn reg sel) := by
  have hRaise : ∀ e, e.Plain → e.vaddr = 0 → Clean b i P (raise b i e : M δ Word) :=
    fun e he hZero => Clean.raise (hPlain e he hZero)
  refine Clean.getCpu fun c => Clean.ite (fun _ => hRaise _ trivial rfl) fun _ => ?_
  split
  · exact Clean.bind (fun t => untouched_setCpu rfl) fun _ => Clean.pure _
  · split
    · exact Clean.pure _
    · exact hRaise _ trivial rfl
  · exact hRaise _ trivial rfl

theorem precise_domt (cn : Word) (reg : Reg) (sel : BitVec 3) (greg : Word) :
    Precise b i P (domt b i cn reg sel greg) := by
  refine Precise.getCpu fun c => Precise.ite (fun _ => Precise.raise (hPlain _ trivial rfl)) fun _ => ?_
  split
  · refine Precise.ite (fun _ => Quiet.precise ?_) fun _ => Quiet.modCpu.precise
    exact Keeps.bind Quiet.hang fun _ => Quiet.modCpu
  · exact Precise.raise (hPlain _ trivial rfl)

theorem precise_mxCop0 : Precise b i P (mxCop0 b i insn) := by
  unfold mxCop0
  split
  · exact Quiet.modCpu.precise
  · refine Quiet.precise (keeps_getCpu i fun _ => quiet_writetlb b i _)
  · refine Quiet.precise (Keeps.bind Quiet.modCpu fun _ => keeps_getCpu i fun _ => ?_)
    exact quiet_writetlb b i _
  · exact (quiet_probetlb i).precise
  · exact (quiet_doRfe b i).precise
  · exact (quiet_doWait i).precise
  · exact Precise.raise (hPlain _ trivial rfl)

theorem precise_mxCopz : Precise b i P (mxCopz b i insn) := by
  have hRaise : ∀ e, e.Plain → e.vaddr = 0 → Precise b i P (raise b i e : M δ Unit) :=
    fun e he hZero => Precise.raise (hPlain e he hZero)
  refine Precise.getCpu fun c => Precise.ite (fun _ => hRaise _ trivial rfl) fun _ =>
    Precise.ite (fun _ => precise_mxCop0 hPlain) fun _ => ?_
  split
  · exact Precise.bind (clean_domf hPlain _ _ _) fun _ => Quiet.setReg.precise
  · exact hRaise _ trivial rfl
  · exact Precise.getCpu fun _ => precise_domt hPlain _ _ _ _
  · exact hRaise _ trivial rfl
  iterate 2 exact Precise.ite (fun _ => hRaise _ trivial rfl) fun _ => hRaise _ trivial rfl
  · exact hRaise _ trivial rfl

section Data

variable {t : Machine δ} (hData : ∀ e : Exn, e.Mmu →
  e.vaddr &&& 0xfffffffc = needaddr (t.mycpus i) insn &&& 0xfffffffc → P e)

include hData

omit hPlain hData in
theorem storeAddr_word (ms : Memstyles) (addr : Word) :
    storeAddr ms addr &&& 0xfffffffc = addr &&& 0xfffffffc := by
  unfold storeAddr
  split
  iterate 2
    rw [BitVec.and_assoc]
    rfl
  · rw [BitVec.and_assoc, BitVec.and_self]

omit hPlain in
theorem data_rounded {addr : Word} (e : Exn) (hAddr : addr &&& 0xfffffffc =
    needaddr (t.mycpus i) insn &&& 0xfffffffc) (hMmu : e.Mmu) (he : e.vaddr = addr) : P e :=
  hData e hMmu (he ▸ hAddr)

theorem clean_doload (ms : Memstyles) (res : Word) :
    Clean b i P (doload b i ms (needaddr (t.mycpus i) insn) res) := by
  have hWord : ∀ e : Exn, e.Mmu → e.vaddr = needaddr (t.mycpus i) insn &&& 0xfffffffc → P e :=
    fun e => data_rounded hData e (by rw [BitVec.and_assoc, BitVec.and_self])
  have hHalf : ∀ e : Exn, e.Mmu → e.vaddr = needaddr (t.mycpus i) insn &&& 0xfffffffd → P e :=
    fun e => data_rounded hData e (by rw [BitVec.and_assoc]; rfl)
  cases ms with
  | sbyte | ubyte | wordl | wordr =>
    exact Clean.bind (clean_domemFetch hPlain hWord _) fun _ => Clean.pure _
  | shalf | uhalf => exact Clean.bind (clean_domemFetch hPlain hHalf _) fun _ => Clean.pure _

theorem posts_loadOp (ms : Memstyles) :
    After (loadOp b i insn ms) (fun _ _ => True) (Posts b i P t) t := by
  unfold loadOp
  rw [after_bind, after_getCpu]
  have hLoad : Precise b i P (do
      let val ← doload b i ms (needaddr (t.mycpus i) insn) ((t.mycpus i).r (rt insn))
      setReg i (rt insn) val) :=
    Precise.bind (clean_doload hPlain hData _ _) fun _ => Quiet.setReg.precise
  exact hLoad t

theorem posts_storeOp (ms : Memstyles) :
    After (storeOp b i insn ms) (fun _ _ => True) (Posts b i P t) t := by
  have hRounded : ∀ e : Exn, e.Mmu → e.vaddr = storeAddr ms (needaddr (t.mycpus i) insn) → P e :=
    fun e => data_rounded hData e (storeAddr_word ms _)
  have hModify : ∀ f, Precise b i P (modifyWord b i (storeAddr ms (needaddr (t.mycpus i) insn)) f) :=
    fun _ => Precise.bind (clean_domemFetch hPlain hRounded _) fun _ =>
      precise_domemStore hPlain hRounded _
  unfold storeOp
  rw [after_bind, after_getCpu]
  cases ms with
  | sbyte | shalf => exact nofun
  | ubyte | uhalf | wordl | wordr => exact hModify _ t

omit hPlain in
theorem data_exact (e : Exn) (hMmu : e.Mmu) (he : e.vaddr = needaddr (t.mycpus i) insn) : P e :=
  hData e hMmu (by rw [he])

theorem posts_mxLw : After (mxLw b i insn) (fun _ _ => True) (Posts b i P t) t := by
  unfold mxLw
  rw [after_bind, after_getCpu]
  have hLoad : Precise b i P (do
      let val ← domemFetch b i (needaddr (t.mycpus i) insn) false
      setReg i (rt insn) val) :=
    Precise.bind (clean_domemFetch hPlain (data_exact hData) _) fun _ => Quiet.setReg.precise
  exact hLoad t

theorem posts_mxSw : After (mxSw b i insn) (fun _ _ => True) (Posts b i P t) t := by
  unfold mxSw
  rw [after_bind, after_getCpu]
  exact precise_domemStore hPlain (data_exact hData) _ t

theorem posts_mxLl : After (mxLl b i insn) (fun _ _ => True) (Posts b i P t) t := by
  unfold mxLl
  rw [after_bind, after_getCpu]
  have hLoad : Precise b i P (do
      let val ← domemFetch b i (needaddr (t.mycpus i) insn) false
      setReg i (rt insn) val
      modCpu i fun c =>
        { c with
          llActive := true, llAddr := needaddr (t.mycpus i) insn, llValue := c.r (rt insn) }) := by
    refine Precise.bind (clean_domemFetch hPlain (data_exact hData) _) fun val => Quiet.precise ?_
    exact Keeps.bind Quiet.setReg fun _ => Quiet.modCpu
  exact hLoad t

theorem posts_mxSc : After (mxSc b i insn) (fun _ _ => True) (Posts b i P t) t := by
  unfold mxSc
  rw [after_bind, after_getCpu]
  dsimp only
  generalize hc : t.mycpus i = c
  have hExact := data_exact hData
  rw [hc] at hExact
  have hStore : Precise b i P (do
      let temp ← domemFetch b i (needaddr c insn) true
      if temp ≠ c.llValue then
        setReg i (rt insn) 0
      else
        domemStore b i (needaddr c insn) (c.r (rt insn))
        setReg i (rt insn) 1) := by
    refine Precise.bind (clean_domemFetch hPlain hExact _) fun temp =>
      Precise.ite (fun _ => Quiet.setReg.precise) fun _ u => ?_
    rw [after_bind]
    exact (precise_domemStore hPlain hExact _ u).mono (fun _ _ _ => trivial) fun _ _ h => h
  rw [after_ite]
  split
  · trivial
  · exact hStore t

theorem posts_mxCache : After (mxCache b i insn) (fun _ _ => True) (Posts b i P t) t := by
  unfold mxCache
  rw [after_bind, after_getCpu, after_ite]
  split
  · exact Precise.raise (hPlain ⟨.cpu, 0, 0⟩ trivial rfl) t
  rw [after_ite]
  split
  · rw [after_bind]
    exact (clean_translatemem (data_exact hData) _ t).mono (fun _ _ _ => trivial) fun _ _ h => h
  · trivial

end Data

end Plain

section Branch

variable (t : Machine δ)

theorem posts_branchIf {cond : Word → Word → Bool}
    (hP : cond ((t.mycpus i).r (rs insn)) ((t.mycpus i).r (rt insn)) = true → ∀ e,
      BranchFault b (t.mycpus i).mapping ((t.mycpus i).pc + (smm insn <<< 2)) e → P e) :
    After (branchIf b i insn cond) (fun _ _ => True) (Posts b i P t) t := by
  unfold branchIf rbranch
  rw [after_bind, after_getCpu, after_ite]
  split
  · rename_i hTaken
    rw [after_bind, after_getCpu]
    exact (posts_abranch t (hP hTaken)).mono (fun _ _ _ => trivial) fun _ _ h => h
  · trivial

theorem posts_ibranch {target : Word}
    (hP : ∀ e, BranchFault b (t.mycpus i).mapping (((t.mycpus i).pc &&& 0xf0000000) ||| target) e →
      P e) :
    After (ibranch b i target) (fun _ _ => True) (Posts b i P t) t := by
  unfold ibranch
  rw [after_bind, after_getCpu]
  exact (posts_abranch t hP).mono (fun _ _ _ => trivial) fun _ _ h => h

theorem posts_jr (hP : ∀ e, BranchFault b (t.mycpus i).mapping ((t.mycpus i).r (rs insn)) e → P e) :
    After (mxJr b i insn) (fun _ _ => True) (Posts b i P t) t := by
  unfold mxJr
  rw [after_bind, after_getCpu]
  exact (posts_abranch t hP).mono (fun _ _ _ => trivial) fun _ _ h => h

end Branch

section Cause

variable (t : Machine δ)

theorem linked_of_none (hLink : linkReg insn = none) : t.linked i insn = t := by
  simp only [Machine.linked, hLink]

theorem after_branchLinkIf {Q : Unit → Machine δ → Prop} {E : Stop → Machine δ → Prop}
    (cond : Word → Bool) :
    After (branchLinkIf b i insn cond) Q E t ↔ After (branchIf b i insn fun x _ => cond x) Q E
      (t.modCpu i fun c => { c with r := Function.update c.r 31 c.nextpc }) := Iff.rfl

theorem after_mxJal {Q : Unit → Machine δ → Prop} {E : Stop → Machine δ → Prop} :
    After (mxJal b i insn) Q E t ↔ After (ibranch b i (targ insn <<< 2)) Q E
      (t.modCpu i fun c => { c with r := Function.update c.r 31 c.nextpc }) := Iff.rfl

variable {t} in
theorem posts_branch {cond : Word → Word → Bool}
    (hTarget : ∀ e addr, transfer insn (t.mycpus i) = some addr →
      BranchFault b (t.mycpus i).mapping addr e → P e)
    (hTransfer : cond ((t.mycpus i).r (rs insn)) ((t.mycpus i).r (rt insn)) = true →
      transfer insn (t.mycpus i) = some ((t.mycpus i).pc + (smm insn <<< 2))) :
    After (branchIf b i insn cond) (fun _ _ => True) (Posts b i P t) t :=
  posts_branchIf t fun hTaken e he => hTarget e _ (hTransfer hTaken) he

variable {t} (hPlain : ∀ e, e.Plain → e.vaddr = 0 → P e)
variable (hTarget : ∀ e addr, transfer insn ((t.linked i insn).mycpus i) = some addr →
  BranchFault b ((t.linked i insn).mycpus i).mapping addr e → P e)

include hPlain hTarget

theorem posts_executeSpecial (hOp : opm insn = .special) :
    After (executeSpecial b i insn) (fun _ _ => True) (Posts b i P (t.linked i insn)) t := by
  by_cases hLink : ops insn = .jalr
  · have hExec : executeSpecial b i insn = mxJalr b i insn := by simp only [executeSpecial, hLink]
    have hLinked : t.linked i insn =
        t.modCpu i fun c => { c with r := Function.update c.r (rd insn) c.nextpc } := by
      simp only [Machine.linked, linkReg, hOp, hLink, if_true]
    have hJump : transfer insn ((t.linked i insn).mycpus i) =
        some (((t.linked i insn).mycpus i).r (rs insn)) := by simp only [transfer, hOp, hLink]
    rw [hExec]
    rw [hLinked] at hJump hTarget ⊢
    exact posts_jr _ fun e he => hTarget e _ hJump he
  · rw [linked_of_none t (by simp [linkReg, hOp, hLink])] at hTarget ⊢
    unfold executeSpecial
    cases hOps : ops insn
    case jalr => exact absurd hOps hLink
    case jr =>
      refine posts_jr t fun e he => hTarget e _ ?_ he
      simp only [transfer, hOp, hOps]
    case sll | srl | sra => exact (Precise.getCpu fun _ => Quiet.setReg.precise) t
    case syscall => exact Precise.raise (hPlain ⟨.sys, 0, 0⟩ trivial rfl) t
    case «break» => exact Precise.raise (hPlain ⟨.bp, 0, 0⟩ trivial rfl) t
    case ill => exact Precise.raise (hPlain ⟨.ri, 0, 0⟩ trivial rfl) t
    case sync => exact (Clean.pure _).precise t
    case mfhi | mflo | mthi | mtlo => exact (quiet_stallOr _ Quiet.modCpu).precise t
    case mult | multu | divu => exact (quiet_setHilo _).precise t
    case div =>
      have hDiv : Precise b i P (mxDiv b i insn) :=
        Precise.getCpu fun _ => Precise.ite (fun _ _ => nofun) fun _ => (quiet_setHilo _).precise
      exact hDiv t
    case add | sub => exact (Precise.getCpu fun _ => precise_chkovf hPlain _ _) t
    all_goals exact (quiet_rdOp _).precise t

theorem posts_executeBcond (hOp : opm insn = .bcond) :
    After (executeBcond b i insn) (fun _ _ => True) (Posts b i P (t.linked i insn)) t := by
  have hLinked : (rt insn).toNat = 16 ∨ (rt insn).toNat = 17 → t.linked i insn =
      t.modCpu i fun c => { c with r := Function.update c.r 31 c.nextpc } := by
    intro hRt
    simp only [Machine.linked, linkReg, hOp, hRt, if_true]
  have hNone : ¬((rt insn).toNat = 16 ∨ (rt insn).toNat = 17) → t.linked i insn = t := by
    intro hRt
    exact linked_of_none t (by simp [linkReg, hOp, hRt])
  unfold executeBcond
  split
  · rename_i hRt
    rw [hNone (by omega)] at hTarget ⊢
    refine posts_branch hTarget fun hTaken => ?_
    simp only [transfer, hOp, hRt, hTaken, if_true]
  · rename_i hRt
    rw [hNone (by omega)] at hTarget ⊢
    refine posts_branch hTarget fun hTaken => ?_
    simp only [transfer, hOp, hRt, hTaken, if_true]
  · rename_i hRt
    rw [hLinked (by omega)] at hTarget ⊢
    rw [mxBltzal, after_branchLinkIf]
    refine posts_branch hTarget fun hTaken => ?_
    simp only [transfer, hOp, hRt, hTaken, if_true]
  · rename_i hRt
    rw [hLinked (by omega)] at hTarget ⊢
    rw [mxBgezal, after_branchLinkIf]
    refine posts_branch hTarget fun hTaken => ?_
    simp only [transfer, hOp, hRt, hTaken, if_true]
  · rename_i hBltzal hBgezal
    rw [hNone (not_or.mpr ⟨hBltzal, hBgezal⟩)]
    exact Precise.raise (hPlain ⟨.ri, 0, 0⟩ trivial rfl) t

/-- The exceptions that an instruction posts, by the three kinds of causes; it has done nothing
before but to link. -/
theorem execute_posts_of (hData : UsesMemory insn → ∀ e : Exn, e.Mmu →
      e.vaddr &&& 0xfffffffc = needaddr (t.mycpus i) insn &&& 0xfffffffc → P e) :
    After (execute b i insn) (fun _ _ => True) (Posts b i P (t.linked i insn)) t := by
  cases hOp : opm insn
  case special =>
    simp only [execute, hOp]
    exact posts_executeSpecial hPlain hTarget hOp
  case bcond =>
    simp only [execute, hOp]
    exact posts_executeBcond hPlain hTarget hOp
  case jal =>
    have hLinked : t.linked i insn =
        t.modCpu i fun c => { c with r := Function.update c.r 31 c.nextpc } := by
      simp only [Machine.linked, linkReg, hOp]
    have hExec : execute b i insn = mxJal b i insn := by simp only [execute, hOp]
    rw [hLinked] at hTarget ⊢
    rw [hExec, after_mxJal]
    refine posts_ibranch _ fun e he => hTarget e _ ?_ he
    simp only [transfer, hOp]
    rfl
  all_goals
    rw [linked_of_none t (by simp [linkReg, hOp])] at hTarget ⊢
    simp only [execute, hOp]
  case j =>
    refine posts_ibranch t fun e he => hTarget e _ ?_ he
    simp only [transfer, hOp]
    rfl
  case beq | bne | blez | bgtz =>
    refine posts_branch hTarget fun hTaken => ?_
    simp only [transfer, hOp, hTaken, if_true]
  case addi => exact (Precise.getCpu fun _ => precise_chkovf hPlain _ _) t
  case addiu | slti | sltiu | andi | ori | xori => exact (quiet_rtOp _).precise t
  case lui => exact Quiet.setReg.precise t
  case cop => exact precise_mxCopz hPlain t
  case lb | lh | lwl | lbu | lhu | lwr =>
    exact posts_loadOp hPlain (hData (by simp [UsesMemory, hOp])) _
  case lw => exact posts_mxLw hPlain (hData (by simp [UsesMemory, hOp]))
  case sb | sh | swl | swr => exact posts_storeOp hPlain (hData (by simp [UsesMemory, hOp])) _
  case sw => exact posts_mxSw hPlain (hData (by simp [UsesMemory, hOp]))
  case cache => exact posts_mxCache hPlain (hData (by simp [UsesMemory, hOp]))
  case lwc0 => exact posts_mxLl hPlain (hData (by simp [UsesMemory, hOp]))
  case lwc | swc => exact Precise.raise (hPlain ⟨.cpu, cn insn, 0⟩ trivial rfl) t
  case ill => exact Precise.raise (hPlain ⟨.ri, 0, 0⟩ trivial rfl) t
  case swc0 => exact posts_mxSc hPlain (hData (by simp [UsesMemory, hOp]))

omit hPlain hTarget in
variable (t) in
theorem execute_posts :
    After (execute b i insn) (fun _ _ => True)
      (Posts b i (Cause b insn ((t.linked i insn).mycpus i)) (t.linked i insn)) t := by
  refine execute_posts_of (fun _ he hZero => .plain he hZero) (fun _ _ hTo he => .target hTo he)
    fun hMem e hMmu he => .data hMem hMmu ?_
  have hLink : linkReg insn = none := by
    cases hOp : opm insn <;> simp only [UsesMemory, linkReg, hOp] at hMem ⊢
  rw [linked_of_none t hLink]
  exact he

end Cause

end Execute

/-! ## The fetch -/

section Fetch

/-- The instruction word that a cpu fetches. -/
def Fetched (ram : BitVec 30 → Word) (c : Mipscpu) (insn : Word) : Prop :=
  ∃ page, c.pcpage = some page ∧ busUseMap ram page c.pcoff = insn

/-- What is wrong with the address after the next, which is translated where a page begins. -/
structure AheadFault (insn : Word) (c : Mipscpu) (e : Exn) : Prop where
  notRfe : insn ≠ fullopRfe
  page : (c.nextpc + 4) &&& 0xfff = 0
  fetch : c.mapping.fetch b (c.nextpc + 4) = .error e

variable {b i}

theorem posts_advancePc (insn : Word) (t : Machine δ) :
    After (advancePc b i insn) (fun _ _ => True)
      (Posts b i (AheadFault b insn (t.mycpus i)) t) t := by
  unfold advancePc
  rw [after_bind, after_modCpu, after_bind, after_getCpu, after_ite]
  generalize hm : t.modCpu i Mipscpu.advance = m
  have hCpu : m.mycpus i = (t.mycpus i).advance := by rw [← hm, Machine.modCpu_mycpus_self]
  have hSame : Untouched i t m := by
    rw [← hm]
    exact untouched_setCpu rfl
  split
  · rename_i hPage
    rw [after_ite]
    split
    · trivial
    · rename_i hRfe
      rw [hCpu] at hPage
      refine (posts_precomputeNextpc m fun e he => ?_).mono (fun _ _ _ => trivial) fun _ _ h he =>
        hSame.raised (h he)
      rw [hCpu] at he
      exact ⟨hRfe, hPage, he⟩
  · trivial

theorem attempt_raised {P : Exn → Prop} {x : M δ Unit} {t : Machine δ}
    (hx : After x (fun _ _ => True) (Posts b i P t) t) :
    After (attempt x) (fun ok u => ok = false → Raised b i P t u) (fun _ _ => True) t := by
  rw [after_attempt]
  refine hx.mono (fun _ _ _ => nofun) fun e u h => ?_
  cases e with
  | exception => exact fun _ => h rfl
  | smoke msg => trivial
  | undefined msg => trivial

/-- Where the address ahead does not translate, nothing has been done but what starts a cycle. -/
theorem issue_fault (m : Machine δ) :
    After (issue b i)
      (fun is u => is = .fault → ∃ insn, Fetched m.ram ((m.mycpus i).startCycle b) insn ∧
        Raised b i (AheadFault b insn ((m.mycpus i).startCycle b))
          (m.modCpu i fun c => c.startCycle b) u)
      (fun _ _ => True) m := by
  unfold issue countCycle
  rw [after_bind, after_getCpu, after_ite]
  split
  · exact nofun
  rw [after_bind, after_modCpu, after_bind, after_modify]
  generalize hm₁ : Machine.countStats _ _ _ = m₁
  have hCpu : m₁.mycpus i = (m.mycpus i).startCycle b := by
    rw [← hm₁]
    exact Machine.modCpu_mycpus_self m i _
  have hStart : Untouched i (m.modCpu i fun c => c.startCycle b) m₁ := by
    rw [← hm₁]
    exact ⟨rfl, rfl⟩
  unfold fetch
  rw [after_bind, after_getCpu, after_bind]
  have hRam : m₁.ram = m.ram := by rw [← hm₁]; rfl
  rw [hCpu, hRam.symm]
  cases hPage : ((m.mycpus i).startCycle b).pcpage with
  | none => trivial
  | some page =>
    rw [after_useMap_some, after_bind]
    refine (attempt_raised (posts_advancePc _ m₁)).mono (fun ok u hu => ?_) fun _ _ _ => trivial
    rw [after_ite]
    split
    · rw [after_bind, after_modCpu, after_bind, after_get, after_bind, after_getCpu, after_ite]
      split
      · rw [after_bind]
        exact after_of_forall (fun _ _ => nofun) fun _ _ => trivial
      · exact nofun
    · rename_i hFailed
      rw [hCpu] at hu
      exact fun _ => ⟨_, ⟨page, hPage, rfl⟩, hStart.raised (hu (by simpa using hFailed))⟩

end Fetch

/-! ## Turns -/

/-- Cpu `i` executes an instruction in its turn, from the state `t` to its end in `u`. -/
def Completes (m : Machine δ) (insn : Word) (t u : Machine δ) : Prop :=
  (issue b i).run m = .ok (.insn insn) t ∧ (execute b i insn).run t = .ok () u

/-- The same for an instruction that posts an exception. -/
def Faults (m : Machine δ) (insn : Word) (t u : Machine δ) : Prop :=
  (issue b i).run m = .ok (.insn insn) t ∧ (execute b i insn).run t = .error .exception u

/-- The end of a cycle. -/
def Machine.ticked (u m' : Machine δ) : Prop :=
  ∃ sp, m' = { u.modCpu i Mipscpu.tick with sPercpu := sp }

variable {b i}

theorem Machine.ticked.cpu {u m' : Machine δ} (h : u.ticked i m') :
    m'.mycpus i = (u.mycpus i).tick := by
  obtain ⟨sp, rfl⟩ := h
  exact Machine.modCpu_mycpus_self u i _

theorem Machine.ticked.ram {u m' : Machine δ} (h : u.ticked i m') : m'.ram = u.ram := by
  obtain ⟨sp, rfl⟩ := h
  rfl

theorem retire_ticked {u : Machine δ} (retirePc : Word) (retireUsermode : Bool) :
    After (retire i retirePc retireUsermode) (fun _ m' => u.ticked i m') (fun _ _ => False)
      (u.modCpu i Mipscpu.tick) := by
  unfold retire
  rw [after_bind, after_getCpu, after_ite]
  split
  · exact ⟨_, rfl⟩
  · exact ⟨u.sPercpu, rfl⟩

/-- A turn ends with the issue, or an instruction is executed, which completes or faults. -/
theorem turn_inv {m m' : Machine δ} {stopped : Bool} (hTurn : (cpuTurn b i).run m = .ok stopped m') :
    (∃ is, (issue b i).run m = .ok is m' ∧ ∀ insn, is ≠ .insn insn) ∨
      ∃ insn t u, (Completes b i m insn t u ∨ Faults b i m insn t u) ∧ u.ticked i m' := by
  suffices hAfter : After (cpuTurn b i) (fun _ m' =>
      (∃ is, (issue b i).run m = .ok is m' ∧ ∀ insn, is ≠ .insn insn) ∨
      ∃ insn t u, (Completes b i m insn t u ∨ Faults b i m insn t u) ∧ u.ticked i m')
      (fun _ _ => True) m by
    have hInv := after_of_run_ok hAfter hTurn
    exact hInv
  have hRuns : ∀ {α : Type} (x : M δ α) (t : Machine δ),
      After x (fun a u => x.run t = .ok a u) (fun e u => x.run t = .error e u) t := fun x t =>
    (after_run (after_of_forall (Q := fun _ _ => True) (E := fun _ _ => True) (fun _ _ => trivial)
      fun _ _ => trivial)).mono (fun _ _ h => h.2) fun _ _ h => h.2
  unfold cpuTurn
  rw [after_bind]
  refine (hRuns (issue b i) m).mono ?_ fun _ _ _ => trivial
  rintro (_ | _ | _ | insn) t hIssue
  · exact .inl ⟨_, hIssue, nofun⟩
  · exact .inl ⟨_, hIssue, nofun⟩
  · exact .inl ⟨_, hIssue, nofun⟩
  · dsimp only
    unfold complete
    rw [after_bind, after_bind, after_getCpu, after_bind, after_attempt]
    refine (hRuns (execute b i insn) t).mono (fun _ u hExec => ?_) fun e u hExec => ?_
    · rw [after_bind, after_modCpu]
      refine (retire_ticked _ _).mono (fun _ m' hEnd => ?_) fun _ _ h => h.elim
      exact .inr ⟨insn, t, u, .inl ⟨hIssue, hExec⟩, hEnd⟩
    · cases e with
      | exception =>
        rw [caught, after_bind, after_modCpu]
        refine (retire_ticked _ _).mono (fun _ m' hEnd => ?_) fun _ _ h => h.elim
        exact .inr ⟨insn, t, u, .inr ⟨hIssue, hExec⟩, hEnd⟩
      | smoke msg => trivial
      | undefined msg => trivial

/-- A turn that issues an instruction ends with what has come of it. -/
theorem turn_ticked {m m' t : Machine δ} {stopped : Bool} {insn : Word}
    (hTurn : (cpuTurn b i).run m = .ok stopped m') (hIssue : (issue b i).run m = .ok (.insn insn) t) :
    ∃ u, ((execute b i insn).run t = .ok () u ∨ (execute b i insn).run t = .error .exception u) ∧
      u.ticked i m' := by
  obtain ⟨is, hOther, hNone⟩ | ⟨insn', t', u, hExec, hEnd⟩ := turn_inv hTurn
  · exact absurd (EStateM.Result.ok.inj (hIssue.symm.trans hOther)).1.symm (hNone insn)
  · have hSame : (issue b i).run m = .ok (.insn insn') t' := by
      obtain h | h := hExec
      · exact h.1
      · exact h.1
    obtain ⟨hInsn, rfl⟩ := EStateM.Result.ok.inj (hIssue.symm.trans hSame)
    obtain rfl := Issue.insn.inj hInsn
    exact ⟨u, hExec.imp And.right And.right, hEnd⟩

theorem Completes.ticked {m m' t u : Machine δ} {stopped : Bool} {insn : Word}
    (h : Completes b i m insn t u) (hTurn : (cpuTurn b i).run m = .ok stopped m') :
    u.ticked i m' := by
  obtain ⟨u', hExec | hExec, hEnd⟩ := turn_ticked hTurn h.1
  · obtain ⟨-, rfl⟩ := EStateM.Result.ok.inj (hExec.symm.trans h.2)
    exact hEnd
  · cases hExec.symm.trans h.2

theorem Faults.ticked {m m' t u : Machine δ} {stopped : Bool} {insn : Word}
    (h : Faults b i m insn t u) (hTurn : (cpuTurn b i).run m = .ok stopped m') :
    u.ticked i m' := by
  obtain ⟨u', hExec | hExec, hEnd⟩ := turn_ticked hTurn h.1
  · cases hExec.symm.trans h.2
  · obtain ⟨-, rfl⟩ := EStateM.Result.error.inj (hExec.symm.trans h.2)
    exact hEnd

end Sys161.Mips
