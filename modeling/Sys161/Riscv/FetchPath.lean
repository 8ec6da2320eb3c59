import Sys161.Riscv.Stores

/-!
# Where the cpus fetch

What every way to move the pc leaves behind: the page of the pc has been looked
up, or the cpu has only moved on within it. A cpu that is started is looked up
in the middle of a turn of another one, and the page tables may change around
that moment.
-/

namespace Sys161.Riscv

open Exec Runs
open Mips (Board Page)

set_option autoImplicit false

variable {δ : Type} (b : Board δ) (i : Nat)

namespace Riscvcpu

variable (c : Riscvcpu)

/-- The addresses that the cpu keeps are those of instructions. -/
def Sound : Prop := c.stvec &&& 0x3 = 0 ∧ c.sepc &&& 0x1 = 0 ∧ c.CacheAligned

/-- `pcoff` is where the pc is in its page. -/
def Here : Prop := c.pc &&& 0x1 = 0 ∧ c.pcoff = c.pc &&& 0xfff

/-- The page of the pc is the one that it is translated to. -/
def Looked (ram : BitVec 30 → Word) : Prop :=
  c.Here ∧ c.pcpage ≠ none ∧ c.codePage b ram c.pc = c.pcpage

/-- The cpu is about to go on with the instruction at its pc. -/
def Jumped (ram : BitVec 30 → Word) : Prop :=
  c.Looked b ram ∧ c.nextpc = c.pc ∧ c.nextpcoff = c.pcoff

/-- A cpu but for what fetching does not depend on. -/
def still : Riscvcpu :=
  { c.core with
    x := fun _ => 0, lrActive := false, lrAddr := 0, lrValue := 0, irqTimer := false
    cyclecount := 0, cycletrigger := 0, hitBreakpoint := false }

theorem still_congr {c c' : Riscvcpu} (h : c.still = c'.still) {β : Sort*} (g : Riscvcpu → β)
    (hg : ∀ c : Riscvcpu, g c.still = g c) : g c = g c' := by
  rw [← hg c, h, hg]

theorem still_setX (rd : Reg) (val : Word) : (c.setX rd val).still = c.still := by
  unfold setX
  split <;> rfl

theorem Sound.fill {c : Riscvcpu} (h : c.Sound) (vaddr : Word) (leaf : Leaf) :
    (c.fill vaddr leaf).Sound := by
  obtain ⟨hStvec, hSepc, hCache⟩ := h
  refine ⟨?_, ?_, hCache.fill⟩
  · unfold Riscvcpu.fill
    split <;> exact hStvec
  · unfold Riscvcpu.fill
    split <;> exact hSepc

theorem fill_toFetchState (vaddr : Word) (leaf : Leaf) :
    (c.fill vaddr leaf).toFetchState = c.toFetchState := by
  unfold fill
  split <;> rfl

end Riscvcpu

/-! ## Looking up the page of the pc -/

/-- A stop that no trap is taken for. -/
def Fatal (e : Stop) (_ : Machine δ) : Prop := ∀ tr, e ≠ .trap tr

/-- `K` says nothing about one of the cpus, and nothing about the lines of the others. -/
structure Apart (K : Machine δ → Prop) : Prop where
  bus : BusBlind K
  own : ∀ m c, K m → K (m.setCpu i c)

theorem Apart.modCpu {i : Nat} {K : Machine δ → Prop} (hK : Apart i K) {m : Machine δ} (hm : K m)
    (f : Riscvcpu → Riscvcpu) : K (m.modCpu i f) := hK.own m _ hm

section Lookup

variable {b i} {K : Machine δ → Prop} (hK : Apart i K)

include hK

/-- A lookup of the page, or a fault that leaves the pc. -/
theorem Apart.precomputePc {m : Machine δ} (hm : K m) (hSound : (m.mycpus i).Sound)
    (hEven : (m.mycpus i).pc &&& 0x1 = 0) :
    After (Riscv.precomputePc b i)
      (fun _ t => K t ∧ (t.mycpus i).Sound ∧ (t.mycpus i).Looked b t.ram ∧
        (t.mycpus i).pc = (m.mycpus i).pc ∧ (t.mycpus i).nextpc = (m.mycpus i).nextpc ∧
        (t.mycpus i).nextpcoff = (t.mycpus i).pcoff)
      (fun _ t => K t ∧ (t.mycpus i).Sound ∧ (t.mycpus i).pc = (m.mycpus i).pc ∧
        (t.mycpus i).nextpc = (m.mycpus i).nextpc) m := by
  have hBus : BusBlind fun t => K t ∧ (t.mycpus i).Sound ∧
      (t.mycpus i).nextpc = (m.mycpus i).nextpc := by
    rintro t u hu ⟨ht, hSound, hNext⟩
    refine ⟨hK.bus t u hu ht, ?_, ?_⟩
    · rwa [hu.congr Riscvcpu.Sound (fun _ => rfl) i]
    · rw [hu.congr (fun c => c.nextpc) (fun _ => rfl) i, hNext]
  have hFill : FillBlind i fun t => K t ∧ (t.mycpus i).Sound ∧
      (t.mycpus i).nextpc = (m.mycpus i).nextpc := by
    rintro vaddr leaf t ⟨ht, hSound, hNext⟩
    refine ⟨hK.modCpu ht _, ?_, ?_⟩
    · rw [Machine.modCpu_mycpus_self]
      exact hSound.fill vaddr leaf
    · rw [Machine.modCpu_mycpus_self, ← hNext]
      exact congrArg FetchState.nextpc (Riscvcpu.fill_toFetchState _ _ _)
  refine (after_precomputePc b i hBus hFill ⟨hm, hSound, rfl⟩).mono ?_ ?_
  · rintro ⟨⟩ _ ⟨t, physpc, ⟨ht, hSound', hNext⟩, hPc, hPage, hMapped, rfl⟩
    have hOffset : physpc &&& 0xfff = (m.mycpus i).pc &&& 0xfff :=
      Riscvcpu.offset_translation b hSound'.2.2 hPage
    refine ⟨hK.modCpu ht _, ?_, ?_, ?_, ?_, ?_⟩
    · rw [Machine.modCpu_mycpus_self]
      exact hSound'
    · rw [Machine.modCpu_mycpus_self]
      refine ⟨⟨?_, ?_⟩, hMapped, ?_⟩
      · change (t.mycpus i).pc &&& 0x1 = 0
        rw [hPc, hEven]
      · change physpc &&& 0xfff = (t.mycpus i).pc &&& 0xfff
        rw [hPc, hOffset]
      · change (t.mycpus i).codePage b t.ram (t.mycpus i).pc = mapmem b physpc
        rw [hPc, Riscvcpu.codePage, hPage]
    · rw [Machine.modCpu_mycpus_self, ← hPc]
      rfl
    · rw [Machine.modCpu_mycpus_self, ← hNext]
      rfl
    · rw [Machine.modCpu_mycpus_self]
      rfl
  · rintro e _ ⟨-, t, page, ⟨ht, hSound', hNext⟩, hPc, rfl⟩
    refine ⟨hK.modCpu ht _, ?_⟩
    rw [Machine.modCpu_mycpus_self]
    exact ⟨hSound', hPc, hNext⟩

/-- A trap leads to the handler. -/
theorem Apart.trap {m : Machine δ} (tr : Trap) (hm : K m) (hSound : (m.mycpus i).Sound)
    (hEven : (m.mycpus i).pc &&& 0x1 = 0) :
    After (Riscv.trap b i tr)
      (fun _ t => K t ∧ (t.mycpus i).Sound ∧ (t.mycpus i).Jumped b t.ram ∧
        (t.mycpus i).pc &&& 0x3 = 0) Fatal m := by
  have hCrash : ∀ tr, Stop.crashdie ≠ .trap tr := fun _ h => nomatch h
  refine after_trap b i tr (fun _ => hCrash) fun _ => ?_
  have hEnter : ((m.mycpus i).enterTrap tr).Sound := ⟨hSound.1, hEven, hSound.2.2⟩
  have hStvec : (m.mycpus i).stvec &&& 0x1 = 0 := even_of_aligned hSound.1
  refine (hK.precomputePc (hK.modCpu hm fun c => c.enterTrap tr) ?_ ?_).mono ?_ ?_
  · rw [Machine.modCpu_mycpus_self]
    exact hEnter
  · rw [Machine.modCpu_mycpus_self]
    exact hStvec
  · rintro ⟨⟩ t ⟨ht, hSound', hLooked, hPc, hNext, hOff⟩
    rw [Machine.modCpu_mycpus_self] at hPc hNext
    refine ⟨ht, hSound', ⟨hLooked, ?_, hOff⟩, ?_⟩
    · rw [hNext, hPc]
      rfl
    · rw [hPc]
      exact hSound.1
  · rintro e t -
    cases e with
    | trap tr => exact hCrash
    | crashdie | smoke | undefined => exact fun _ h => nomatch h

/-- A lookup whose fault is taken. -/
theorem Apart.attemptPc {m : Machine δ} (hm : K m) (hSound : (m.mycpus i).Sound)
    (hEven : (m.mycpus i).pc &&& 0x1 = 0) :
    After (attempt b i (Riscv.precomputePc b i))
      (fun found t => K t ∧ (t.mycpus i).Sound ∧ (t.mycpus i).Looked b t.ram ∧
        if found then (t.mycpus i).pc = (m.mycpus i).pc ∧
          (t.mycpus i).nextpc = (m.mycpus i).nextpc ∧
          (t.mycpus i).nextpcoff = (t.mycpus i).pcoff
        else (t.mycpus i).Jumped b t.ram) Fatal m := by
  rw [after_attempt]
  refine (hK.precomputePc hm hSound hEven).mono ?_ ?_
  · rintro ⟨⟩ t ⟨ht, hSound', hLooked, hRest⟩
    exact ⟨ht, hSound', hLooked, hRest⟩
  · rintro e t ⟨ht, hSound', hPc, -⟩
    cases e with
    | trap tr =>
      refine (hK.trap tr ht hSound' (by rw [hPc, hEven])).mono ?_ fun _ _ he => he
      rintro ⟨⟩ u ⟨hu, hSound'', hJumped, -⟩
      exact ⟨hu, hSound'', hJumped.1, hJumped⟩
    | crashdie | smoke | undefined => exact fun _ h => nomatch h

/-- Whatever the entry point, the page of the pc is looked up. -/
theorem Apart.cpuSetEntrypoint {m : Machine δ} (addr : Word) (hm : K m)
    (hSound : (m.mycpus i).Sound) :
    After (Riscv.cpuSetEntrypoint b i addr)
      (fun _ t => K t ∧ (t.mycpus i).Sound ∧ (t.mycpus i).Looked b t.ram) Fatal m := by
  have hHung : ∀ t : Machine δ, K t → (t.mycpus i).Sound → ∀ why, K (t.hung why) ∧
      ((t.hung why).mycpus i).Sound := by
    exact fun t ht hSound why => ⟨hK.bus t _ (Bused.hung t why) ht, hSound⟩
  have hRest : ∀ pc : Word, pc &&& 0x1 = 0 → ∀ t, K t → (t.mycpus i).Sound →
      After (do
        Riscv.modCpu i fun c => { c with pc := pc }
        if ← attempt b i (Riscv.precomputePc b i) then
          pure ()
        else
          hang .entryInvalid)
        (fun _ t => K t ∧ (t.mycpus i).Sound ∧ (t.mycpus i).Looked b t.ram) Fatal t := by
    intro pc hPc t ht hSound
    rw [after_bind, after_modCpu, after_bind]
    refine (hK.attemptPc (hK.modCpu ht fun c => { c with pc := pc }) ?_ ?_).mono ?_ fun _ _ he => he
    · rwa [Machine.modCpu_mycpus_self]
    · rwa [Machine.modCpu_mycpus_self]
    · rintro found u ⟨hu, hSound', hLooked, -⟩
      cases found with
      | true => exact ⟨hu, hSound', hLooked⟩
      | false => exact ⟨(hHung u hu hSound' _).1, hSound', hLooked⟩
  unfold Riscv.cpuSetEntrypoint
  rw [after_bind, after_getCpu]
  dsimp only
  have hEven : addr &&& (if (m.mycpus i).cext = true then 0xfffffffe else 0xfffffffc) &&& 0x1 =
      0 := by
    rw [BitVec.and_assoc]
    split <;> simp
  generalize (if (m.mycpus i).cext = true then (0xfffffffe : Word) else 0xfffffffc) = alignmask
    at hEven ⊢
  rw [after_ite]
  split
  · rw [after_bind, after_hang]
    exact hRest _ hEven _ (hHung m hm hSound _).1 hSound
  · exact hRest _ hEven m hm hSound

end Lookup

/-! ## The other cpus -/

section Beside

variable (m₀ : Machine δ)

/-- A cpu that the turn of another one has left where it was, or has started while main memory was
one that `R` allows. -/
def Riscvcpu.Besides (c₀ : Riscvcpu) (R : (BitVec 30 → Word) → Prop) (c : Riscvcpu) : Prop :=
  c.Sound ∧ ((c.pc = c₀.pc ∧ c.pcoff = c₀.pcoff ∧ c.pcpage = c₀.pcpage) ∨
    ∃ ram, R ram ∧ c.Looked b ram)

def Beside (R : (BitVec 30 → Word) → Prop) (t : Machine δ) : Prop :=
  ∀ j, j ≠ i → (m₀.mycpus j).Besides b R (t.mycpus j)

/-- Before the first word of a store. -/
def BesideBefore (t : Machine δ) : Prop :=
  t.ram = m₀.ram ∧ t.gdbReady = m₀.gdbReady ∧ Beside b i m₀ (fun _ => False) t

/-- After the first word. -/
def BesideBetween (t : Machine δ) : Prop := Beside b i m₀ (fun ram => ram = m₀.ram) t

def BesideAfter (t : Machine δ) : Prop :=
  Beside b i m₀ (fun ram => ram = m₀.ram ∨ ram = t.ram) t

variable {b i m₀}

theorem Beside.mono {R R' : (BitVec 30 → Word) → Prop} (hR : ∀ ram, R ram → R' ram)
    {t : Machine δ} (h : Beside b i m₀ R t) : Beside b i m₀ R' t := by
  intro j hj
  obtain ⟨hSound, hSame | ⟨ram, hRam, hLooked⟩⟩ := h j hj
  · exact ⟨hSound, .inl hSame⟩
  · exact ⟨hSound, .inr ⟨ram, hR ram hRam, hLooked⟩⟩

theorem Beside.bus {R : (BitVec 30 → Word) → Prop} {t u : Machine δ} (hu : Bused t u)
    (h : Beside b i m₀ R t) : Beside b i m₀ R u := by
  intro j hj
  rw [hu.congr (fun c => (m₀.mycpus j).Besides b R c) (fun _ => rfl) j]
  exact h j hj

theorem Beside.own {R : (BitVec 30 → Word) → Prop} {t : Machine δ} (c : Riscvcpu)
    (h : Beside b i m₀ R t) : Beside b i m₀ R (t.setCpu i c) := by
  intro j hj
  rw [Machine.setCpu_mycpus_ne t c hj]
  exact h j hj

theorem apart_before : Apart i (BesideBefore b i m₀) where
  bus _ _ hu ht := ⟨hu.ram.trans ht.1, hu.gdbReady.trans ht.2.1, ht.2.2.bus hu⟩
  own _ c ht := ⟨ht.1, ht.2.1, ht.2.2.own c⟩

theorem apart_between : Apart i (BesideBetween b i m₀) where
  bus _ _ hu ht := Beside.bus hu ht
  own _ c ht := Beside.own c ht

theorem apart_after : Apart i (BesideAfter b i m₀) where
  bus t u hu ht := by
    unfold BesideAfter
    rw [hu.ram]
    exact Beside.bus hu ht
  own _ c ht := Beside.own c ht

theorem BesideBefore.between {t : Machine δ} (h : BesideBefore b i m₀ t) :
    BesideBetween b i m₀ t := h.2.2.mono fun _ hFalse => hFalse.elim

/-- A cpu of its own in the middle of an instruction. -/
def Own (i : Nat) (f₀ : FetchState) (t : Machine δ) : Prop :=
  (t.mycpus i).Sound ∧ (t.mycpus i).toFetchState = f₀

theorem Own.bus {f₀ : FetchState} {t u : Machine δ} (hu : Bused t u) (h : Own i f₀ t) :
    Own i f₀ u := by
  refine ⟨?_, ?_⟩
  · rw [hu.congr Riscvcpu.Sound (fun _ => rfl) i]
    exact h.1
  · rw [hu.congr Riscvcpu.toFetchState (fun _ => rfl) i]
    exact h.2

theorem Own.fill {f₀ : FetchState} {t : Machine δ} (vaddr : Word) (leaf : Leaf) (h : Own i f₀ t) :
    Own i f₀ (t.modCpu i fun c => c.fill vaddr leaf) := by
  unfold Own
  rw [Machine.modCpu_mycpus_self, Riscvcpu.fill_toFetchState]
  exact ⟨h.1.fill vaddr leaf, h.2⟩

theorem Own.other {f₀ : FetchState} {t : Machine δ} {k : Nat} (hk : i ≠ k) (c : Riscvcpu)
    (h : Own i f₀ t) : Own i f₀ (t.setCpu k c) := by
  unfold Own
  rw [Machine.setCpu_mycpus_ne t c hk]
  exact h

theorem mycpus_modCpu (t : Machine δ) (j k : Nat) (f : Riscvcpu → Riscvcpu) :
    (t.modCpu k f).mycpus j = if j = k then f (t.mycpus k) else t.mycpus j := by
  simp [Machine.modCpu, Machine.setCpu, Function.update_apply]

theorem Own.still {f₀ : FetchState} {t : Machine δ} {k : Nat} {f : Riscvcpu → Riscvcpu}
    (hf : ∀ c : Riscvcpu, (f c).still = c.still) (h : Own i f₀ t) : Own i f₀ (t.modCpu k f) := by
  unfold Own
  rw [mycpus_modCpu]
  split
  · rename_i hk
    rw [← hk]
    exact (Riscvcpu.still_congr (hf _) (fun c => c.Sound ∧ c.toFetchState = f₀) fun _ => rfl).mpr h
  · exact h

theorem Beside.still {R : (BitVec 30 → Word) → Prop} {t : Machine δ} {k : Nat}
    {f : Riscvcpu → Riscvcpu} (hf : ∀ c : Riscvcpu, (f c).still = c.still) (h : Beside b i m₀ R t) :
    Beside b i m₀ R (t.modCpu k f) := by
  intro j hj
  rw [mycpus_modCpu]
  split
  · rename_i hk
    rw [← hk]
    exact (Riscvcpu.still_congr (hf _) ((m₀.mycpus j).Besides b R) fun _ => rfl).mpr (h j hj)
  · exact h j hj

/-- The cpu that writes `CPUE` does not start itself, and those that it does start are looked up in
main memory as it is. -/
theorem after_setCpue (R R' : (BitVec 30 → Word) → Prop) (hR : ∀ ram, R ram → R' ram)
    {val : Word} {f₀ : FetchState} {m : Machine δ} (hRam : R' m.ram) (hOwn : Own i f₀ m)
    (hBeside : Beside b i m₀ R m)
    (hFlag : val.getLsbD i = true → (m.cpus i).cpuEnabled = true) :
    After (setCpue b val) (fun _ t => t.ram = m.ram ∧ Own i f₀ t ∧ Beside b i m₀ R' t) Fatal m := by
  let L (t : Machine δ) : Prop := t.ram = m.ram ∧ Own i f₀ t ∧ Beside b i m₀ R' t ∧
    (val.getLsbD i = true → (t.cpus i).cpuEnabled = true)
  have hBus : BusBlind L := by
    rintro t u hu ⟨htRam, htOwn, htBeside, htFlag⟩
    refine ⟨hu.ram.trans htRam, htOwn.bus hu, htBeside.bus hu, ?_⟩
    rw [hu.enabled]
    exact htFlag
  have hStill : ∀ k t f, (∀ c : Riscvcpu, (f c).still = c.still) → L t → L (t.modCpu k f) := by
    rintro k t f hf ⟨htRam, htOwn, htBeside, htFlag⟩
    exact ⟨htRam, htOwn.still hf, htBeside.still hf, htFlag⟩
  have hKeep : Keeps L Fatal (setCpue b val) := by
    refine keeps_setCpue b val hBus (fun k t _ => hStill k t _ fun _ => rfl)
      (fun k t _ _ => hStill k t _ fun _ => rfl) ?_ ?_
    · rintro k t hOff ⟨htRam, htOwn, htBeside, htFlag⟩
      refine ⟨htRam, htOwn, htBeside, fun hOn => ?_⟩
      have hk : i ≠ k := by
        rintro rfl
        rw [hOff] at hOn
        cases hOn
      change (Function.update t.cpus k _ i).cpuEnabled = true
      rw [Function.update_of_ne hk]
      exact htFlag hOn
    · rintro k t pcva hOn hOff ⟨htRam, htOwn, htBeside, htFlag⟩
      have hk : i ≠ k := by
        rintro rfl
        rw [htFlag hOn] at hOff
        cases hOff
      let K (u : Machine δ) : Prop := u.ram = m.ram ∧ Own i f₀ u ∧
        (∀ j, j ≠ i → j ≠ k → (m₀.mycpus j).Besides b R' (u.mycpus j)) ∧
        (val.getLsbD i = true → (u.cpus i).cpuEnabled = true)
      have hK : Apart k K := by
        constructor
        · rintro u w hw ⟨huRam, huOwn, huBeside, huFlag⟩
          refine ⟨hw.ram.trans huRam, huOwn.bus hw, ?_, ?_⟩
          · intro j hj hjk
            rw [hw.congr (fun c => (m₀.mycpus j).Besides b R' c) (fun _ => rfl) j]
            exact huBeside j hj hjk
          · rw [hw.enabled]
            exact huFlag
        · rintro u c ⟨huRam, huOwn, huBeside, huFlag⟩
          refine ⟨huRam, huOwn.other hk c, ?_, huFlag⟩
          intro j hj hjk
          rw [Machine.setCpu_mycpus_ne u c hjk]
          exact huBeside j hj hjk
      refine (hK.cpuSetEntrypoint pcva ⟨htRam, htOwn, fun j hj _ => htBeside j hj, htFlag⟩
        (htBeside k hk.symm).1).mono ?_ fun _ _ he => he
      rintro ⟨⟩ u ⟨⟨huRam, huOwn, huBeside, huFlag⟩, hSound, hLooked⟩
      refine ⟨huRam, huOwn, ?_, huFlag⟩
      intro j hj
      by_cases hjk : j = k
      · subst hjk
        exact ⟨hSound, .inr ⟨u.ram, by rwa [huRam], hLooked⟩⟩
      · exact huBeside j hj hjk
  refine (hKeep m ⟨rfl, hOwn, hBeside.mono hR, hFlag⟩).mono ?_ fun _ _ he => he
  rintro ⟨⟩ t ⟨htRam, htOwn, htBeside, -⟩
  exact ⟨htRam, htOwn, htBeside⟩

theorem BesideBetween.after {t : Machine δ} (h : BesideBetween b i m₀ t) :
    BesideAfter b i m₀ t := Beside.mono (fun _ => .inl) h

end Beside

/-! ## Instructions -/

/-- A write to `CPUE` does not start the cpu that makes it. -/
def LeavesSelf (vaddr val : Word) (m : Machine δ) : Prop :=
  AtCpue b i (fun t => val.getLsbD i = true → (t.cpus i).cpuEnabled = true) vaddr m

/-- Where a breakpoint sends the cpu: to the same instruction. -/
def FetchState.breakpoint (f : FetchState) : FetchState :=
  { f with nextpc := f.pc, nextpcoff := f.pcoff }

section Insn

variable (m₀ : Machine δ) (f₀ : FetchState)

def Fetched (t : Machine δ) : Prop := BesideBefore b i m₀ t ∧ Own i f₀ t

/-- What an instruction leaves: the cpu goes on where it was to go, or where it has jumped to, or
the debugger has stopped it. -/
def Moved (t : Machine δ) : Prop :=
  BesideAfter b i m₀ t ∧ (t.mycpus i).Sound ∧
    ((t.mycpus i).toFetchState = f₀ ∨ (t.mycpus i).Jumped b t.ram ∨
      f₀.pcoff = f₀.pc &&& 0xfff ∧ (t.mycpus i).toFetchState = f₀.breakpoint)

def Trapped (e : Stop) (t : Machine δ) : Prop :=
  ∀ tr, e = .trap tr →
    BesideAfter b i m₀ t ∧ (t.mycpus i).Sound ∧ (t.mycpus i).pc &&& 0x1 = 0

variable {b i m₀ f₀}

theorem Fatal.trapped {e : Stop} {t : Machine δ} (h : Fatal e t) : Trapped b i m₀ e t :=
  fun tr htr => absurd htr (h tr)

theorem Own.trapped {t : Machine δ} {e : Stop} (hEven : f₀.pc &&& 0x1 = 0)
    (hAfter : BesideAfter b i m₀ t) (h : Own i f₀ t) : Trapped b i m₀ e t := by
  refine fun tr _ => ⟨hAfter, h.1, ?_⟩
  rw [show (t.mycpus i).pc = f₀.pc from congrArg FetchState.pc h.2, hEven]

theorem Own.cache {t : Machine δ} (h : Own i f₀ t) : (t.mycpus i).CacheAligned := h.1.2.2

/-- The first word of a store. -/
theorem storeRules_before (hEven : f₀.pc &&& 0x1 = 0) :
    StoreRules b i (LeavesSelf b i) (fun t => BesideBefore b i m₀ t ∧ Own i f₀ t)
      (fun t => BesideBetween b i m₀ t ∧ Own i f₀ t) (Trapped b i m₀) := by
  have hBus : BusBlind fun t => BesideBefore b i m₀ t ∧ Own i f₀ t :=
    fun t u hu ht => ⟨apart_before.bus t u hu ht.1, ht.2.bus hu⟩
  have hFill : FillBlind i fun t => BesideBefore b i m₀ t ∧ Own i f₀ t :=
    fun vaddr leaf t ht => ⟨apart_before.modCpu ht.1 _, ht.2.fill vaddr leaf⟩
  have hCache : ∀ t : Machine δ, BesideBefore b i m₀ t ∧ Own i f₀ t →
      (t.mycpus i).CacheAligned := fun _ ht => ht.2.cache
  constructor
  · constructor
    · refine fun vaddr rwx hAlign => (keeps_domemFetch b i hBus hFill hCache hAlign rwx).error ?_
      exact fun e t ht => ht.1.2.trapped hEven ht.1.1.between.after
    · exact fun t ht => ⟨apart_before.modCpu ht.1 _, ht.2.still fun _ => rfl⟩
  · intro vaddr val t hAlign ht hSelf
    refine after_domemStore b i hBus hFill hCache hAlign ht hSelf ?_ ?_ ?_ ?_ ?_
    · exact fun u ix hu => ⟨hu.1.between, hu.2⟩
    · exact fun u hu => ⟨hu.1.between, hu.2⟩
    · exact fun e u hu _ => hu.2.trapped hEven hu.1.between.after
    · exact fun u hu => hu.2.trapped hEven hu.1.after
    · intro u hu hFlag
      refine (after_setCpue (fun _ => False) (fun ram => ram = m₀.ram) (fun _ => False.elim) hu.1.1
        hu.2 hu.1.2.2 hFlag).mono ?_ fun _ _ => Fatal.trapped
      exact fun _ w hw => ⟨hw.2.2, hw.2.1⟩

/-- The second word. -/
theorem storeRules_between (hEven : f₀.pc &&& 0x1 = 0) :
    StoreRules b i (LeavesSelf b i) (fun t => BesideBetween b i m₀ t ∧ Own i f₀ t)
      (fun t => BesideAfter b i m₀ t ∧ Own i f₀ t) (Trapped b i m₀) := by
  have hBus : BusBlind fun t => BesideBetween b i m₀ t ∧ Own i f₀ t :=
    fun t u hu ht => ⟨apart_between.bus t u hu ht.1, ht.2.bus hu⟩
  have hFill : FillBlind i fun t => BesideBetween b i m₀ t ∧ Own i f₀ t :=
    fun vaddr leaf t ht => ⟨apart_between.modCpu ht.1 _, ht.2.fill vaddr leaf⟩
  have hCache : ∀ t : Machine δ, BesideBetween b i m₀ t ∧ Own i f₀ t →
      (t.mycpus i).CacheAligned := fun _ ht => ht.2.cache
  constructor
  · constructor
    · refine fun vaddr rwx hAlign => (keeps_domemFetch b i hBus hFill hCache hAlign rwx).error ?_
      exact fun e t ht => ht.1.2.trapped hEven ht.1.1.after
    · exact fun t ht => ⟨apart_between.modCpu ht.1 _, ht.2.still fun _ => rfl⟩
  · intro vaddr val t hAlign ht hSelf
    refine after_domemStore b i hBus hFill hCache hAlign ht hSelf ?_ ?_ ?_ ?_ ?_
    · exact fun u ix hu => ⟨Beside.mono (fun _ => .inl) hu.1, hu.2⟩
    · exact fun u hu => ⟨hu.1.after, hu.2⟩
    · exact fun e u hu _ => hu.2.trapped hEven hu.1.after
    · exact fun u hu => hu.2.trapped hEven hu.1
    · intro u hu hFlag
      refine (after_setCpue (fun ram => ram = m₀.ram) (fun ram => ram = m₀.ram ∨ ram = u.ram)
        (fun _ => .inl) (.inr rfl) hu.2 hu.1 hFlag).mono ?_ fun _ _ => Fatal.trapped
      rintro ⟨⟩ w ⟨hRam, hOwn, hBeside⟩
      refine ⟨?_, hOwn⟩
      unfold BesideAfter
      rw [hRam]
      exact hBeside

/-- The writes of control registers leave the cpu where it is. -/
theorem Riscvcpu.csrwrite_sound {c c' : Riscvcpu} {csr val : Word} (hc : c.Sound)
    (h : c.csrwrite csr val = some c') : c'.Sound ∧ c'.toFetchState = c.toFetchState := by
  obtain ⟨hStvec, hSepc, hCache⟩ := hc
  unfold csrwrite at h
  split at h
  · cases h
  · split at h
    all_goals
      cases h
      try exact ⟨⟨hStvec, hSepc, hCache⟩, rfl⟩
    · refine ⟨⟨?_, hSepc, hCache⟩, rfl⟩
      change val &&& 0xfffffffc &&& 0x3 = 0
      rw [BitVec.and_assoc]
      simp
    · exact ⟨⟨hStvec, even_mask val, hCache⟩, rfl⟩

theorem moved_of_own {t : Machine δ} (hAfter : BesideAfter b i m₀ t) (h : Own i f₀ t) :
    Moved b i m₀ f₀ t := ⟨hAfter, h.1, .inl h.2⟩

theorem Fetched.after {t : Machine δ} (h : Fetched b i m₀ f₀ t) : BesideAfter b i m₀ t :=
  h.1.between.after

theorem Moved.still {t : Machine δ} {f : Riscvcpu → Riscvcpu}
    (hf : ∀ c : Riscvcpu, (f c).still = c.still) (h : Moved b i m₀ f₀ t) :
    Moved b i m₀ f₀ (t.modCpu i f) := by
  refine ⟨apart_after.modCpu h.1 f, ?_⟩
  rw [Machine.modCpu_mycpus_self]
  exact (Riscvcpu.still_congr (hf _) (fun c => c.Sound ∧ (c.toFetchState = f₀ ∨
    c.Jumped b t.ram ∨ f₀.pcoff = f₀.pc &&& 0xfff ∧ c.toFetchState = f₀.breakpoint))
    fun _ => rfl).mpr h.2

/-- The pc has been moved, and its page is looked up. -/
theorem after_moved_precomputePc {t : Machine δ} (hAfter : BesideAfter b i m₀ t)
    (hSound : (t.mycpus i).Sound) (hEven : (t.mycpus i).pc &&& 0x1 = 0)
    (hNext : (t.mycpus i).nextpc = (t.mycpus i).pc) :
    After (precomputePc b i) (fun _ => Moved b i m₀ f₀) (Trapped b i m₀) t := by
  refine (apart_after.precomputePc hAfter hSound hEven).mono ?_ ?_
  · rintro ⟨⟩ u ⟨hu, hSound', hLooked, hPc, hNext', hOff⟩
    refine ⟨hu, hSound', .inr (.inl ⟨hLooked, ?_, hOff⟩)⟩
    rw [hNext', hNext, hPc]
  · rintro e u ⟨hu, hSound', hPc, -⟩ tr -
    exact ⟨hu, hSound', by rw [hPc, hEven]⟩

/-- Every instruction leaves the cpu where `Moved` says. -/
theorem rules_fetched (hEven : f₀.pc &&& 0x1 = 0) {insn : Insn}
    (hBreak : insn = .ebreak → m₀.gdbCanhandle f₀.pc = true → f₀.pcoff = f₀.pc &&& 0xfff) :
    Rules b i (LeavesSelf b i) insn (Fetched b i m₀ f₀) (Moved b i m₀ f₀) (Trapped b i m₀) := by
  have hFirst : StoreRules b i (LeavesSelf b i) (Fetched b i m₀ f₀) _ (Trapped b i m₀) :=
    storeRules_before hEven
  have hSecond : StoreRules b i (LeavesSelf b i) _ (fun t => BesideAfter b i m₀ t ∧ Own i f₀ t)
      (Trapped b i m₀) := storeRules_between hEven
  have hPc : ∀ t : Machine δ, Fetched b i m₀ f₀ t → (t.mycpus i).pc = f₀.pc :=
    fun t ht => congrArg FetchState.pc ht.2.2
  have hJump : ∀ (dest : Word) t, dest &&& 0x1 = 0 → Fetched b i m₀ f₀ t →
      After (rxJump b i dest) (fun _ => Moved b i m₀ f₀) (Trapped b i m₀) t := by
    intro dest t hDest ht
    unfold rxJump
    rw [after_bind, after_getCpu, after_ite]
    split
    · exact ht.2.trapped hEven ht.after
    · rw [after_bind, after_modCpu]
      have hAfter := apart_after.modCpu ht.after fun c => { c with pc := dest, nextpc := dest }
      refine after_moved_precomputePc hAfter ?_ ?_ ?_
      · rw [Machine.modCpu_mycpus_self]
        exact ht.2.1
      · rw [Machine.modCpu_mycpus_self]
        exact hDest
      · rw [Machine.modCpu_mycpus_self]
  constructor
  case toFetchRules => exact hFirst.toFetchRules
  case le => exact fun t ht => moved_of_own ht.after ht.2
  case raise => exact fun code val t ht => ht.2.trapped hEven ht.after
  case setX => exact fun rd val t ht => ht.still fun c => c.still_setX rd val
  case reserve =>
    exact fun addr val t ht => Moved.still (fun _ => rfl) (moved_of_own ht.after ht.2)
  case dostore =>
    intro ms addr val t hms ht hV
    refine (hFirst.dostore hSecond ?_ hms ht hV).mono ?_ fun _ _ he => he
    · exact fun u hu => ⟨hu.1.after, hu.2⟩
    · exact fun _ u hu => moved_of_own hu.1 hu.2
  case store =>
    intro vaddr val t hAlign ht hV
    refine (hFirst.store vaddr val t hAlign ht hV).mono ?_ fun _ _ he => he
    exact fun _ u hu => moved_of_own hu.1.after hu.2
  case jump => exact hJump
  case jumpBy =>
    intro imm t hImm ht
    refine hJump _ t (even_add ?_ hImm) ht
    rw [hPc t ht, hEven]
  case csr =>
    intro op rd rs1 num word c t _ ht hRun
    have hc : c.Sound ∧ c.toFetchState = f₀ := by
      refine Csrop.run_induct (P := fun c => c.Sound ∧ c.toFetchState = f₀) ?_ ?_ ht.2 hRun
      · intro rd val c hc
        exact (Riscvcpu.still_congr (c.still_setX rd val)
          (fun c => c.Sound ∧ c.toFetchState = f₀) fun _ => rfl).mpr hc
      · intro csr val c c' hc hWrite
        obtain ⟨hSound, hFetch⟩ := Riscvcpu.csrwrite_sound hc.1 hWrite
        exact ⟨hSound, hFetch.trans hc.2⟩
    refine moved_of_own (apart_after.own t c ht.after) ?_
    unfold Own
    rwa [Machine.setCpu_mycpus_self]
  case breakpoint =>
    intro t hInsn ht hHandle
    have hReady : m₀.gdbCanhandle f₀.pc = true := by
      rw [Machine.gdbCanhandle, ← ht.1.2.1, ← hPc t ht]
      exact hHandle
    have hStopped : BesideAfter b i m₀ { t with
        cpuCycling := false, stoppedInDebugger := true, stopIsLethal := false } := ht.after
    refine ⟨apart_after.modCpu hStopped Riscvcpu.breakpoint, ?_⟩
    rw [Machine.breakpoint, Machine.modCpu_mycpus_self]
    refine ⟨ht.2.1, .inr (.inr ⟨hBreak hInsn hReady, ?_⟩)⟩
    rw [← ht.2.2]
    rfl
  case sret =>
    intro t hSuper ht
    unfold rxDoSret
    rw [after_bind, after_modCpu]
    refine after_moved_precomputePc (apart_after.modCpu ht.after Riscvcpu.sret) ?_ ?_ ?_
    · rw [Machine.modCpu_mycpus_self]
      exact ht.2.1
    · rw [Machine.modCpu_mycpus_self]
      obtain ⟨-, hSepc, -⟩ := ht.2.1
      change (if (t.mycpus i).cext then (t.mycpus i).sepc else (t.mycpus i).sepc &&& 0xfffffffc) &&&
        0x1 = 0
      split
      · exact hSepc
      · rw [BitVec.and_assoc]
        simp
    · rw [Machine.modCpu_mycpus_self]
      rfl
  case wfi =>
    intro t hSuper ht
    unfold rxDoWfi
    rw [after_bind, after_getCpu]
    simp only [hSuper, if_true]
    split
    · exact moved_of_own ht.after ht.2
    · have hIdle := Moved.still (f := fun c => { c with state := .idle }) (fun _ => rfl)
        (moved_of_own ht.after ht.2)
      exact ⟨apart_after.bus _ _ (bused_mask _ _) hIdle.1, hIdle.2⟩
  case sfenceVma =>
    intro t hSuper ht
    have hPages : ∀ page, Fetched b i m₀ f₀ (t.modCpu i fun c => { c with mmuPttoppage := page }) := by
      refine fun page => ⟨apart_before.modCpu ht.1 _, ?_⟩
      unfold Own
      rw [Machine.modCpu_mycpus_self]
      exact ht.2
    unfold rxDoSfenceVma reloadPagetables
    rw [after_bind, after_bind, after_getCpu, after_bind, after_modCpu, after_ite]
    split
    · exact (hPages _).2.trapped hEven (hPages _).after
    · refine moved_of_own (apart_after.modCpu (hPages _).after _) ?_
      unfold Own
      rw [Machine.modCpu_mycpus_self]
      exact (hPages _).2

end Insn

end Sys161.Riscv
