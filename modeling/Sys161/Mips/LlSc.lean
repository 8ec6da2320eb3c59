import Sys161.Mips.Precise

/-!
# Load linked and store conditional

There is no bus monitor: SC reads the word again and compares. Reading and
storing are one turn of one cpu, so the word goes from what LL returned to what
SC stores, whatever the other cpus do in between.
-/

namespace Sys161.Mips

open Exec Runs

set_option autoImplicit false

variable {δ : Type} {b : Board δ} (i : Nat)

/-! ## Words of main memory -/

variable (b) in
/-- The word of main memory at a physical address. -/
def ramWord (paddr : Word) : Option (BitVec 30) :=
  if paddr < 0x1fc00000 then
    if b.busRamsize ≤ paddr then none else some (wordIndex paddr)
  else if paddr < 0x20000000 then none
  else if b.busRamsize ≤ paddr - 0x00400000 then none
  else some (wordIndex (paddr - 0x00400000))

variable (b) in
/-- The cpu may write at the address, and finds a word of main memory there. -/
def MapsTo (c : Mipscpu) (vaddr : Word) (w : BitVec 30) : Prop :=
  ∃ paddr, c.mapping.translate vaddr true = .ok paddr ∧ ramWord b paddr = some w

section Ram

variable {E : Stop → Machine δ → Prop} {t : Machine δ} {paddr vaddr : Word} {w : BitVec 30}

theorem after_fetchPhys_ram (hWord : ramWord b paddr = some w) {Q : Option Word → Machine δ → Prop} :
    After (fetchPhys b i paddr) Q E t ↔ Q (some (t.ram w)) t := by
  unfold ramWord at hWord
  unfold fetchPhys
  split at hWord
  · split at hWord
    · cases hWord
    · rename_i hLow hSize
      obtain rfl := Option.some.inj hWord
      rw [if_pos hLow, after_bind, after_get, after_pure, Machine.busMemFetch, if_neg hSize]
  · split at hWord
    · cases hWord
    · split at hWord
      · cases hWord
      · rename_i hLow hHigh hSize
        obtain rfl := Option.some.inj hWord
        rw [if_neg hLow, if_neg (by bv_omega), if_neg hHigh, after_bind, after_get, after_pure,
          Machine.busMemFetch, if_neg hSize]

theorem after_storePhys_ram (hWord : ramWord b paddr = some w) (val : Word)
    {Q : Bool → Machine δ → Prop} :
    After (storePhys b i paddr val) Q E t ↔
      Q true { t with ram := Function.update t.ram w val } := by
  unfold ramWord at hWord
  unfold storePhys busMemStore
  split at hWord
  · split at hWord
    · cases hWord
    · rename_i hLow hSize
      obtain rfl := Option.some.inj hWord
      rw [if_pos hLow, if_neg hSize, after_bind, after_modify, after_pure]
  · split at hWord
    · cases hWord
    · split at hWord
      · cases hWord
      · rename_i hLow hHigh hSize
        obtain rfl := Option.some.inj hWord
        rw [if_neg hLow, if_neg (by bv_omega), if_neg hHigh, if_neg hSize, after_bind, after_modify,
          after_pure]

theorem after_domemFetch_word {iswrite : Bool}
    (hTrans : (t.mycpus i).mapping.translate vaddr iswrite = .ok paddr)
    (hWord : ramWord b paddr = some w) {Q : Word → Machine δ → Prop} :
    After (domemFetch b i vaddr iswrite) Q E t ↔
      Q (t.ram w) (t.setCpu i ((t.mycpus i).translated vaddr iswrite)) := by
  unfold domemFetch
  rw [after_bind, after_translatemem, hTrans]
  dsimp only
  rw [after_bind, after_fetchPhys_ram i hWord, after_pure, Machine.setCpu_ram]

theorem after_domemFetch_ram (h : MapsTo b (t.mycpus i) vaddr w) {Q : Word → Machine δ → Prop} :
    After (domemFetch b i vaddr true) Q E t ↔
      Q (t.ram w) (t.setCpu i ((t.mycpus i).translated vaddr true)) := by
  obtain ⟨paddr, hTrans, hWord⟩ := h
  exact after_domemFetch_word i hTrans hWord

theorem after_domemStore_ram (h : MapsTo b (t.mycpus i) vaddr w) (val : Word)
    {Q : Unit → Machine δ → Prop} :
    After (domemStore b i vaddr val) Q E t ↔
      Q () { t.setCpu i ((t.mycpus i).translated vaddr true) with
        ram := Function.update t.ram w val } := by
  obtain ⟨paddr, hTrans, hWord⟩ := h
  unfold domemStore
  rw [after_bind, after_translatemem, hTrans]
  dsimp only
  rw [after_bind, after_storePhys_ram i hWord, if_pos rfl, after_pure, Machine.setCpu_ram]

end Ram

/-! ## The two instructions -/

/-- What SC reports is what it has done: it has written nothing, or the word was the one on file. -/
def ScDone (b : Board δ) (i : Nat) (insn : Word) (t u : Machine δ) : Prop :=
  let c := t.mycpus i
  (u.mycpus i).r (rt insn) = 0 ∧ u.ram = t.ram ∨
    (u.mycpus i).r (rt insn) = 1 ∧ c.llActive = true ∧ c.llAddr = needaddr c insn ∧
      ∀ w, MapsTo b c (needaddr c insn) w →
        t.ram w = c.llValue ∧ u.ram = Function.update t.ram w (c.r (rt insn))

theorem after_mxSc (insn : Word) (t : Machine δ) :
    After (mxSc b i insn) (fun _ u => ScDone b i insn t u) (fun _ _ => True) t := by
  have hFail : ∀ m : Machine δ, m.ram = t.ram → ScDone b i insn t
      (m.modCpu i fun c => { c with r := Function.update c.r (rt insn) 0 }) := by
    intro m hm
    exact .inl ⟨by simp, hm⟩
  unfold mxSc
  rw [after_bind, after_getCpu, after_ite]
  split
  · exact hFail t rfl
  rename_i hActive
  simp only [Bool.not_eq_true, Bool.or_eq_false_iff, Bool.not_eq_false', decide_eq_false_iff_not,
    not_not] at hActive
  obtain ⟨hActive, hAddr⟩ := hActive
  rw [after_bind]
  by_cases hMaps : ∃ w, MapsTo b (t.mycpus i) (needaddr (t.mycpus i) insn) w
  · obtain ⟨w, hMaps⟩ := hMaps
    rw [after_domemFetch_ram i hMaps]
    split
    · exact hFail _ rfl
    · rename_i hSame
      have hMaps' : MapsTo b ((t.setCpu i ((t.mycpus i).translated (needaddr (t.mycpus i) insn)
          true)).mycpus i) (needaddr (t.mycpus i) insn) w := by
        rw [Machine.setCpu_mycpus_self, MapsTo, translated_mapping]
        exact hMaps
      rw [after_bind, after_domemStore_ram i hMaps', after_setReg]
      refine .inr ⟨by simp, hActive, hAddr, fun w' hw' => ?_⟩
      obtain ⟨paddr, hTrans, hWord⟩ := hMaps
      obtain ⟨paddr', hTrans', hWord'⟩ := hw'
      obtain rfl : paddr = paddr' := Except.ok.inj (hTrans.symm.trans hTrans')
      obtain rfl : w = w' := Option.some.inj (hWord.symm.trans hWord')
      exact ⟨not_not.mp hSame, rfl⟩
  · have hFetch : Clean b i (fun _ => True) (domemFetch b i (needaddr (t.mycpus i) insn) true) :=
      clean_domemFetch (fun _ _ _ => trivial) (fun _ _ _ => trivial) _
    refine (hFetch t).mono (fun temp m hm => ?_) fun _ _ _ => trivial
    rw [after_ite]
    split
    · exact hFail m hm.ram
    · rw [after_bind]
      refine after_of_forall (fun _ u => ?_) fun _ _ => trivial
      exact .inr ⟨by simp, hActive, hAddr, fun w hw => absurd ⟨w, hw⟩ hMaps⟩

theorem after_mxLl (insn : Word) (t : Machine δ) :
    After (mxLl b i insn) (fun _ u => (u.mycpus i).toLlState =
      ⟨true, needaddr (t.mycpus i) insn, (u.mycpus i).r (rt insn)⟩) (fun _ _ => True) t := by
  unfold mxLl
  rw [after_bind, after_getCpu, after_bind]
  refine after_of_forall (fun val m => ?_) fun _ _ => trivial
  rw [after_bind, after_setReg, after_modCpu, Machine.modCpu_mycpus_self]

/-! ## The life of a reservation -/

variable (b) in
/-- An LL of cpu `i` comes to its end. -/
def LoadsLinked (m : Machine δ) (addr val : Word) : Prop :=
  ∃ insn t u, Completes b i m insn t u ∧ opm insn = .lwc0 ∧ needaddr (t.mycpus i) insn = addr ∧
    (u.mycpus i).r (rt insn) = val

variable (b) in
/-- The cpu is as `exception()` leaves it. -/
def AtException (c : Mipscpu) : Prop := ∃ c₀ e, c = Mipscpu.exception b c₀ e

variable (b) in
/-- In its turn, cpu `i` takes an interrupt, cannot translate the address ahead, or comes out of an
instruction as `exception()` leaves it. -/
def Excepts (m : Machine δ) : Prop :=
  ((m.mycpus i).state = .running ∧ (m.mycpus i).updateExpc.interrupted = true) ∨
    (∃ t, (issue b i).run m = .ok .fault t) ∨
    ∃ insn t u, Faults b i m insn t u ∨ Completes b i m insn t u ∧ AtException b (u.mycpus i)

/-- What may be said of a reservation that an exception does not undo. -/
structure LlBlind (P : LlState → Prop) : Prop where
  cancel : ∀ s, P s → P { s with llActive := false }

theorem LlBlind.cpuBlind {P : LlState → Prop} (hP : LlBlind P) (j : Nat) :
    CpuBlind b fun c => j = i → P c.toLlState where
  fetchState _ _ hc := hc
  exception _ _ hc hj := hP.cancel _ (hc hj)
  vpn _ _ hc := hc
  hitBreakpoint _ _ hc := hc
  exCount _ _ hc := hc
  irqLines _ _ hc := hc
  state _ _ hc := hc
  startReg _ _ _ _ hc := hc

/-- What is said of the reservation of cpu `i`. -/
def OnLl (P : LlState → Prop) (m : Machine δ) : Prop := ∀ j, j = i → P (m.mycpus j).toLlState

theorem LlBlind.busBlind {P : LlState → Prop} (hP : LlBlind P) :
    BusBlind b (OnLl (δ := δ) i P) :=
  CpuBlind.busBlind fun j => hP.cpuBlind i j

theorem OnLl.modCpu {P : LlState → Prop} {m : Machine δ} (hm : OnLl i P m) (k : Nat)
    {f : Mipscpu → Mipscpu} (hf : ∀ c, (f c).toLlState = c.toLlState) :
    OnLl i P (m.modCpu k f) :=
  forall_modCpu (P := fun j c => j = i → P c.toLlState) k hm fun hk => by rw [hf]; exact hm k hk

/-- All instructions but an LL of the cpu itself leave a reservation as it is, or cancel it. -/
theorem LlBlind.execute {P : LlState → Prop} (hP : LlBlind P) (k : Nat) {insn : Word}
    (hInsn : k = i → opm insn ≠ .lwc0) :
    Keeps (OnLl i P) (fun _ => OnLl i P) (execute b k insn : M δ Unit) := by
  have hBlind := hP.busBlind (δ := δ) (b := b) i
  refine (hBlind.execBlind.rules k (fun _ _ _ hm => hm) (fun _ _ _ _ hm => hm.modCpu i k fun _ => rfl)
    (fun _ _ _ _ _ hm => hm.modCpu i k fun _ => rfl) (fun hOp addr val m hm => ?_)
    (fun c0 _ _ hm => hm.modCpu i k fun _ => by cases c0 <;> rfl)
    (fun _ hm => hm.modCpu i k fun _ => rfl) (fun _ _ _ hm => hm.modCpu i k fun _ => rfl)
    (fun _ hm => hm.modCpu i k fun _ => rfl)
    (hBlind.execBlind.writetlb k fun _ _ hm => hm.modCpu i k fun _ => rfl)
    (fun _ _ _ _ hm => hm.modCpu i k fun _ => rfl)).execute
  refine forall_modCpu (P := fun j c => j = i → P c.toLlState) k hm fun hk => ?_
  exact absurd hOp (hInsn hk)

/-- An LL that posts an exception has put nothing on file. -/
theorem LlBlind.mxLl_fault {P : LlState → Prop} (hP : LlBlind P) (insn : Word) {t : Machine δ}
    (ht : OnLl i P t) : After (mxLl b i insn) (fun _ _ => True) (fun _ u => OnLl i P u) t := by
  have hBlind := hP.busBlind (δ := δ) (b := b) i
  unfold mxLl
  rw [after_bind, after_getCpu, after_bind]
  exact (hBlind.execBlind.domemFetch i _ _ t ht).mono (fun _ _ _ => trivial) fun _ _ hu => hu

theorem llBlind_inactive : LlBlind fun s => s.llActive = false := ⟨fun _ _ => rfl⟩

theorem Raised.llActive {P : Exn → Prop} {t u : Machine δ} (h : Raised b i P t u) :
    (u.mycpus i).llActive = false := by
  obtain ⟨m, e, -, -, rfl⟩ := h
  rw [Machine.modCpu_mycpus_self]
  rfl

theorem onLl_ticked {P : LlState → Prop} {u m' : Machine δ} {k : Nat} (hu : OnLl i P u)
    (h : u.ticked k m') : OnLl i P m' := by
  obtain ⟨sp, rfl⟩ := h
  exact hu.modCpu i k fun _ => rfl

/-- In a turn in which the cpu loads nothing linked, its reservation stays as it is or is
cancelled. -/
theorem LlBlind.turn {P : LlState → Prop} (hP : LlBlind P) {k : Nat} {m m' : Machine δ}
    {stopped : Bool} (hTurn : (cpuTurn b k).run m = .ok stopped m')
    (hLoads : k = i → ∀ addr val, ¬ LoadsLinked b i m addr val) (hm : OnLl i P m) :
    OnLl i P m' := by
  have hBlind := hP.busBlind (δ := δ) (b := b) i
  have hIssued : ∀ is t, (issue b k).run m = .ok is t → OnLl i P t := fun is t hIssue => by
    have ht := after_of_run_ok (hBlind.issue k m hm) hIssue
    exact ht
  obtain ⟨is, hIssue, -⟩ | ⟨insn, t, u, hExec, hEnd⟩ := turn_inv hTurn
  · exact hIssued is m' hIssue
  · refine onLl_ticked i ?_ hEnd
    have hIssue : (issue b k).run m = .ok (.insn insn) t := by
      obtain h | h := hExec
      · exact h.1
      · exact h.1
    have ht := hIssued _ t hIssue
    by_cases hInsn : k = i → opm insn ≠ .lwc0
    · have hRun := hP.execute (b := b) i k hInsn t ht
      obtain h | h := hExec
      · have hu := after_of_run_ok hRun h.2
        exact hu
      · have hu := after_of_run_error hRun h.2
        exact hu
    · push Not at hInsn
      obtain ⟨rfl, hOp⟩ := hInsn
      obtain h | h := hExec
      · exact absurd ⟨insn, t, u, h, hOp, rfl, rfl⟩ (hLoads rfl _ _)
      · have hLl : Mips.execute b k insn = mxLl b k insn := by simp only [Mips.execute, hOp]
        have hu := after_of_run_error (hP.mxLl_fault k insn ht) (hLl ▸ h.2)
        exact hu

theorem OnLl.inactive {m : Machine δ} (h : OnLl i (fun s => s.llActive = false) m) :
    (m.mycpus i).llActive = false := h i rfl

theorem onLl_inactive {m : Machine δ} (h : (m.mycpus i).llActive = false) :
    OnLl i (fun s => s.llActive = false) m := by
  rintro j rfl
  exact h

theorem startCycle_interrupted {c : Mipscpu} (h : c.updateExpc.interrupted = true) :
    (c.startCycle b).llActive = false := by
  simp only [Mipscpu.startCycle, h, if_true]
  rfl

/-- An interrupt cancels the reservation before an instruction is fetched. -/
theorem issue_interrupted {m : Machine δ} (hState : (m.mycpus i).state = .running)
    (hIrq : (m.mycpus i).updateExpc.interrupted = true) :
    After (issue b i) (fun _ => OnLl i fun s => s.llActive = false) (fun _ _ => True) m := by
  have hBlind := llBlind_inactive.busBlind (δ := δ) (b := b) i
  unfold issue countCycle
  rw [after_bind, after_getCpu, after_ite, if_neg (by simp [hState]), after_bind, after_modCpu,
    after_bind, after_modify]
  have hStart : OnLl i (fun s => s.llActive = false) (m.modCpu i fun c => c.startCycle b) := by
    refine onLl_inactive i ?_
    rw [Machine.modCpu_mycpus_self]
    exact startCycle_interrupted hIrq
  exact (hBlind.fetch i _ (hBlind.stats _ _ hStart)).mono (fun _ _ h => h) fun _ _ _ => trivial

/-- A turn in which the cpu loads nothing linked and takes an exception leaves no reservation. -/
theorem turn_excepts {m m' : Machine δ} {stopped : Bool}
    (hTurn : (cpuTurn b i).run m = .ok stopped m') (hLoads : ∀ addr val, ¬ LoadsLinked b i m addr val)
    (hExcepts : Excepts b i m) : (m'.mycpus i).llActive = false := by
  have hTicked : ∀ u, OnLl i (fun s => s.llActive = false) u → u.ticked i m' →
      (m'.mycpus i).llActive = false := fun u hu hEnd => (onLl_ticked i hu hEnd).inactive
  obtain ⟨is, hIssue, hOther⟩ | ⟨insn, t, u, hExec, hEnd⟩ := turn_inv hTurn
  · obtain ⟨hState, hIrq⟩ | ⟨t, hFault⟩ | ⟨insn, t, u, hExec⟩ := hExcepts
    · have hm' := after_of_run_ok (issue_interrupted (b := b) i hState hIrq) hIssue
      exact hm'.inactive
    · rw [hFault] at hIssue
      obtain ⟨rfl, rfl⟩ := EStateM.Result.ok.inj hIssue
      obtain ⟨_, _, hRaised⟩ := after_of_run_ok (issue_fault m) hFault rfl
      exact hRaised.llActive
    · obtain h | ⟨h, -⟩ := hExec
      · exact absurd (EStateM.Result.ok.inj (h.1.symm.trans hIssue)).1.symm (hOther insn)
      · exact absurd (EStateM.Result.ok.inj (h.1.symm.trans hIssue)).1.symm (hOther insn)
  · refine hTicked u ?_ hEnd
    obtain hDone | hFaults := hExec
    · have hInsn : opm insn ≠ .lwc0 := fun hOp => hLoads _ _ ⟨insn, t, u, hDone, hOp, rfl, rfl⟩
      obtain ⟨hState, hIrq⟩ | ⟨t', hFault⟩ | ⟨insn', t', u', hExec'⟩ := hExcepts
      · have ht := after_of_run_ok (issue_interrupted (b := b) i hState hIrq) hDone.1
        have hu := after_of_run_ok (llBlind_inactive.execute (b := b) i i (fun _ => hInsn) t ht)
          hDone.2
        exact hu
      · cases hFault.symm.trans hDone.1
      · have hSame : ∀ is, (issue b i).run m = .ok is t' → is = .insn insn ∧ t' = t := by
          intro is hIssue
          obtain ⟨rfl, rfl⟩ := EStateM.Result.ok.inj (hIssue.symm.trans hDone.1)
          exact ⟨rfl, rfl⟩
        obtain h | ⟨h, c, e, hExn⟩ := hExec'
        · obtain ⟨hInsn', rfl⟩ := hSame _ h.1
          obtain rfl := Issue.insn.inj hInsn'
          cases h.2.symm.trans hDone.2
        · obtain ⟨hInsn', rfl⟩ := hSame _ h.1
          obtain rfl := Issue.insn.inj hInsn'
          obtain ⟨-, rfl⟩ := EStateM.Result.ok.inj (h.2.symm.trans hDone.2)
          refine onLl_inactive i ?_
          rw [hExn]
          rfl
    · have hRaised := after_of_run_error (execute_posts t) hFaults.2 rfl
      exact onLl_inactive i hRaised.llActive

/-! ## Runs -/

variable (b) in
/-- In the run the last LL of cpu `i` has returned `val` for `addr`, and the cpu has taken no
exception since. -/
def LastLl (m₀ : Machine δ) (p : List (Act δ × Machine δ)) (m : Machine δ) (addr val : Word) : Prop :=
  ∃ q m₁ m₂ r, p = q ++ (.turn i, m₂) :: r ∧ Path (Step b) m₀ q m₁ ∧ Step b m₁ (.turn i) m₂ ∧
    LoadsLinked b i m₁ addr val ∧ Path (Step b) m₂ r m ∧
    AllSteps (fun m a _ => a = .turn i →
      ¬ Excepts b i m ∧ ∀ addr val, ¬ LoadsLinked b i m addr val) m₂ r

theorem LastLl.concat {m₀ m m' : Machine δ} {p : List (Act δ × Machine δ)} {addr val : Word}
    (h : LastLl b i m₀ p m addr val) {a : Act δ} (hStep : Step b m a m')
    (hOther : a = .turn i → ¬ Excepts b i m ∧ ∀ addr val, ¬ LoadsLinked b i m addr val) :
    LastLl b i m₀ (p ++ [(a, m')]) m' addr val := by
  obtain ⟨q, m₁, m₂, r, rfl, hq, hLl, hLoads, hr, hSteps⟩ := h
  refine ⟨q, m₁, m₂, r ++ [(a, m')], by simp, hq, hLl, hLoads, ?_, ?_⟩
  · exact hr.append (.cons hStep (.nil _))
  · exact hr.allSteps_concat hSteps hOther

/-- A reservation is what the last LL has put on file. -/
def Reserved (b : Board δ) (m₀ : Machine δ) (p : List (Act δ × Machine δ)) (m : Machine δ) : Prop :=
  ∀ i, (m.mycpus i).llActive = true →
    LastLl b i m₀ p m (m.mycpus i).llAddr (m.mycpus i).llValue

/-- A step keeps what is said of a reservation, an LL of the cpu itself apart. -/
theorem LlBlind.step {P : LlState → Prop} (hP : LlBlind P) {m m' : Machine δ} {a : Act δ}
    (hm : OnLl i P m) (hStep : Step b m a m')
    (hLoads : a = .turn i → ∀ addr val, ¬ LoadsLinked b i m addr val) : OnLl i P m' := by
  by_cases hTurn : ∃ k, a = .turn k
  · obtain ⟨k, rfl⟩ := hTurn
    obtain ⟨stopped, hRun⟩ := cpuTurn_of_step k hStep
    exact hP.turn i hRun (fun hk => hLoads (by rw [hk])) hm
  · have hBlind := hP.busBlind (δ := δ) (b := b) i
    exact hBlind.step (fun _ _ _ hm => hm) (fun _ _ hm => hm) hm
      (fun k hk => absurd ⟨k, hk⟩ hTurn) hStep

/-- After an LL its address and its value are on file. -/
theorem step_loadsLinked {m m' : Machine δ} (hStep : Step b m (.turn i) m') {addr val : Word}
    (hLoads : LoadsLinked b i m addr val) :
    (m'.mycpus i).llAddr = addr ∧ (m'.mycpus i).llValue = val := by
  obtain ⟨insn, t, u, hDone, hOp, rfl, rfl⟩ := hLoads
  have hLl : execute b i insn = mxLl b i insn := by simp only [execute, hOp]
  have hu := after_of_run_ok (after_mxLl (b := b) i insn t) (hLl ▸ hDone.2)
  obtain ⟨stopped, hRun⟩ := cpuTurn_of_step i hStep
  have hTick : (m'.mycpus i).toLlState = (u.mycpus i).toLlState := by
    rw [(hDone.ticked hRun).cpu]
    rfl
  have hSame := hTick.trans hu
  exact ⟨congrArg LlState.llAddr hSame, congrArg LlState.llValue hSame⟩

theorem reserved_concat {m₀ m m' : Machine δ} {p : List (Act δ × Machine δ)} {a : Act δ}
    (hRun : Path (Step b) m₀ p m) (hm : Reserved b m₀ p m) (hStep : Step b m a m') :
    Reserved b m₀ (p ++ [(a, m')]) m' := by
  intro i hActive
  by_cases hLoads : a = .turn i ∧ ∃ addr val, LoadsLinked b i m addr val
  · obtain ⟨rfl, addr, val, hLoads⟩ := hLoads
    obtain ⟨hAddr, hVal⟩ := step_loadsLinked i hStep hLoads
    rw [hAddr, hVal]
    exact ⟨p, m, m', [], rfl, hRun, hStep, hLoads, .nil m', trivial⟩
  have hNone : a = .turn i → ∀ addr val, ¬ LoadsLinked b i m addr val := fun ha addr val h =>
    hLoads ⟨ha, addr, val, h⟩
  by_cases hExcepts : a = .turn i ∧ Excepts b i m
  · obtain ⟨rfl, hExcepts⟩ := hExcepts
    obtain ⟨stopped, hTurn⟩ := cpuTurn_of_step i hStep
    rw [turn_excepts i hTurn (hNone rfl) hExcepts] at hActive
    cases hActive
  · have hBlind : LlBlind fun s => s.llActive = true →
        LastLl b i m₀ (p ++ [(a, m')]) m' s.llAddr s.llValue := ⟨fun _ _ => nofun⟩
    refine hBlind.step i (fun j hj hOld => ?_) hStep hNone i rfl hActive
    subst hj
    exact (hm j hOld).concat j hStep fun ha => ⟨fun h => hExcepts ⟨ha, h⟩, hNone ha⟩

theorem reserved_of_run {m₀ m : Machine δ} (h₀ : ∀ j, (m₀.mycpus j).llActive = false)
    {p : List (Act δ × Machine δ)} (hRun : Path (Step b) m₀ p m) : Reserved b m₀ p m := by
  refine hRun.invariant_history (fun i hActive => ?_) fun p m a m' hRun hm hStep =>
    reserved_concat hRun hm hStep
  rw [h₀ i] at hActive
  cases hActive

/-! ## Store conditional -/

variable (b) in
/-- In the step to `m'` an SC of cpu `i` reports success, at the address of a word of main memory;
`val` is what it stores. -/
def StoresConditional (w : BitVec 30) (m m' : Machine δ) (addr val : Word) : Prop :=
  ∃ insn t u, Completes b i m insn t u ∧ opm insn = .swc0 ∧ needaddr (t.mycpus i) insn = addr ∧
    (t.mycpus i).r (rt insn) = val ∧ MapsTo b (t.mycpus i) addr w ∧
    (m'.mycpus i).r (rt insn) ≠ 0

/-- In the run `w` is written by loops of LL and SC only; the list says what they make of it, in
order. -/
inductive ByLoops (b : Board δ) (w : BitVec 30) (m₀ : Machine δ) :
    List (Act δ × Machine δ) → Machine δ → List (Word → Word) → Prop where
  | nil : ByLoops b w m₀ [] m₀ []
  | other {p : List (Act δ × Machine δ)} {m m' : Machine δ} {a : Act δ} {fs : List (Word → Word)} :
      ByLoops b w m₀ p m fs → Step b m a m' → m'.ram w = m.ram w →
      (∀ i addr val, a = .turn i → ¬ StoresConditional b i w m m' addr val) →
      ByLoops b w m₀ (p ++ [(a, m')]) m' fs
  | update {p : List (Act δ × Machine δ)} {m m' : Machine δ} {fs : List (Word → Word)} {i : Nat}
      {addr val : Word} {f : Word → Word} :
      ByLoops b w m₀ p m fs → Step b m (.turn i) m' → StoresConditional b i w m m' addr val →
      (∀ old, LastLl b i m₀ p m addr old → val = f old) →
      ByLoops b w m₀ (p ++ [(.turn i, m')]) m' (fs ++ [f])

theorem ByLoops.path {w : BitVec 30} {m₀ m : Machine δ} {p : List (Act δ × Machine δ)}
    {fs : List (Word → Word)} (h : ByLoops b w m₀ p m fs) : Path (Step b) m₀ p m := by
  induction h with
  | nil => exact .nil m₀
  | other _ hStep _ _ ih => exact ih.append (.cons hStep (.nil _))
  | update _ hStep _ _ ih => exact ih.append (.cons hStep (.nil _))

theorem issue_ram {m : Machine δ} :
    After (issue b i) (fun _ t => t.ram = m.ram) (fun _ _ => True) m := by
  have hBlind : TurnBlind b fun t : Machine δ => t.ram = m.ram := {
    fetchState := fun _ _ _ h => h
    exception := fun _ _ _ h => h
    vpn := fun _ _ _ h => h
    stats := fun _ _ h => h
    debugger := fun _ _ _ _ h => h
    hang := fun _ _ h => h
    hitBreakpoint := fun _ _ _ h => h
    uncount := fun _ _ h => h }
  exact (hBlind.issue i m rfl).mono (fun _ _ h => h) fun _ _ _ => trivial

/-- What a turn that executes an SC comes to. -/
theorem step_sc {m₀ m m' : Machine δ} {p : List (Act δ × Machine δ)} (hm : Reserved b m₀ p m)
    (hStep : Step b m (.turn i) m') {insn : Word} {t u : Machine δ}
    (hDone : Completes b i m insn t u) (hOp : opm insn = .swc0) :
    (m'.mycpus i).r (rt insn) = 0 ∧ m'.ram = m.ram ∨
      (m'.mycpus i).r (rt insn) = 1 ∧ (m.mycpus i).updateExpc.interrupted = false ∧
      ∃ old, LastLl b i m₀ p m (needaddr (t.mycpus i) insn) old ∧
        ∀ w, MapsTo b (t.mycpus i) (needaddr (t.mycpus i) insn) w → m.ram w = old ∧
          m'.ram = Function.update m.ram w ((t.mycpus i).r (rt insn)) := by
  have hSc : execute b i insn = mxSc b i insn := by simp only [execute, hOp]
  have hEnd : (m'.mycpus i).r = (u.mycpus i).r ∧ m'.ram = u.ram := by
    obtain ⟨stopped, hRun⟩ := cpuTurn_of_step i hStep
    have hTicked := hDone.ticked hRun
    refine ⟨?_, hTicked.ram⟩
    rw [hTicked.cpu]
    rfl
  have hRam := after_of_run_ok (issue_ram (b := b) i) hDone.1
  rw [hEnd.1, hEnd.2, ← hRam]
  obtain ⟨hRt, hSame⟩ | ⟨hRt, hActive, hAddr, hWord⟩ :=
    after_of_run_ok (after_mxSc (b := b) i insn t) (hSc ▸ hDone.2)
  · exact .inl ⟨hRt, hSame⟩
  · have hOld : (t.mycpus i).toLlState = (m.mycpus i).toLlState := by
      have hBlind : LlBlind fun s => s.llActive = true → s = (m.mycpus i).toLlState := by
        constructor
        intro _ _ hActive
        cases hActive
      have ht := after_of_run_ok ((hBlind.busBlind (b := b) i).issue i m fun j hj _ => by rw [hj])
        hDone.1
      exact ht i rfl hActive
    have hIrq : (m.mycpus i).updateExpc.interrupted = false := by
      by_contra hIrq
      have hState : (m.mycpus i).state = .running := running_of_insn hDone.1
      have ht := after_of_run_ok (issue_interrupted (b := b) i hState (by simpa using hIrq)) hDone.1
      rw [ht.inactive] at hActive
      cases hActive
    have hLast := hm i ((congrArg LlState.llActive hOld).symm.trans hActive)
    rw [← congrArg LlState.llAddr hOld, ← congrArg LlState.llValue hOld, hAddr] at hLast
    exact .inr ⟨hRt, hIrq, _, hLast, hWord⟩

/-- An SC that posts an exception has written nothing. -/
theorem step_sc_faults {m m' : Machine δ} (hStep : Step b m (.turn i) m') {insn : Word}
    {t u : Machine δ} (hFaults : Faults b i m insn t u) (hOp : opm insn = .swc0) :
    m'.ram = m.ram := by
  obtain ⟨stopped, hRun⟩ := cpuTurn_of_step i hStep
  have hRam := after_of_run_ok (issue_ram (b := b) i) hFaults.1
  obtain ⟨m₁, e, -, hm₁, rfl⟩ := after_of_run_error (execute_posts t) hFaults.2 rfl
  have hLinked : t.linked i insn = t := by simp only [Machine.linked, linkReg, hOp]
  calc
    m'.ram = m₁.ram := (hFaults.ticked hRun).ram
    _ = t.ram := by rw [hm₁.ram, hLinked]
    _ = m.ram := hRam

/-- What the loops have made of the word, one after the other. -/
theorem ByLoops.composition {w : BitVec 30} {m₀ m : Machine δ} {p : List (Act δ × Machine δ)}
    {fs : List (Word → Word)} (h₀ : ∀ j, (m₀.mycpus j).llActive = false)
    (h : ByLoops b w m₀ p m fs) : m.ram w = fs.foldl (fun val f => f val) (m₀.ram w) := by
  induction h with
  | nil => rfl
  | other _ _ hSame _ ih => exact hSame.trans ih
  | @update p m m' fs i addr val f h hStep hStores hLoop ih =>
    obtain ⟨insn, t, u, hDone, hOp, rfl, rfl, hMaps, hOk⟩ := hStores
    rw [List.foldl_append, ← ih]
    obtain ⟨hZero, -⟩ | ⟨-, -, old, hLast, hWord⟩ :=
      step_sc i (reserved_of_run h₀ h.path) hStep hDone hOp
    · exact absurd hZero hOk
    · obtain ⟨hOld, hNew⟩ := hWord w hMaps
      rw [hNew, Function.update_self, hLoop old hLast, List.foldl_cons, List.foldl_nil, hOld]

/-- In a run that starts without reservations, by any interleaving: an SC that reports success has
replaced what the last LL of that address has returned, without an exception of the cpu in between;
one that reports failure or faults has written nothing; and where a word is written by loops of LL
and SC only, no update is lost. -/
theorem ll_sc_atomic {m₀ m : Machine δ} (h₀ : ∀ j, (m₀.mycpus j).llActive = false)
    {p : List (Act δ × Machine δ)} (hRun : Path (Step b) m₀ p m) :
    (∀ i insn t u m', Step b m (.turn i) m' → Completes b i m insn t u → opm insn = .swc0 →
      (m'.mycpus i).r (rt insn) = 0 ∧ m'.ram = m.ram ∨
      (m'.mycpus i).r (rt insn) = 1 ∧ (m.mycpus i).updateExpc.interrupted = false ∧
      ∃ old, LastLl b i m₀ p m (needaddr (t.mycpus i) insn) old ∧
        ∀ w, MapsTo b (t.mycpus i) (needaddr (t.mycpus i) insn) w → m.ram w = old ∧
          m'.ram = Function.update m.ram w ((t.mycpus i).r (rt insn))) ∧
    (∀ i insn t u m', Step b m (.turn i) m' → Faults b i m insn t u → opm insn = .swc0 →
      m'.ram = m.ram) ∧
    ∀ w fs, ByLoops b w m₀ p m fs → m.ram w = fs.foldl (fun val f => f val) (m₀.ram w) := by
  refine ⟨fun i insn t u m' hStep hDone hOp => ?_, fun i insn t u m' hStep hFaults hOp => ?_,
    fun w fs h => h.composition h₀⟩
  · exact step_sc i (reserved_of_run h₀ hRun) hStep hDone hOp
  · exact step_sc_faults i hStep hFaults hOp

/-- `LL` to register 1 from 64 bytes over the stack pointer. -/
def llWord : Word := 0xc3a10040

/-- `SC` of register 4 to the same address. -/
def scWord : Word := 0xe3a40040

/-- The two in a row. -/
theorem ll_sc_atomic_first : ∃ (p : List (Act Unit × Machine Unit)) (m m' : Machine Unit),
    Path (Step bareBoard) (machineInit () false) p m ∧ Step bareBoard m (.turn 0) m' ∧
    LastLl bareBoard 0 (machineInit () false) p m 0x80000040 0 ∧ m'.ram 0x10 = 5 := by
  obtain ⟨m₁, h₁, m₂, h₂, m₃, h₃, m₄, h₄, m, h, m', hTurn, t, u, hDone, hAddr, hVal, hRt, hOld, hMaps⟩ :
      ∃ m₁, Step bareBoard (machineInit () false) (.poke 0 llWord) m₁ ∧ ∃ m₂,
      Step bareBoard m₁ (.poke 1 scWord) m₂ ∧ ∃ m₃,
      Step bareBoard m₂ (.setEntrypoint 0 kseg0) m₃ ∧ ∃ m₄,
      Step bareBoard m₃ (.setStack 0 kseg0 5) m₄ ∧ ∃ m,
      Step bareBoard m₄ (.turn 0) m ∧ ∃ m',
      Step bareBoard m (.turn 0) m' ∧ ∃ t u, Completes bareBoard 0 m scWord t u ∧
      needaddr (t.mycpus 0) scWord = 0x80000040 ∧ (t.mycpus 0).r (rt scWord) = 5 ∧
      (m'.mycpus 0).r (rt scWord) = 1 ∧ m.ram 0x10 = 0 ∧
      MapsTo bareBoard (t.mycpus 0) 0x80000040 0x10 :=
    ⟨_, ⟨trivial, rfl⟩, _, ⟨trivial, rfl⟩, _, ⟨bareBoard.ncpus_pos, rfl⟩, _, ⟨bareBoard.ncpus_pos, rfl⟩,
      _, ⟨bareBoard.ncpus_pos, rfl⟩, _, ⟨bareBoard.ncpus_pos, rfl⟩, _, _, ⟨rfl, rfl⟩, rfl, rfl, rfl, rfl,
      _, rfl, rfl⟩
  have hRun : Path (Step bareBoard) (machineInit () false) _ m :=
    .cons h₁ (.cons h₂ (.cons h₃ (.cons h₄ (.cons h (.nil m)))))
  obtain ⟨hZero, -⟩ | ⟨-, -, old, hLast, hWord⟩ :=
    (ll_sc_atomic (fun _ => rfl) hRun).1 0 scWord t u m' hTurn hDone rfl
  · rw [hRt] at hZero
    cases hZero
  · rw [hAddr] at hLast hWord
    obtain ⟨hSame, hNew⟩ := hWord 0x10 hMaps
    obtain rfl : 0 = old := hOld.symm.trans hSame
    refine ⟨_, m, m', hRun, hTurn, hLast, ?_⟩
    rw [hNew, Function.update_self, hVal]

end Sys161.Mips
