import Sys161.Mips.VpageFaults

/-!
# Runs and the VPAGE field

What a step does to VPAGE of each cpu, where what it translates is settled.
-/

namespace Sys161.Mips

open Exec Runs

set_option autoImplicit false

variable {δ α : Type} {b : Board δ} {L : Mapping → Word → Bool → Prop} {v : Word} {i j : Nat}

/-! ## Before an instruction -/

theorem vpage_startCycle (c : Mipscpu) : (c.startCycle b).vpage = c.vpage := by
  unfold Mipscpu.startCycle Mipscpu.updateExpc
  dsimp only
  split
  · split <;> rfl
  · split <;> rfl

section Issue

variable {m : Machine δ} {insn : Word}

/-- The cpu has started its cycle. -/
def Machine.begun (b : Board δ) (i : Nat) (m : Machine δ) : Machine δ :=
  let m := m.modCpu i fun c => c.startCycle b
  m.countStats i (PercpuStats.cycle (m.mycpus i).currentUsermode)

theorem begun_mycpus_self : (m.begun b i).mycpus i = (m.mycpus i).startCycle b :=
  Machine.modCpu_mycpus_self m i _

theorem Calm.begun (hm : Calm j v m) : Calm j v (m.begun b i) :=
  hm.modCpu fun c => vpage_startCycle c

theorem after_issue (hState : (m.mycpus i).state = .running) {Q : Issue → Machine δ → Prop}
    {E : Stop → Machine δ → Prop} :
    After (issue b i) Q E m ↔ After (fetch b i) Q E (m.begun b i) := by
  unfold issue countCycle
  rw [after_bind, after_getCpu, after_ite, if_neg (by simp [hState]), after_bind, after_modCpu,
    after_bind, after_modify]
  rfl

/-- The address two ahead is translated where a page begins, and there is nothing wrong with it
unless the instruction is refused. -/
theorem advancePc_leaves (hL : Settling L v) (hm : Calm j v m)
    (hLookup : i = j → insn ≠ fullopRfe → ((m.mycpus i).nextpc + 4) &&& 0xfff = 0 →
      L (m.mycpus i).mapping ((m.mycpus i).nextpc + 4) false) :
    After (advancePc b i insn)
      (fun _ u => Calm j v u ∧ (u.mycpus i).mapping = (m.mycpus i).mapping ∧
        ∀ e, ¬AheadFault b insn (m.mycpus i) e)
      (fun s u => s = .exception → Fine b L v (u.mycpus j) ∧
        (i = j → ∀ e, (m.mycpus i).mapping.translate ((m.mycpus i).nextpc + 4) false = .error e →
          Calm j (((m.mycpus i).nextpc + 4) &&& 0xfffff000) u)) m := by
  unfold advancePc
  rw [after_bind, after_modCpu, after_bind, after_getCpu, after_ite]
  generalize hm₁ : m.modCpu i Mipscpu.advance = m₁
  have hCalm : Calm j v m₁ := hm₁ ▸ hm.modCpu fun _ => rfl
  have hCpu : m₁.mycpus i = (m.mycpus i).advance := by rw [← hm₁, Machine.modCpu_mycpus_self]
  have hMapping : (m₁.mycpus i).mapping = (m.mycpus i).mapping := by rw [hCpu]; rfl
  have hNext : (m₁.mycpus i).nextpc = (m.mycpus i).nextpc + 4 := by rw [hCpu]; rfl
  rw [hNext]
  split
  · rename_i hPage
    rw [after_ite]
    split
    · rename_i hRfe
      refine ⟨hCalm.modCpu fun _ => rfl, ?_, fun e h => h.notRfe hRfe⟩
      rw [Machine.modCpu_mycpus_self]
      exact hMapping
    · rename_i hRfe
      have hIn : i = j → L (m₁.mycpus i).mapping (m₁.mycpus i).nextpc false := by
        rw [hMapping, hNext]
        exact fun hij => hLookup hij hRfe hPage
      rw [after_precomputeNextpc]
      dsimp only
      split
      · rename_i page off hFetch
        refine ⟨hCalm.setCpu fun hij => ?_, ?_, fun e h => ?_⟩
        · rw [translated_of_fetch hL (hij ▸ hCalm) (hIn hij) hFetch]
          exact hij ▸ hCalm
        · rw [Machine.setCpu_mycpus_self]
          exact (translated_mapping _ _ _).trans hMapping
        · have hFault := h.fetch
          rw [hMapping, hNext] at hFetch
          cases hFetch.symm.trans hFault
      · rename_i e hFetch
        refine fun _ => ⟨hCalm.fine_setCpu fun hij => fine_of_fetch hL (hij ▸ hCalm) (hIn hij) hFetch,
          ?_⟩
        rintro rfl e' hFault
        rw [Calm, Machine.setCpu_mycpus_self, ← hNext]
        rw [← hMapping, ← hNext] at hFault
        exact vpage_of_error hL hCalm (hIn rfl) hFault
  · rename_i hPage
    refine ⟨hCalm.modCpu fun _ => rfl, ?_, fun e h => hPage h.page⟩
    rw [Machine.modCpu_mycpus_self]
    exact hMapping

/-- What comes of a fetch, by what comes of the pc's moving on and of the breakpoint. -/
theorem fetch_served {t : Machine δ} {P F : Machine δ → Prop} {Q : Issue → Machine δ → Prop}
    (hFetched : Fetched t.ram (t.mycpus i) insn)
    (hAdvance : After (advancePc b i insn) (fun _ => P) (fun s u => s = .exception → F u) t)
    (hFault : ∀ u, F u → Q .fault u)
    (hBreak : ∀ u, P u → TakesBreakpoint u insn (u.mycpus i) → After (breakpoint b i)
      (fun _ => Q .breakpoint) (fun _ _ => True)
      (u.modCpu i fun c => { c with hitBreakpoint := false }))
    (hServed : ∀ u, P u → ¬TakesBreakpoint u insn (u.mycpus i) →
      Q (.insn insn) (u.modCpu i fun c => { c with hitBreakpoint := false })) :
    After (fetch b i) Q (fun _ _ => True) t := by
  obtain ⟨page, hPage, hInsn⟩ := hFetched
  unfold fetch
  rw [after_bind, after_getCpu, after_bind, hPage, after_useMap_some, hInsn, after_bind,
    after_attempt]
  refine hAdvance.mono (fun _ u hu => ?_) fun s u hu => ?_
  · have hHandle : (u.modCpu i fun c => { c with hitBreakpoint := false }).gdbCanhandle
        ((u.modCpu i fun c => { c with hitBreakpoint := false }).mycpus i).expc =
        u.gdbCanhandle (u.mycpus i).expc := by
      rw [Machine.modCpu_mycpus_self]
      rfl
    rw [if_pos rfl, after_bind, after_modCpu, after_bind, after_get, after_bind, after_getCpu,
      after_ite, hHandle]
    split
    · rename_i hTakes
      rw [after_bind]
      exact hBreak u hu hTakes
    · rename_i hTakes
      exact hServed u hu hTakes
  · cases s with
    | exception => exact hFault u (hu rfl)
    | smoke | undefined => trivial

/-- The debugger takes the instruction after the pc has moved on if it did before. -/
theorem takes_iff {u : Machine δ} (h : (u.mycpus i).expc = ((m.begun b i).mycpus i).expc ∧
      u.gdbReady = (m.begun b i).gdbReady) :
    TakesBreakpoint u insn (u.mycpus i) ↔ TakesBreakpoint m insn ((m.mycpus i).startCycle b) := by
  unfold TakesBreakpoint Machine.gdbCanhandle
  rw [h.1, h.2, begun_mycpus_self]
  exact Iff.rfl

variable (hL : Settling (Lookup b m j (.turn i)) v) (hm : Calm j v m)

include hL hm

theorem begun_advancePc (hState : (m.mycpus i).state = .running)
    (hFetched : Fetched m.ram ((m.mycpus i).startCycle b) insn) :
    After (advancePc b i insn)
      (fun _ u => Calm j v u ∧ (u.mycpus i).mapping = ((m.mycpus i).startCycle b).mapping ∧
        (∀ e, ¬AheadFault b insn ((m.mycpus i).startCycle b) e) ∧
        (TakesBreakpoint u insn (u.mycpus i) ↔ TakesBreakpoint m insn ((m.mycpus i).startCycle b)) ∧
        (u.mycpus i).expc = ((m.mycpus i).startCycle b).expc)
      (fun s u => s = .exception → Fine b (Lookup b m j (.turn i)) v (u.mycpus j) ∧
        (i = j → ∀ e, ((m.mycpus i).startCycle b).mapping.translate
          (((m.mycpus i).startCycle b).nextpc + 4) false = .error e →
          Calm j ((((m.mycpus i).startCycle b).nextpc + 4) &&& 0xfffff000) u)) (m.begun b i) := by
  have hIn : i = j → insn ≠ fullopRfe → (((m.begun b i).mycpus i).nextpc + 4) &&& 0xfff = 0 →
      Lookup b m j (.turn i) ((m.begun b i).mycpus i).mapping
        (((m.begun b i).mycpus i).nextpc + 4) false := by
    rw [begun_mycpus_self]
    rintro rfl hRfe hPage
    exact .ahead hState hFetched hRfe hPage
  have hAdvance := advancePc_leaves (b := b) hL hm.begun hIn
  rw [begun_mycpus_self] at hAdvance
  refine (hAdvance.and (advancePc_expc insn _)).mono ?_ fun _ _ h => h.1
  rintro _ u ⟨⟨hu, hMapping, hAhead⟩, hExpc⟩
  refine ⟨hu, hMapping, hAhead, takes_iff hExpc, ?_⟩
  rw [hExpc.1, begun_mycpus_self]

/-- Before an instruction is executed only the address ahead and a breakpoint are looked up. -/
theorem issue_leaves :
    After (issue b i)
      (fun is u => Fine b (Lookup b m j (.turn i)) v (u.mycpus j) ∧
        ∀ insn, is = .insn insn → Calm j v u ∧ Fetched m.ram ((m.mycpus i).startCycle b) insn ∧
          (∀ e, ¬AheadFault b insn ((m.mycpus i).startCycle b) e) ∧
          ¬TakesBreakpoint m insn ((m.mycpus i).startCycle b))
      (fun _ _ => True) m := by
  by_cases hState : (m.mycpus i).state = .running
  · rw [after_issue hState]
    cases hPage : ((m.mycpus i).startCycle b).pcpage with
    | none =>
      unfold fetch
      rw [after_bind, after_getCpu, after_bind, begun_mycpus_self, hPage, after_useMap_none]
      trivial
    | some page =>
      obtain ⟨insn, hFetched⟩ : ∃ insn, Fetched m.ram ((m.mycpus i).startCycle b) insn :=
        ⟨_, page, hPage, rfl⟩
      refine fetch_served (?_ : Fetched _ _ insn) (begun_advancePc hL hm hState hFetched) ?_ ?_ ?_
      · rw [begun_mycpus_self]
        exact hFetched
      · exact fun u hu => ⟨hu.1, nofun⟩
      · rintro u ⟨hu, hMapping, hAhead, hTakes, hExpc⟩ hBreak
        have hCalm : Calm j v (u.modCpu i fun c => { c with hitBreakpoint := false }) :=
          hu.modCpu fun _ => rfl
        unfold breakpoint
        rw [after_bind]
        refine (phonyException_leaves hL hCalm fun hij vaddr hOrder => ?_).mono (fun _ w hw => ?_)
          fun _ _ _ => trivial
        · rw [Machine.modCpu_mycpus_self] at hOrder ⊢
          subst hij
          change FetchOrder b (u.mycpus i).mapping (u.mycpus i).expc ((u.mycpus i).expc + 4) vaddr
            at hOrder
          change Lookup b m i (.turn i) (u.mycpus i).mapping vaddr false
          rw [hMapping, hExpc] at hOrder
          rw [hMapping]
          exact .breakpoint hState hFetched hAhead (hTakes.mp hBreak) hOrder
        · have hEnd := fine_modCpu (i := i)
            (u := { w with cpuCycling := false, stoppedInDebugger := true })
            (f := fun c => { c with exCount := c.exCount - 1, hitBreakpoint := true }) hw
            fun _ => ⟨rfl, rfl⟩
          exact ⟨hEnd, nofun⟩
      · rintro u ⟨hu, hMapping, hAhead, hTakes, hExpc⟩ hBreak
        have hCalm : Calm j v (u.modCpu i fun c => { c with hitBreakpoint := false }) :=
          hu.modCpu fun _ => rfl
        refine ⟨.inl hCalm, ?_⟩
        rintro insn' hInsn
        obtain rfl := Issue.insn.inj hInsn
        exact ⟨hCalm, hFetched, hAhead, fun h => hBreak (hTakes.mpr h)⟩
  · unfold issue
    rw [after_bind, after_getCpu, after_ite, if_pos hState]
    exact ⟨.inl hm, nofun⟩

omit hL hm in
/-- The address ahead that does not translate. -/
theorem issue_lands (hL : Settling (Lookup b m i (.turn i)) v) (hm : Calm i v m)
    (hState : (m.mycpus i).state = .running)
    (hFetched : Fetched m.ram ((m.mycpus i).startCycle b) insn) {e : Exn}
    (hRfe : insn ≠ fullopRfe) (hPage : (((m.mycpus i).startCycle b).nextpc + 4) &&& 0xfff = 0)
    (hFault : ((m.mycpus i).startCycle b).mapping.translate
      (((m.mycpus i).startCycle b).nextpc + 4) false = .error e) :
    After (issue b i)
      (fun _ u => Calm i ((((m.mycpus i).startCycle b).nextpc + 4) &&& 0xfffff000) u)
      (fun _ _ => True) m := by
  have hAhead : AheadFault b insn ((m.mycpus i).startCycle b) e :=
    ⟨hRfe, hPage, fetch_of_fault hFault⟩
  rw [after_issue hState]
  refine fetch_served (?_ : Fetched _ _ insn) (begun_advancePc hL hm hState hFetched) ?_ ?_ ?_
  · rw [begun_mycpus_self]
    exact hFetched
  · exact fun u hu => hu.2 rfl e hFault
  · exact fun u hu => absurd hAhead (hu.2.2.1 e)
  · exact fun u hu => absurd hAhead (hu.2.2.1 e)

omit hL hm in
/-- A breakpoint that cannot be executed again is the end of the program. -/
theorem issue_fails (hL : Settling (Lookup b m i (.turn i)) v) (hm : Calm i v m)
    (hState : (m.mycpus i).state = .running)
    (hFetched : Fetched m.ram ((m.mycpus i).startCycle b) insn)
    (hAhead : ∀ e, ¬AheadFault b insn ((m.mycpus i).startCycle b) e)
    (hTakes : TakesBreakpoint m insn ((m.mycpus i).startCycle b)) {vaddr : Word} {e : Exn}
    (hOrder : FetchOrder b ((m.mycpus i).startCycle b).mapping ((m.mycpus i).startCycle b).expc
      (((m.mycpus i).startCycle b).expc + 4) vaddr)
    (hFault : ((m.mycpus i).startCycle b).mapping.translate vaddr false = .error e) :
    After (issue b i) (fun _ _ => False) (fun _ _ => True) m := by
  have hBegun := (begun_advancePc hL hm hState hFetched).and (posts_advancePc insn (m.begun b i))
  rw [begun_mycpus_self] at hBegun
  rw [after_issue hState]
  refine fetch_served (F := fun _ => False) (?_ : Fetched _ _ insn)
    (hBegun.mono (fun _ _ hu => hu.1) ?_) (fun _ h => h.elim) ?_ ?_
  · rw [begun_mycpus_self]
    exact hFetched
  · intro s u hu hs
    obtain ⟨_, e', hAhead', -⟩ := hu.2 hs
    exact hAhead e' hAhead'
  · rintro u ⟨-, hMapping, -, -, hExpc⟩ -
    have hCpu : ((u.modCpu i fun c => { c with hitBreakpoint := false }).mycpus i).mapping =
        ((m.mycpus i).startCycle b).mapping ∧
        ((u.modCpu i fun c => { c with hitBreakpoint := false }).mycpus i).expc =
          ((m.mycpus i).startCycle b).expc := by
      rw [Machine.modCpu_mycpus_self]
      exact ⟨hMapping, hExpc⟩
    unfold breakpoint
    rw [after_bind]
    rw [← hCpu.1, ← hCpu.2] at hOrder
    rw [← hCpu.1] at hFault
    exact (phonyException_fails hOrder hFault).mono (fun _ _ h => h) fun _ _ _ => trivial
  · exact fun u hu hBreak => hBreak (hu.2.2.2.1.mpr hTakes)

end Issue

/-! ## Turns -/

section Turn

variable {m m' t u : Machine δ} {insn : Word}

theorem Trapped.tick {e : Exn} {c : Mipscpu} (h : Trapped b e c) : Trapped b e c.tick := by
  obtain ⟨c₀, h⟩ := h
  have hFetch : c.toFetchState = (c₀.exception b e).toFetchState := congrArg (fun r => r.1) h
  have hDelay : c.tick.toFetchState = { c.toFetchState with inJumpdelay := false } := rfl
  refine ⟨c₀, ?_⟩
  calc
    c.tick.trap = ({ c.toFetchState with inJumpdelay := false }, c.trap.2) := rfl
    _ = (c.toFetchState, c.trap.2) := by rw [hFetch]; rfl
    _ = (c₀.exception b e).trap := h

theorem fine_ticked (hu : Fine b L v (u.mycpus j)) (hEnd : u.ticked i m') :
    Fine b L v (m'.mycpus j) := by
  obtain ⟨sp, rfl⟩ := hEnd
  by_cases hij : j = i
  · subst hij
    have hTick : ({ u.modCpu j Mipscpu.tick with sPercpu := sp } : Machine δ).mycpus j =
        (u.mycpus j).tick := Machine.modCpu_mycpus_self u j _
    rw [hTick]
    obtain hKept | ⟨mp, vaddr, iswrite, e, hIn, hFault, hTrapped, hPage⟩ := hu
    · exact .inl hKept
    · exact .inr ⟨mp, vaddr, iswrite, e, hIn, hFault, hTrapped.tick, hPage⟩
  · have hSame : ({ u.modCpu i Mipscpu.tick with sPercpu := sp } : Machine δ).mycpus j = u.mycpus j :=
      Machine.modCpu_mycpus_ne u _ hij
    rw [hSame]
    exact hu

theorem Calm.ticked (hu : Calm j v u) (hEnd : u.ticked i m') : Calm j v m' := by
  obtain ⟨sp, rfl⟩ := hEnd
  have hTick := hu.modCpu (i := i) (f := Mipscpu.tick) fun _ => rfl
  exact hTick

variable (b) in
/-- VPAGE of cpu `j` after a step: as it was, or what MTC0 has moved there or TLBR has read, or the
page of an exception of the MMU that the cpu has taken. -/
inductive VpageAfter (m : Machine δ) (a : Act δ) (m' : Machine δ) (j : Nat) : Prop where
  | kept : (m'.mycpus j).vpage = (m.mycpus j).vpage → VpageAfter m a m' j
  | moved {insn : Word} {t : Machine δ} : a = .turn j → (issue b j).run m = .ok (.insn insn) t →
      IsMtc0 insn .tlbhi → (m'.mycpus j).vpage = (t.mycpus j).r (rt insn) &&& 0xfffff000 →
      VpageAfter m a m' j
  | read {insn : Word} {t : Machine δ} : a = .turn j → (issue b j).run m = .ok (.insn insn) t →
      cop0Op insn ∧ (insn &&& 0x01ffffff).toNat = 1 →
      (m'.mycpus j).vpage = ((t.mycpus j).tlb (t.mycpus j).tlbindex).mtVpn → VpageAfter m a m' j
  | faulted : Struck b (Lookup b m j a) (m'.mycpus j) → VpageAfter m a m' j

theorem VpageAfter.of_fine {a : Act δ}
    (h : Fine b (Lookup b m j a) (m.mycpus j).vpage (m'.mycpus j)) : VpageAfter b m a m' j :=
  h.elim .kept .faulted

/-- The two instructions that write TLBHI, in kernel mode. -/
theorem writes_vpage (hStep : Step b m (.turn i) m')
    (hIssue : (issue b i).run m = .ok (.insn insn) t) (hWrite : WritesTlbhi insn)
    (hUser : (t.mycpus i).currentUsermode = false) : VpageAfter b m (.turn i) m' i := by
  obtain ⟨stopped, hTurn⟩ := cpuTurn_of_step i hStep
  obtain ⟨u, hExec, hEnd⟩ := turn_ticked hTurn hIssue
  have hRan : ∀ {P : Machine δ → Prop},
      After (execute b i insn) (fun _ => P) (fun e _ => e ≠ .exception) t → P u := by
    intro P h
    obtain hExec | hExec := hExec
    · exact after_of_run_ok h hExec
    · exact absurd rfl (after_of_run_error h hExec)
  obtain hMtc0 | ⟨hOp, hTlbr⟩ := hWrite
  · refine .moved rfl hIssue hMtc0 ?_
    have hEq : (u.mycpus i).vpage = (t.mycpus i).r (rt insn) &&& 0xfffff000 := by
      refine hRan (P := fun u => (u.mycpus i).vpage = (t.mycpus i).r (rt insn) &&& 0xfffff000) ?_
      rw [after_execute_mtc0 i hMtc0 nofun hUser, Machine.modCpu_mycpus_self]
      rfl
    rw [hEnd.cpu, ← hEq]
    rfl
  · refine .read rfl hIssue ⟨hOp, hTlbr⟩ ?_
    have hEq : (u.mycpus i).vpage = ((t.mycpus i).tlb (t.mycpus i).tlbindex).mtVpn := by
      refine hRan (P := fun u =>
        (u.mycpus i).vpage = ((t.mycpus i).tlb (t.mycpus i).tlbindex).mtVpn) ?_
      rw [after_execute_cop0 i hOp hUser]
      simp only [mxCop0, hTlbr, mxTlbr, after_modCpu, Machine.modCpu_mycpus_self]
      rfl
    rw [hEnd.cpu, ← hEq]
    rfl

/-- What is looked up in a turn is settled. -/
theorem turn_vpage (hStep : Step b m (.turn i) m')
    (hL : Settling (Lookup b m j (.turn i)) (m.mycpus j).vpage) : VpageAfter b m (.turn i) m' j := by
  obtain ⟨stopped, hTurn⟩ := cpuTurn_of_step i hStep
  obtain ⟨is, hIssue, -⟩ | ⟨insn, t, u, hExec, hEnd⟩ := turn_inv hTurn
  · exact .of_fine (after_of_run_ok (issue_leaves hL rfl) hIssue).1
  · have hIssue : (issue b i).run m = .ok (.insn insn) t := hExec.elim (·.1) (·.1)
    have ht : Calm j (m.mycpus j).vpage t :=
      ((after_of_run_ok (issue_leaves hL rfl) hIssue).2 insn rfl).1
    by_cases hWrite : i = j → WritesTlbhi insn → (t.mycpus i).currentUsermode = true
    · have hLeaves := execute_leaves hL ht hWrite
        (fun hij mp vaddr iswrite h => by subst hij; exact .insn hIssue h)
        fun hStart vaddr hOrder => .start hIssue hStart hOrder
      refine .of_fine (fine_ticked ?_ hEnd)
      obtain ⟨-, hRun⟩ | ⟨-, hRun⟩ := hExec
      · have hEnds := after_of_run_ok hLeaves hRun
        exact hEnds
      · exact after_of_run_error hLeaves hRun rfl
    · simp only [Classical.not_imp, Bool.not_eq_true] at hWrite
      obtain ⟨rfl, hWrite, hUser⟩ := hWrite
      exact writes_vpage hStep hIssue hWrite hUser

/-- A failing one among the translations of a turn leaves its page in VPAGE. -/
theorem turn_page (hStep : Step b m (.turn i) m')
    (hL : Settling (Lookup b m j (.turn i)) (m.mycpus j).vpage) {mp : Mapping} {vaddr : Word}
    {iswrite : Bool} {e : Exn} (hLookup : Lookup b m j (.turn i) mp vaddr iswrite)
    (hFault : mp.translate vaddr iswrite = .error e) :
    (m'.mycpus j).vpage = vaddr &&& 0xfffff000 := by
  obtain ⟨stopped, hTurn⟩ := cpuTurn_of_step i hStep
  have hInsn : ∀ {insn : Word} {t u : Machine δ}, (issue b i).run m = .ok (.insn insn) t →
      Lands j vaddr (execute b i insn) t → u.ticked i m' →
      ((execute b i insn).run t = .ok () u ∨ (execute b i insn).run t = .error .exception u) →
      (m'.mycpus j).vpage = vaddr &&& 0xfffff000 := by
    intro insn t u hIssue hLands hEnd hRun
    have hu : Calm j (vaddr &&& 0xfffff000) u := by
      obtain hRun | hRun := hRun
      · have hEnds := after_of_run_ok hLands hRun
        exact hEnds
      · exact after_of_run_error hLands hRun rfl
    exact hu.ticked hEnd
  have hCalm : ∀ {insn : Word} {t : Machine δ}, (issue b i).run m = .ok (.insn insn) t →
      Calm j (m.mycpus j).vpage t := fun hIssue =>
    ((after_of_run_ok (issue_leaves hL rfl) hIssue).2 _ rfl).1
  have hLookups : ∀ {insn : Word} {t : Machine δ}, (issue b i).run m = .ok (.insn insn) t →
      i = j → ∀ mp vaddr iswrite, InsnLookup b i insn t mp vaddr iswrite →
        Lookup b m j (.turn i) mp vaddr iswrite := by
    rintro insn t hIssue rfl mp vaddr iswrite h
    exact .insn hIssue h
  cases hLookup with
  | @ahead insn hState hFetched hRfe hPage =>
    obtain ⟨is, hIssue, -⟩ | ⟨insn', t, u, hExec, -⟩ := turn_inv hTurn
    · have hLands := after_of_run_ok (issue_lands hL rfl hState hFetched hRfe hPage hFault) hIssue
      exact hLands
    · have hIssue : (issue b i).run m = .ok (.insn insn') t := hExec.elim (·.1) (·.1)
      obtain ⟨-, hFetched', hAhead, -⟩ := (after_of_run_ok (issue_leaves hL rfl) hIssue).2 _ rfl
      obtain rfl := hFetched.unique hFetched'
      exact absurd ⟨hRfe, hPage, fetch_of_fault hFault⟩ (hAhead e)
  | breakpoint hState hFetched hAhead hTakes hOrder =>
    have hFails := issue_fails hL rfl hState hFetched hAhead hTakes hOrder hFault
    obtain ⟨is, hIssue, -⟩ | ⟨insn', t, u, hExec, -⟩ := turn_inv hTurn
    · exact (after_of_run_ok hFails hIssue).elim
    · exact (after_of_run_ok hFails (hExec.elim (·.1) (·.1) : (issue b i).run m = _)).elim
  | @insn insn t _ _ _ hIssue hMade =>
    obtain ⟨u, hRun, hEnd⟩ := turn_ticked hTurn hIssue
    refine hInsn hIssue ?_ hEnd hRun
    exact execute_lands hL (hCalm hIssue) (hLookups hIssue rfl) hMade hFault
  | @start _ insn t _ hIssue hStart hOrder =>
    obtain ⟨u, hRun, hEnd⟩ := turn_ticked hTurn hIssue
    refine hInsn hIssue ?_ hEnd hRun
    exact (execute_starts_lands hL (hCalm hIssue) (hLookups hIssue) hStart
      (fun _ h => .start hIssue hStart h) hOrder hFault).mono (fun _ _ h => h) fun _ _ h => h.elim

end Turn

/-! ## Steps -/

section Step

variable {m m' : Machine δ} {a : Act δ}

/-- No turn of a cpu, and no new address to start at. -/
def Act.Quiet : Act δ → Prop
  | .turn _ | .setEntrypoint _ _ => False
  | _ => True

theorem vpage_of_quiet (hStep : Step b m a m') (hQuiet : a.Quiet) (j : Nat) :
    (m'.mycpus j).vpage = (m.mycpus j).vpage := by
  have hExec : After (a.exec b) (fun _ u => (u.mycpus j).vpage = (m.mycpus j).vpage)
      (fun _ _ => False) m := by
    cases a with
    | turn i | setEntrypoint i addr => exact hQuiet.elim
    | raiseIrq slot => exact deviceIrq_mycpus b (g := Mipscpu.vpage) (fun _ _ _ => rfl) m slot true j
    | lowerIrq slot => exact deviceIrq_mycpus b (g := Mipscpu.vpage) (fun _ _ _ => rfl) m slot false j
    | setIrqs i lamebus ipi =>
      exact cpuSetIrqs_mycpus (g := Mipscpu.vpage) (fun _ _ _ => rfl) m i lamebus ipi j
    | setStack i stackaddr argument =>
      have hCalm : Calm j (m.mycpus j).vpage m := rfl
      exact hCalm.modCpu fun _ => rfl
    | devices d | poke index val | debugger cycling stopped lethal gdbReady => rfl
  have hEnds := after_of_run_ok hExec hStep.2
  exact hEnds

variable (b m a) in
/-- Each address that a step translates for a cpu is in kseg0 or kseg1, or on the page in VPAGE of
the cpu, or its translation fails with an exception of the TLB. -/
def Settled : Prop := ∀ j, Settling (Lookup b m j a) (m.mycpus j).vpage

theorem step_vpage (hStep : Step b m a m') (hSettled : Settled b m a) (j : Nat) :
    VpageAfter b m a m' j ∧ ∀ mp vaddr iswrite e, Lookup b m j a mp vaddr iswrite →
      mp.translate vaddr iswrite = .error e → (m'.mycpus j).vpage = vaddr &&& 0xfffff000 := by
  cases a with
  | turn i =>
    exact ⟨turn_vpage hStep (hSettled j), fun _ _ _ _ => turn_page hStep (hSettled j)⟩
  | setEntrypoint i addr =>
    constructor
    · have hFine := after_of_run_ok (cpuSetEntrypoint_fine (j := j) (hSettled j) rfl
        fun hij _ hOrder => by subst hij; exact .entry hOrder) hStep.2
      exact .of_fine hFine
    · intro mp vaddr iswrite e hLookup hFault
      cases hLookup with
      | entry hOrder =>
        have hLands := after_of_run_ok (cpuSetEntrypoint_lands (hSettled j) rfl
          (fun _ h => .entry h) hOrder hFault) hStep.2
        exact hLands
  | _ => exact ⟨.kept (vpage_of_quiet hStep trivial j), nofun⟩

/-- In a run all of whose translations are settled VPAGE of a cpu changes by MTC0, TLBR and the
exceptions of the MMU alone, and each of these leaves the page of its address there. -/
theorem vpage_changes {m₀ : Machine δ} {p : List (Act δ × Machine δ)} (hRun : Path (Step b) m₀ p m)
    (hSettled : AllSteps (fun m a _ => Settled b m a) m₀ p) :
    AllSteps (fun m a m' => ∀ j, VpageAfter b m a m' j ∧
      ∀ mp vaddr iswrite e, Lookup b m j a mp vaddr iswrite →
        mp.translate vaddr iswrite = .error e → (m'.mycpus j).vpage = vaddr &&& 0xfffff000) m₀ p := by
  induction hRun with
  | nil => trivial
  | cons hStep _ ih => exact ⟨step_vpage hStep hSettled.1, ih hSettled.2⟩

/-- A cpu that is to start at an address that is not mapped. -/
theorem vpage_changes_entry : ∃ m', Step bareBoard (machineInit () false) (.setEntrypoint 0 0x1000) m' ∧
    VpageAfter bareBoard (machineInit () false) (.setEntrypoint 0 0x1000) m' 0 ∧
    (m'.mycpus 0).vpage = 0x1000 := by
  have hSeen : seen bareBoard [.setEntrypoint 0 0x1000] (machineInit () false) (fun _ => ()) =
      some () := by decide +kernel
  have hFault : ((machineInit () false).mycpus 0).mapping.translate 0x1000 false =
      .error ⟨.tlbl, 1, 0x1000⟩ := by decide
  obtain ⟨p, m', hRun, hActs, -⟩ := path_of_seen hSeen (by decide)
  cases hRun with
  | nil => cases hActs
  | @cons _ t _ a p hStep hRest =>
    obtain ⟨rfl, hNil⟩ := List.cons.inj hActs
    obtain rfl := List.map_eq_nil_iff.mp hNil
    have hSettled : Settled bareBoard (machineInit () false) (.setEntrypoint 0 0x1000) := by
      intro j mp vaddr iswrite hLookup
      cases hLookup with
      | entry hOrder =>
        cases hOrder with
        | pc =>
          rw [show ((0x1000 : Word) &&& 0xfffffffc) = 0x1000 by decide, hFault]
          exact .inl trivial
        | nextpc hFetch =>
          rw [show ((0x1000 : Word) &&& 0xfffffffc) = 0x1000 by decide, fetch_of_fault hFault] at hFetch
          cases hFetch
    obtain ⟨hAfter, hPage⟩ := (vpage_changes (.cons hStep (.nil t)) ⟨hSettled, trivial⟩).1 0
    exact ⟨t, hStep, hAfter, hPage _ _ _ _ (.entry .pc) hFault⟩

/-- A kernel maps a page, moves another one to TLBHI, and loads from the first. -/
def loadAfterMtc0 : List (Act Unit) :=
  [.poke 0 0x24021000, .poke 1 0x40825000, .poke 2 0x24030600, .poke 3 0x40831000,
    .poke 4 0x42000002, .poke 5 0x24042000, .poke 6 0x40845000, .poke 7 0x8c450000,
    .setEntrypoint 0 0x80000000, .turn 0, .turn 0, .turn 0, .turn 0, .turn 0, .turn 0, .turn 0]

/-- The load succeeds, and TLBHI has lost what was moved there. -/
theorem vpage_lost : ∃ p m m', Path (Step bareBoard) (machineInit () false) p m ∧
    p.map Prod.fst = loadAfterMtc0 ∧ Step bareBoard m (.turn 0) m' ∧
    (m.mycpus 0).vpage = 0x2000 ∧ (m'.mycpus 0).vpage = 0x1000 ∧
    ¬VpageAfter bareBoard m (.turn 0) m' 0 := by
  have hSeen : seen bareBoard loadAfterMtc0 (machineInit () false) (fun m =>
      ((m.mycpus 0).vpage, (turned bareBoard 0 m).map fun r =>
        (r.1, (r.2.2.mycpus 0).vpage, (r.2.2.mycpus 0).pc))) =
      some (0x2000, some (0x8c450000, 0x1000, 0x80000020)) := by
    decide +kernel
  obtain ⟨p, m, hPath, hActs, hLook⟩ := path_of_seen hSeen (by decide)
  obtain ⟨hBefore, hTurned⟩ := Prod.mk.inj hLook
  obtain ⟨⟨insn, c, m'⟩, hTurn, hAfter⟩ := Option.map_eq_some_iff.mp hTurned
  obtain ⟨rfl, hVpage, hPc⟩ := by simpa only [Prod.mk.injEq] using hAfter
  obtain ⟨hStep, t, hIssue, -⟩ := of_turned (by decide) hTurn
  have hInsn : ∀ {insn : Word} {t' : Machine Unit},
      (issue bareBoard 0).run m = .ok (.insn insn) t' → insn = 0x8c450000 := by
    intro insn t' h
    exact Issue.insn.inj (EStateM.Result.ok.inj (h.symm.trans hIssue)).1
  refine ⟨p, m, m', hPath, hActs, hStep, hBefore, hVpage, ?_⟩
  rintro (hKept | ⟨-, h, hMtc0, -⟩ | ⟨-, h, ⟨hOp, -⟩, -⟩ | ⟨-, -, -, e, -, -, ⟨c₀, hTrap⟩, -⟩)
  · rw [hBefore, hVpage] at hKept
    revert hKept
    decide
  · obtain rfl := hInsn h
    exact absurd hMtc0.1 (by decide)
  · obtain rfl := hInsn h
    exact absurd hOp.1 (by decide)
  · have hVector : (m'.mycpus 0).pc = (c₀.exception bareBoard e).pc :=
      congrArg (fun r : FetchState × StatusReg × CauseReg × Cop0Regs => r.1.pc) hTrap
    rw [hPc] at hVector
    obtain h | h | h | h := exception_pc bareBoard c₀ e <;> rw [h] at hVector <;>
      revert hVector <;> decide

end Step

end Sys161.Mips
