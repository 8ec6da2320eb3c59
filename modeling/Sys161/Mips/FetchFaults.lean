import Sys161.Mips.Isolation
import Sys161.Mips.Tlb

/-!
# Exceptions on instruction addresses

Where in a turn an address that instructions are fetched from fails to
translate: two instructions ahead at the end of a page, at the target of a
branch, and where the translation itself has changed.
-/

namespace Sys161.Mips

open Exec Runs

set_option autoImplicit false

variable {δ α : Type} {b : Board δ} (i : Nat)

/-! ## Turns without an exception -/

/-- The registers that nothing but `exception()` writes. -/
def Mipscpu.excepted (c : Mipscpu) : Word × Bool × Word × Word :=
  (c.exEpc, c.causeBd, c.causeCe, c.causeCode)

/-- The cpu has taken no exception since the state `t`, or else `hang()` has been called. -/
def Unraised (t m : Machine δ) : Prop :=
  t.hangs.length ≤ m.hangs.length ∧
    (m.hangs.length = t.hangs.length → (m.mycpus i).excepted = (t.mycpus i).excepted)

variable {i} in
theorem Unraised.refl (t : Machine δ) : Unraised i t t := ⟨le_rfl, fun _ => rfl⟩

variable {i} {t : Machine δ}

theorem Unraised.of_eq {m m' : Machine δ} (hm : Unraised i t m) (hHangs : m'.hangs = m.hangs)
    (hCpu : (m'.mycpus i).excepted = (m.mycpus i).excepted) : Unraised i t m' := by
  obtain ⟨hLe, hSame⟩ := hm
  rw [← hHangs] at hLe hSame
  exact ⟨hLe, fun h => hCpu.trans (hSame h)⟩

theorem unraised_setCpu {m : Machine δ} (k : Nat) {c : Mipscpu}
    (hc : c.excepted = (m.mycpus k).excepted) (hm : Unraised i t m) : Unraised i t (m.setCpu k c) := by
  refine hm.of_eq rfl ?_
  by_cases hk : i = k
  · subst hk
    rw [Machine.setCpu_mycpus_self, hc]
  · rw [Machine.setCpu_mycpus_ne m c hk]

theorem unraised_modCpu {m : Machine δ} (k : Nat) {f : Mipscpu → Mipscpu}
    (hf : ∀ c, (f c).excepted = c.excepted) (hm : Unraised i t m) : Unraised i t (m.modCpu k f) :=
  unraised_setCpu k (hf _) hm

/-- After a hang, and be it for an exception, nothing more is asked. -/
theorem unraised_hung {m : Machine δ} (why : Hang) (hm : t.hangs.length ≤ m.hangs.length) :
    Unraised i t (m.hung why) := by
  have hLength : (m.hung why).hangs.length = m.hangs.length + 1 := rfl
  constructor <;> omega

theorem ownBlind_unraised : OwnBlind i (Unraised i t) where
  cpu c m hc hm := by
    refine hm.of_eq rfl ?_
    have hCause : c.toCauseReg = (m.mycpus i).toCauseReg := congrArg (fun g => g.2.2.1) hc
    have hCop0 : c.toCop0Regs = (m.mycpus i).toCop0Regs := congrArg (fun g => g.2.2.2.1) hc
    rw [Machine.setCpu_mycpus_self, Mipscpu.excepted, hCause, hCop0]
    rfl
  stats _ _ hm := hm
  debugger _ _ _ _ hm := hm

theorem busKeeps_unraised : BusKeeps b (Unraised i t) fun _ _ => True where
  smoke _ _ _ := trivial
  pastCram _ _ := trivial
  hang why _ hm := unraised_hung why hm.1
  devices _ _ hm := hm
  deviceIrq slot raised m _ hm := by
    refine hm.of_eq ?_ (deviceIrq_mycpus b (g := Mipscpu.excepted) (fun _ _ _ => rfl) m slot raised i)
    cases raised <;> exact (irqupdate_same b _).hangs
  cram _ _ _ hm := hm
  cirqe _ _ _ _ hm := hm.of_eq (irqupdate_same b _).hangs
    (irqupdate_mycpus b (g := Mipscpu.excepted) (fun _ _ _ => rfl) _ i)
  cipi j _ _ _ hm := hm.of_eq (cpuSetIrqs_same _ j _ _).hangs
    (cpuSetIrqs_mycpus (g := Mipscpu.excepted) (fun _ _ _ => rfl) _ j _ _ i)
  irqe _ _ hm := hm.of_eq (irqupdate_same b _).hangs
    (irqupdate_mycpus b (g := Mipscpu.excepted) (fun _ _ _ => rfl) _ i)

/-- A program that makes no exception known but by its throw, and prints nothing then. -/
def Announces (x : M δ Unit) : Prop :=
  ∀ m, Unraised i t m → After x (fun _ => Unraised i t)
    (fun e m' => e = .exception → t.hangs.length ≤ m'.hangs.length) m

theorem unraised_hangUnless {x : M δ Unit} (hx : Announces (i := i) (t := t) x) :
    Ends (Unraised i t) (hangUnless x) := by
  intro m hm
  unfold hangUnless
  rw [after_bind, after_attempt]
  refine (hx m hm).mono (fun _ _ hm' => hm') fun e m' hm' => ?_
  cases e with
  | exception => exact unraised_hung _ (hm' rfl)
  | smoke msg => trivial
  | undefined msg => trivial

theorem translated_excepted (c : Mipscpu) (vaddr : Word) (iswrite : Bool) :
    (c.translated vaddr iswrite).excepted = c.excepted := by
  obtain h | h := translated_eq c vaddr iswrite <;> rw [h]
  rfl

theorem announces_precomputePc (j : Nat) : Announces (i := i) (t := t) (precomputePc b j) := by
  intro m hm
  rw [after_precomputePc]
  dsimp only
  split
  · exact unraised_setCpu j (translated_excepted (m.mycpus j) (m.mycpus j).pc false) hm
  · exact fun _ => hm.1

theorem announces_precomputeNextpc (j : Nat) :
    Announces (i := i) (t := t) (precomputeNextpc b j) := by
  intro m hm
  rw [after_precomputeNextpc]
  dsimp only
  split
  · exact unraised_setCpu j (translated_excepted (m.mycpus j) (m.mycpus j).nextpc false) hm
  · exact fun _ => hm.1

/-- A cpu that is started at an address that cannot be fetched hangs. -/
theorem unraised_setCpue (val : Word) : Ends (Unraised i t) (setCpue b val) := by
  have hRest : ∀ (j : Nat) (addr : Word), Ends (Unraised i t) (do
      let addr := addr &&& 0xfffffffc
      modCpu j fun c =>
        { c with r := Function.update c.r 25 addr, expc := addr, pc := addr, nextpc := addr + 4 }
      hangUnless (precomputePc b j)
      hangUnless (precomputeNextpc b j)) := fun j addr =>
    Keeps.bind (fun _ hm => unraised_modCpu j (fun _ => rfl) hm) fun _ =>
      Keeps.bind (unraised_hangUnless (announces_precomputePc j)) fun _ =>
        unraised_hangUnless (announces_precomputeNextpc j)
  refine Keeps.forM fun j _ => Keeps.bind Keeps.get fun m => Keeps.ite (fun _ => ?_) fun _ =>
    Keeps.ite (fun _ => ?_) fun _ => Keeps.pure _
  · exact Keeps.bind (fun _ hm => hm) fun _ =>
      Keeps.bind (fun _ hm => unraised_modCpu j (fun _ => rfl) hm) fun _ _ hm => hm
  · refine Keeps.bind (Keeps.ite (fun _ => ?_) fun _ => hRest j _) fun _ =>
      Keeps.bind (fun _ hm => unraised_modCpu j (fun _ => rfl) hm) fun _ =>
        Keeps.bind (fun _ hm => unraised_modCpu j (fun _ => rfl) hm) fun _ _ hm => hm
    exact Keeps.bind (fun _ hm => unraised_hung _ hm.1) fun _ => hRest j _

theorem ioKeeps_unraised : IoKeeps b (Unraised i t) fun _ _ => True where
  toBusKeeps := busKeeps_unraised
  setCpue := unraised_setCpue

/-- TLBWI, TLBWR and RFE. -/
def Retranslates (insn : Word) : Prop :=
  cop0Op insn ∧ ((insn &&& 0x01ffffff).toNat = 2 ∨ (insn &&& 0x01ffffff).toNat = 6 ∨
    (insn &&& 0x01ffffff).toNat = 16)

/-- Any other instruction that comes to its end has posted no exception. -/
theorem execute_unraised {insn : Word} (hInsn : ¬ Retranslates insn) :
    Ends (Unraised i t) (execute b i insn) := by
  have hOwn := ownBlind_unraised (i := i) (t := t)
  have hRules : Rules b i insn (Unraised i t) fun _ _ => True := {
    smoke := fun _ _ _ => trivial
    undefined := fun _ _ => trivial
    raise := fun _ _ _ => trivial
    reg := fun _ _ _ _ hm => unraised_modCpu i (fun _ => rfl) hm
    hilo := fun _ _ _ _ _ hm => unraised_modCpu i (fun _ => rfl) hm
    phonyException := hOwn.phonyException
    abranch := hOwn.abranch
    translatemem := hOwn.translatemem
    domemFetch := fun vaddr willbewrite =>
      busKeeps_unraised.domemFetch i (hOwn.translatemem vaddr willbewrite) fun _ _ _ => trivial
    domemStore := fun _ vaddr val =>
      ioKeeps_unraised.domemStore i (hOwn.translatemem vaddr true) (fun _ _ _ => trivial)
        fun _ _ hm => hm
    ll := fun _ _ _ _ hm => unraised_modCpu i (fun _ => rfl) hm
    hang := fun why _ _ _ hm => unraised_hung why hm.1
    mtc0 := fun c0 _ _ _ hm => unraised_modCpu i (fun _ => by cases c0 <;> rfl) hm
    reduceRandom := fun _ _ hm => unraised_modCpu i (fun _ => rfl) hm
    probetlb := fun m _ hm => by
      unfold probetlb
      rw [after_bind, after_getCpu]
      split
      · exact unraised_modCpu i (fun _ => rfl) hm
      · exact unraised_modCpu i (fun _ => rfl) hm
    tlbr := fun _ _ _ _ hm => unraised_modCpu i (fun _ => rfl) hm
    writetlb := fun _ _ hOp hFunct _ _ =>
      absurd ⟨hOp, hFunct.elim .inl fun h => .inr (.inl h)⟩ hInsn
    doWait := fun m _ hm => by
      unfold doWait
      rw [after_bind, after_getCpu]
      split
      · exact unraised_modCpu i (f := fun c => { c with state := .idle }) (fun _ => rfl) hm
      · exact hm
    doRfe := fun _ hOp hFunct _ _ => absurd ⟨hOp, .inr (.inr hFunct)⟩ hInsn }
  exact hRules.execute

/-! ## Translations made anew -/

/-- The mapping after TLBWI or TLBWR, or RFE. -/
inductive Remade (insn : Word) (c : Mipscpu) : Mapping → Prop where
  | entry (ix : Nat) : (insn &&& 0x01ffffff).toNat = 2 ∨ (insn &&& 0x01ffffff).toNat = 6 →
      Remade insn c { c.mapping with tlb := Function.update c.tlb ix c.tlbentry }
  | mode : (insn &&& 0x01ffffff).toNat = 16 →
      Remade insn c { c.mapping with usermode := c.prevUsermode }

variable (b) in
/-- What is wrong with the next two addresses in a mapping that an instruction has made. -/
def RemadeFault (insn : Word) (c : Mipscpu) (e : Exn) : Prop :=
  cop0Op insn ∧ ∃ mp, Remade insn c mp ∧
    (mp.fetch b c.pc = .error e ∨ mp.fetch b c.nextpc = .error e)

variable (b i) in
/-- The cpu is as `exception()` leaves it. -/
def Took (e : Exn) (u : Machine δ) : Prop := ∃ c, u.mycpus i = Mipscpu.exception b c e

/-- The address after the vector is there, in a segment that the TLB does not map. -/
theorem precomputeNextpc_vector (m : Machine δ) (c : Mipscpu) (e : Exn) :
    After (precomputeNextpc b i) (fun _ u => u = m.setCpu i (c.exception b e)) (fun _ _ => False)
      (m.setCpu i (c.exception b e)) := by
  obtain ⟨page, -, hNextpcpage, -, hFetch⟩ := exception_precomputed b c e
  have hSegment : (c.exception b e).nextpc >>> 30 = 2 := by
    rw [exception_nextpc]
    obtain h | h | h | h := exception_pc b c e <;> rw [h] <;> decide
  rw [after_precomputeNextpc, Machine.setCpu_mycpus_self]
  dsimp only
  rw [hFetch]
  dsimp only
  rw [translated_unmapped hSegment, Mipscpu.setNextpcpage, ← hNextpcpage, Machine.setCpu_setCpu]

/-- Once an exception has been taken, there is nothing wrong with the address of the handler. -/
theorem attempt_precomputeNextpc_took (m : Machine δ) (c : Mipscpu) (e : Exn) :
    After (attempt (precomputeNextpc b i)) (fun _ u => Took b i e u ∧ u.hangs = m.hangs)
      (fun _ _ => False) (m.setCpu i (c.exception b e)) := by
  rw [after_attempt]
  refine (precomputeNextpc_vector m c e).mono (fun _ u hu => ?_) fun _ _ h => h.elim
  rw [hu]
  exact ⟨⟨c, Machine.setCpu_mycpus_self m i _⟩, rfl⟩

/-- What bringing both translations up to date can come to. -/
theorem precomputeBoth_took (m : Machine δ) :
    After (precomputeBoth b i)
      (fun _ u => u.hangs = m.hangs ∧ ((u.mycpus i).excepted = (m.mycpus i).excepted ∨
        ∃ e, ((m.mycpus i).mapping.fetch b (m.mycpus i).pc = .error e ∨
          (m.mycpus i).mapping.fetch b (m.mycpus i).nextpc = .error e) ∧ Took b i e u))
      (fun _ _ => False) m := by
  unfold precomputeBoth
  rw [after_bind, after_attempt, after_precomputePc]
  dsimp only
  cases hPc : (m.mycpus i).mapping.fetch b (m.mycpus i).pc with
  | error e =>
    dsimp only [caught]
    rw [after_bind]
    refine (attempt_precomputeNextpc_took m _ e).mono (fun _ u hu => ?_) fun _ _ h => h
    exact ⟨hu.2, .inr ⟨e, .inl rfl, hu.1⟩⟩
  | ok at_ =>
    dsimp only
    rw [after_bind, after_attempt, after_precomputeNextpc, Machine.setCpu_mycpus_self]
    generalize hc : ((m.mycpus i).translated (m.mycpus i).pc false).setPcpage at_.1 at_.2 = c
    have hMapping : c.mapping = (m.mycpus i).mapping := by
      rw [← hc]
      exact translated_mapping _ _ _
    have hNextpc : c.nextpc = (m.mycpus i).nextpc := by
      have hFetch := congrArg FetchState.nextpc
        (translated_toFetchState (m.mycpus i) (m.mycpus i).pc false)
      rw [← hc]
      exact hFetch
    have hSame : c.excepted = (m.mycpus i).excepted := by
      rw [← hc]
      exact translated_excepted _ (m.mycpus i).pc false
    dsimp only
    rw [hMapping, hNextpc]
    cases (m.mycpus i).mapping.fetch b (m.mycpus i).nextpc with
    | error e =>
      refine ⟨rfl, .inr ⟨e, .inr rfl, c.translated (m.mycpus i).nextpc false, ?_⟩⟩
      rw [Machine.setCpu_mycpus_self]
    | ok next =>
      refine ⟨rfl, .inl ?_⟩
      rw [Machine.setCpu_mycpus_self]
      exact (translated_excepted c (m.mycpus i).nextpc false).trans hSame

theorem writetlb_took {insn : Word} (hOp : cop0Op insn)
    (hFunct : (insn &&& 0x01ffffff).toNat = 2 ∨ (insn &&& 0x01ffffff).toNat = 6) (ix : Int)
    {m : Machine δ} (hm : Unraised i t m) :
    After (writetlb b i ix)
      (fun _ u => Unraised i t u ∨ ∃ e, RemadeFault b insn (m.mycpus i) e ∧ Took b i e u)
      (fun _ _ => True) m := by
  unfold writetlb
  rw [after_ite]
  split
  · rw [after_bind, after_modCpu, after_bind]
    generalize hm₁ : m.modCpu i _ = m₁
    have hUnraised : Unraised i t m₁ := by
      rw [← hm₁]
      exact unraised_modCpu i (fun _ => rfl) hm
    refine (after_checkTlbDups i _ m₁).mono ?_ fun _ _ h => h.elim
    rintro _ m₂ ⟨hCpus, -, hHangs⟩
    refine (precomputeBoth_took m₂).mono ?_ fun _ _ h => h.elim
    rintro _ u ⟨hSame, hTook⟩
    rw [hCpus] at hTook
    have hLength : m₁.hangs.length ≤ u.hangs.length := by
      rw [hSame, hHangs, List.length_append]
      omega
    obtain hNone | ⟨e, hFault, hTook⟩ := hTook
    · refine .inl ⟨hUnraised.1.trans hLength, fun h => hNone.trans (hUnraised.2 ?_)⟩
      have := hUnraised.1
      omega
    · refine .inr ⟨e, ⟨hOp, _, .entry ix.toNat hFunct, ?_⟩, hTook⟩
      rw [← hm₁, Machine.modCpu_mycpus_self] at hFault
      exact hFault
  · trivial

theorem remadeFault_reduceRandom {insn : Word} {c : Mipscpu} {e : Exn}
    (h : RemadeFault b insn c.reduceRandom e) : RemadeFault b insn c e := by
  obtain ⟨hOp, mp, hMade, hFault⟩ := h
  cases hMade with
  | entry ix hFunct => exact ⟨hOp, _, .entry ix hFunct, hFault⟩
  | mode hFunct => exact ⟨hOp, _, .mode hFunct, hFault⟩

theorem doRfe_took {insn : Word} (hOp : cop0Op insn) (hFunct : (insn &&& 0x01ffffff).toNat = 16)
    {m : Machine δ} (hm : Unraised i t m) :
    After (doRfe b i)
      (fun _ u => Unraised i t u ∨ ∃ e, RemadeFault b insn (m.mycpus i) e ∧ Took b i e u)
      (fun _ _ => True) m := by
  unfold doRfe
  rw [after_bind, after_getCpu, after_ite]
  split
  · trivial
  rw [after_bind, after_modCpu]
  generalize hm₁ : m.modCpu i _ = m₁
  have hUnraised : Unraised i t m₁ := by
    rw [← hm₁]
    exact unraised_modCpu i (fun _ => rfl) hm
  refine (precomputeBoth_took m₁).mono ?_ fun _ _ h => h.elim
  rintro _ u ⟨hHangs, hNone | ⟨e, hFault, hTook⟩⟩
  · exact .inl (hUnraised.of_eq hHangs hNone)
  · refine .inr ⟨e, ⟨hOp, _, .mode hFunct, ?_⟩, hTook⟩
    rw [← hm₁, Machine.modCpu_mycpus_self] at hFault
    exact hFault

/-- What an instruction that comes to its end can have posted. -/
theorem execute_took (insn : Word) {m : Machine δ} (hm : Unraised i t m) :
    After (execute b i insn)
      (fun _ u => Unraised i t u ∨ ∃ e, RemadeFault b insn (m.mycpus i) e ∧ Took b i e u)
      (fun _ _ => True) m := by
  by_cases hInsn : Retranslates insn
  · obtain ⟨⟨hCop, hcn, hrs⟩, hFunct⟩ := hInsn
    have hOp : cop0Op insn := ⟨hCop, hcn, hrs⟩
    simp only [execute, hCop, mxCopz, after_bind, after_getCpu]
    split
    · trivial
    obtain hFunct | hFunct | hFunct := hFunct <;> simp only [mxCop0, hFunct]
    · rw [mxTlbwi, after_bind, after_getCpu]
      exact writetlb_took hOp (.inl hFunct) _ hm
    · rw [mxTlbwr, after_bind, after_modCpu, after_bind, after_getCpu]
      have hReduced := unraised_modCpu i (f := Mipscpu.reduceRandom) (fun _ => rfl) hm
      refine (writetlb_took (b := b) hOp (.inr hFunct) _ hReduced).mono (fun _ u hu => ?_)
        fun _ _ h => h
      rw [Machine.modCpu_mycpus_self] at hu
      refine hu.imp_right ?_
      rintro ⟨e, hFault, hTook⟩
      exact ⟨e, remadeFault_reduceRandom hFault, hTook⟩
    · exact doRfe_took hOp hFunct hm
  · exact (execute_unraised hInsn m hm).mono (fun _ _ => .inl) fun _ _ h => h

/-! ## Turns -/

variable (b i) in
/-- The state after the interrupt that a running cpu may take as its turn starts. -/
def Machine.started (m : Machine δ) : Machine δ :=
  if (m.mycpus i).state = .running then m.modCpu i fun c => c.startCycle b else m

variable (b i) in
/-- What else a cpu takes an exception for in its turn. -/
inductive Reason (m : Machine δ) (e : Exn) : Prop where
  | ahead {insn : Word} : Fetched m.ram ((m.mycpus i).startCycle b) insn →
      AheadFault b insn ((m.mycpus i).startCycle b) e → Reason m e
  | cause {insn : Word} {t : Machine δ} : (issue b i).run m = .ok (.insn insn) t →
      Cause b insn ((t.linked i insn).mycpus i) e → Reason m e
  | remade {insn : Word} {t : Machine δ} : (issue b i).run m = .ok (.insn insn) t →
      RemadeFault b insn (t.mycpus i) e → Reason m e

variable (b i) in
/-- The cpu has taken an exception, in the cycle that may have ended since. -/
def TookInTurn (e : Exn) (m' : Machine δ) : Prop := ∃ u, Took b i e u ∧ (m' = u ∨ u.ticked i m')

theorem Raised.took {P : Exn → Prop} {u : Machine δ} (h : Raised b i P t u) :
    ∃ e, P e ∧ Took b i e u := by
  obtain ⟨m, e, he, -, rfl⟩ := h
  exact ⟨e, he, m.mycpus i, Machine.modCpu_mycpus_self m i _⟩

theorem issue_unraised (m : Machine δ) :
    After (issue b i) (fun is u => is ≠ .fault → Unraised i (m.started b i) u) (fun _ _ => True) m := by
  unfold Machine.started
  split
  · rename_i hState
    exact ownBlind_unraised.issue_started hState (.refl _)
  · rename_i hState
    unfold issue
    rw [after_bind, after_getCpu, after_ite, if_pos hState]
    exact fun _ => .refl _

theorem turn_exceptions {m m' : Machine δ} {stopped : Bool}
    (hTurn : (cpuTurn b i).run m = .ok stopped m') :
    Unraised i (m.started b i) m' ∨ ∃ e, Reason b i m e ∧ TookInTurn b i e m' := by
  obtain ⟨is, hIssue, -⟩ | ⟨insn, t, u, hExec, hEnd⟩ := turn_inv hTurn
  · by_cases hFault : is = .fault
    · obtain ⟨insn, hFetched, hRaised⟩ := after_of_run_ok (issue_fault m) hIssue hFault
      obtain ⟨e, hAhead, hTook⟩ := hRaised.took
      exact .inr ⟨e, .ahead hFetched hAhead, m', hTook, .inl rfl⟩
    · exact .inl (after_of_run_ok (issue_unraised m) hIssue hFault)
  · obtain ⟨hIssue, hExec⟩ | ⟨hIssue, hExec⟩ := hExec
    · have ht := after_of_run_ok (issue_unraised m) hIssue nofun
      obtain hUnraised | ⟨e, hFault, hTook⟩ := after_of_run_ok (execute_took (b := b) insn ht) hExec
      · obtain ⟨sp, rfl⟩ := hEnd
        exact .inl (unraised_modCpu i (f := Mipscpu.tick) (fun _ => rfl) hUnraised)
      · exact .inr ⟨e, .remade hIssue hFault, u, hTook, .inr hEnd⟩
    · have hRaised := after_of_run_error (execute_posts t) hExec rfl
      obtain ⟨e, hCause, hTook⟩ := hRaised.took
      exact .inr ⟨e, .cause hIssue hCause, u, hTook, .inr hEnd⟩

theorem advancePc_refuses {m : Machine δ} {insn : Word} {e : Exn}
    (hAhead : AheadFault b insn (m.mycpus i) e) :
    After (advancePc b i insn) (fun _ _ => False) (fun stop _ => stop = .exception) m := by
  have hPage : (m.mycpus i).advance.nextpc &&& 0xfff = 0 := hAhead.page
  have hFetch : (m.mycpus i).advance.mapping.fetch b (m.mycpus i).advance.nextpc = .error e :=
    hAhead.fetch
  unfold advancePc
  rw [after_bind, after_modCpu, after_bind, after_getCpu, Machine.modCpu_mycpus_self, after_ite,
    if_pos hPage, after_ite, if_neg hAhead.notRfe, after_precomputeNextpc,
    Machine.modCpu_mycpus_self]
  dsimp only
  rw [hFetch]

/-- Where the address ahead fails, the instruction is refused, whatever it would do. -/
theorem issue_refuses {m : Machine δ} (hState : (m.mycpus i).state = .running) {insn : Word}
    (hFetched : Fetched m.ram ((m.mycpus i).startCycle b) insn) {e : Exn}
    (hAhead : AheadFault b insn ((m.mycpus i).startCycle b) e) :
    After (issue b i) (fun is _ => is = .fault) (fun _ _ => False) m := by
  obtain ⟨page, hPage, hInsn⟩ := hFetched
  unfold issue countCycle
  rw [after_bind, after_getCpu, after_ite, if_neg (by simp [hState]), after_bind, after_modCpu,
    after_bind, after_modify]
  generalize hm₁ : Machine.countStats _ _ _ = m₁
  have hCpu : m₁.mycpus i = (m.mycpus i).startCycle b := by
    rw [← hm₁]
    exact Machine.modCpu_mycpus_self m i _
  have hRam : m₁.ram = m.ram := by rw [← hm₁]; rfl
  unfold fetch
  rw [after_bind, after_getCpu, after_bind, hCpu, hPage, after_useMap_some, hRam, hInsn, after_bind,
    after_attempt]
  rw [← hCpu] at hAhead
  refine (advancePc_refuses hAhead).mono (fun _ _ h => h.elim) ?_
  rintro _ u rfl
  rfl

theorem Fetched.unique {ram : BitVec 30 → Word} {c : Mipscpu} {insn insn' : Word}
    (h : Fetched ram c insn) (h' : Fetched ram c insn') : insn = insn' := by
  obtain ⟨page, hPage, rfl⟩ := h
  obtain ⟨page', hPage', rfl⟩ := h'
  rw [Option.some.inj (hPage.symm.trans hPage')]

theorem refused_iff {m m' : Machine δ} {stopped : Bool} (hTurn : (cpuTurn b i).run m = .ok stopped m')
    (hState : (m.mycpus i).state = .running) {insn : Word}
    (hFetched : Fetched m.ram ((m.mycpus i).startCycle b) insn) :
    (issue b i).run m = .ok .fault m' ↔ ∃ e, AheadFault b insn ((m.mycpus i).startCycle b) e := by
  constructor
  · intro hIssue
    obtain ⟨insn', hFetched', hRaised⟩ := after_of_run_ok (issue_fault m) hIssue rfl
    obtain ⟨e, hAhead, -⟩ := hRaised.took
    exact ⟨e, hFetched.unique hFetched' ▸ hAhead⟩
  · rintro ⟨e, hAhead⟩
    obtain ⟨_, u, hIssue, rfl⟩ := exists_of_after (issue_refuses hState hFetched hAhead)
    unfold cpuTurn at hTurn
    rw [EStateM.run_bind, hIssue] at hTurn
    obtain ⟨-, rfl⟩ := EStateM.Result.ok.inj hTurn
    exact hIssue

/-- In its turn a cpu takes exceptions on instruction addresses for the target of a branch that it
executes, for the next two addresses when TLBWI, TLBWR or RFE have changed the mapping, and two
instructions ahead where a page begins: exactly there an instruction is refused that may well
transfer control away. -/
theorem fetch_faults {m m' : Machine δ} {stopped : Bool}
    (hTurn : (cpuTurn b i).run m = .ok stopped m') :
    (Unraised i (m.started b i) m' ∨ ∃ e, Reason b i m e ∧ TookInTurn b i e m') ∧
    ((m.mycpus i).state = .running → ∀ insn, Fetched m.ram ((m.mycpus i).startCycle b) insn →
      ((issue b i).run m = .ok .fault m' ↔
        ∃ e, AheadFault b insn ((m.mycpus i).startCycle b) e)) := by
  constructor
  · exact turn_exceptions hTurn
  · exact fun hState _ hFetched => refused_iff hTurn hState hFetched

variable (b) in
/-- An address can be fetched from. -/
def Mapping.fetches (mp : Mapping) (addr : Word) : Bool :=
  match mp.fetch b addr with
  | .ok _ => true
  | .error _ => false

/-- `j 0x80000000`. -/
def jumpWord : Word := 0x08000000

/-- A jump in the last word but one of the only page of memory. -/
def jumpAtEnd : List (Act Unit) := [.poke 0x3fe jumpWord, .setEntrypoint 0 0x80000ff8]

/-- The jump, its delay slot and its target can be fetched, and yet the jump is refused with a bus
error for the page after the delay slot. -/
theorem jump_refused : ∃ p m m', Path (Step bareBoard) (machineInit () false) p m ∧
    Step bareBoard m (.turn 0) m' ∧
    ((m.mycpus 0).pc, (m.mycpus 0).pcpage.map fun page => busUseMap m.ram page (m.mycpus 0).pcoff,
      transfer jumpWord (m.mycpus 0).advance) = (0x80000ff8, some jumpWord, some 0x80000000) ∧
    [0x80000ff8, 0x80000ffc, 0x80000000].map ((m.mycpus 0).mapping.fetches bareBoard) =
      [true, true, true] ∧
    ((m'.mycpus 0).exEpc, (m'.mycpus 0).causeCode) = ((0x80000ff8 : Word), Ex.ibe.code <<< 2) := by
  have hBefore : seen bareBoard jumpAtEnd (machineInit () false) (fun m =>
      (((m.mycpus 0).pc, (m.mycpus 0).pcpage.map fun page => busUseMap m.ram page (m.mycpus 0).pcoff,
        transfer jumpWord (m.mycpus 0).advance),
      [0x80000ff8, 0x80000ffc, 0x80000000].map ((m.mycpus 0).mapping.fetches bareBoard))) =
      some ((0x80000ff8, some jumpWord, some 0x80000000), [true, true, true]) := by decide +kernel
  have hAfter : seen bareBoard (jumpAtEnd ++ [.turn 0]) (machineInit () false)
      (fun m => ((m.mycpus 0).exEpc, (m.mycpus 0).causeCode)) =
      some ((0x80000ff8 : Word), Ex.ibe.code <<< 2) := by decide +kernel
  obtain ⟨p, m, m', hPath, hStep, hLook, hLook'⟩ :=
    step_of_seen hBefore hAfter (by decide) (by decide)
  exact ⟨p, m, m', hPath, hStep, congrArg Prod.fst hLook, congrArg Prod.snd hLook, hLook'⟩

/-- The jump is refused as the theorem has it, and an exception on an address has been taken. -/
theorem fetch_faults_jump : ∃ m m', Step bareBoard m (.turn 0) m' ∧
    Fetched m.ram ((m.mycpus 0).startCycle bareBoard) jumpWord ∧
    (issue bareBoard 0).run m = .ok .fault m' ∧
    ∃ e, Reason bareBoard 0 m e ∧ TookInTurn bareBoard 0 e m' := by
  have hBefore : seen bareBoard jumpAtEnd (machineInit () false) (fun m =>
      ((m.mycpus 0).state, ((m.mycpus 0).startCycle bareBoard).pcpage.map fun page =>
        busUseMap m.ram page ((m.mycpus 0).startCycle bareBoard).pcoff,
      ((m.mycpus 0).startCycle bareBoard).nextpc + 4,
      ((m.mycpus 0).startCycle bareBoard).mapping.fetches bareBoard 0x80001000,
      (m.started bareBoard 0).hangs.length, ((m.started bareBoard 0).mycpus 0).exEpc)) =
      some (.running, some jumpWord, 0x80001000, false, 0, 0) := by decide +kernel
  have hAfter : seen bareBoard (jumpAtEnd ++ [.turn 0]) (machineInit () false)
      (fun m => (m.hangs.length, (m.mycpus 0).exEpc)) = some (0, 0x80000ff8) := by decide +kernel
  obtain ⟨p, m, m', -, hStep, hLook, hLook'⟩ := step_of_seen hBefore hAfter (by decide) (by decide)
  simp only [Prod.mk.injEq] at hLook hLook'
  obtain ⟨hRunning, hWord, hNext, hFetches, hHangs, hEpc⟩ := hLook
  obtain ⟨hHangs', hEpc'⟩ := hLook'
  obtain ⟨stopped, hTurn⟩ := cpuTurn_of_step 0 hStep
  obtain ⟨hWhy, hRefused⟩ := fetch_faults hTurn
  have hFetched : Fetched m.ram ((m.mycpus 0).startCycle bareBoard) jumpWord :=
    Option.map_eq_some_iff.mp hWord
  refine ⟨m, m', hStep, hFetched, (hRefused hRunning _ hFetched).mpr ?_, hWhy.resolve_left ?_⟩
  · cases hFault : ((m.mycpus 0).startCycle bareBoard).mapping.fetch bareBoard 0x80001000 with
    | ok _ =>
      rw [Mapping.fetches, hFault] at hFetches
      cases hFetches
    | error e => exact ⟨e, by decide, by rw [hNext]; rfl, hNext ▸ hFault⟩
  · rintro ⟨-, hSame⟩
    have hExcepted := congrArg Prod.fst (hSame (hHangs'.trans hHangs.symm))
    exact absurd (hEpc'.symm.trans (hExcepted.trans hEpc)) (by decide)

end Sys161.Mips
