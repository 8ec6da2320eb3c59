import Sys161.Mips.Rewind

/-!
# BADVADDR and CONTEXT

Which address an exception leaves in BADVADDR. A load or a store of less than a
word records the address of the word; and an exception that concerns no address
records zero, over the address of the last one that did.
-/

namespace Sys161.Mips

open Exec Runs

set_option autoImplicit false

variable {δ : Type} (b : Board δ) (i : Nat)

namespace Mipscpu

variable (c c' : Mipscpu)

/-- The field of CONTEXT for the page that was not found. -/
def badVpn : Word := c.exContext &&& 0x001ffffc

/-- The last exception was an address error or one of the TLB. -/
def MmuCause : Prop :=
  ∃ code ∈ [Ex.mod, .tlbl, .tlbs, .adel, .ades], c.causeCode = code.code <<< 2

def KeepsBadvaddr : Prop := c'.exVaddr = c.exVaddr ∧ c'.badVpn = c.badVpn

def BadvaddrClear : Prop := c.exVaddr = 0 ∧ c.badVpn = 0

end Mipscpu

theorem keepsBadvaddr_iff {c u : Mipscpu} (hu : u.BadvaddrClear) :
    c.KeepsBadvaddr u ↔ c.BadvaddrClear := by
  unfold Mipscpu.KeepsBadvaddr
  rw [hu.1, hu.2]
  exact and_congr eq_comm eq_comm

theorem mmuCause_exception (c : Mipscpu) (e : Exn) : (c.exception b e).MmuCause ↔ e.Mmu := by
  change (∃ code ∈ [Ex.mod, .tlbl, .tlbs, .adel, .ades], e.code.code <<< 2 = code.code <<< 2) ↔ _
  unfold Exn.Mmu
  cases e.code <;> decide

theorem badvaddrClear_exception (c : Mipscpu) {e : Exn} (he : e.vaddr = 0) :
    (c.exception b e).BadvaddrClear := by
  refine ⟨he, ?_⟩
  have hField : ((0xffe00000 : Word) &&& 0x001ffffc) = 0#32 := by decide
  have hZero : ((0 : Word) &&& 0x7ffff000) >>> 10 = 0#32 := by decide
  have hContext : (c.exception b e).exContext =
      (c.exContext &&& (0xffe00000 : Word)) ||| ((e.vaddr &&& 0x7ffff000) >>> 10) := rfl
  rw [Mipscpu.badVpn, hContext, he, hZero, BitVec.or_zero, BitVec.and_assoc, hField,
    BitVec.and_zero]
  rfl

/-! ## Exceptions that concern no address -/

/-- What every call of `exception()` passes for an address. -/
def Exn.Reports (e : Exn) : Prop := e.Mmu ∨ e.vaddr = 0

theorem reports_of_fetch {mp : Mapping} {vaddr : Word} {e : Exn} (h : mp.fetch b vaddr = .error e) :
    e.Reports := by
  unfold Mapping.fetch at h
  split at h
  next e' he =>
    obtain rfl := Except.error.inj h
    exact .inl (mmu_of_translate he)
  next paddr _ =>
    split at h
    · cases h
    · obtain rfl := Except.error.inj h
      exact .inr rfl

theorem reports_of_branchFault {mp : Mapping} {addr : Word} {e : Exn} (h : BranchFault b mp addr e) :
    e.Reports := by
  rcases h with ⟨-, rfl⟩ | h
  · exact .inl trivial
  · exact reports_of_fetch b h

theorem keeps_of_raised {t u : Machine δ} (c : Mipscpu) (h : Raised b i Exn.Reports t u)
    (hMmu : ¬(u.mycpus i).MmuCause) : c.KeepsBadvaddr (u.mycpus i) ↔ c.BadvaddrClear := by
  obtain ⟨m, e, he, -, rfl⟩ := h
  rw [Machine.modCpu_mycpus_self] at hMmu ⊢
  rw [mmuCause_exception] at hMmu
  exact keepsBadvaddr_iff (badvaddrClear_exception b _ (he.resolve_left hMmu))

theorem execute_reports (insn : Word) (m : Machine δ) :
    After (execute b i insn) (fun _ _ => True) (Posts b i Exn.Reports (m.linked i insn)) m :=
  execute_posts_of (fun _ _ hZero => .inr hZero) (fun _ _ _ he => reports_of_branchFault b he)
    fun _ _ hMmu _ => .inl hMmu

theorem Raised.mono {P Q : Exn → Prop} {t u : Machine δ} (hPQ : ∀ e, P e → Q e)
    (h : Raised b i P t u) : Raised b i Q t u := by
  obtain ⟨m, e, he, hm, hu⟩ := h
  exact ⟨m, e, hPQ e he, hm, hu⟩

theorem precomputePc_reports (m : Machine δ) :
    After (precomputePc b i) (fun _ _ => True) (Posts b i Exn.Reports m) m := by
  rw [after_precomputePc]
  dsimp only
  split
  · trivial
  next e he => exact fun _ => raised_setCpu (reports_of_fetch b he) (operands_translated _ _ _)

theorem precomputeNextpc_reports (m : Machine δ) :
    After (precomputeNextpc b i) (fun _ _ => True) (Posts b i Exn.Reports m) m :=
  (posts_precomputeNextpc m fun _ he => reports_of_fetch b he).mono (fun _ _ _ => trivial)
    fun _ _ h => h

/-- Where an exception is posted: for an interrupt at the start of a cycle, for the address ahead of
the pc, by an instruction, and by the translations of the pc that other functions ask for. If it
concerns no address, BADVADDR and CONTEXT are kept if there was nothing in them. -/
theorem badvaddr_kept_iff (m : Machine δ) :
    let c := m.mycpus i
    let start := c.startCycle b
    let keeps (c : Mipscpu) (u : Machine δ) : Prop :=
      ¬(u.mycpus i).MmuCause → (c.KeepsBadvaddr (u.mycpus i) ↔ c.BadvaddrClear)
    (c.updateExpc.interrupted = true → (c.KeepsBadvaddr start ↔ c.BadvaddrClear)) ∧
    After (issue b i) (fun is u => is = .fault → keeps start u) (fun _ _ => True) m ∧
    (∀ insn, After (execute b i insn) (fun _ _ => True) (fun e u => e = .exception → keeps c u) m) ∧
    After (precomputePc b i) (fun _ _ => True) (fun e u => e = .exception → keeps c u) m ∧
    After (precomputeNextpc b i) (fun _ _ => True) (fun e u => e = .exception → keeps c u) m := by
  intro c start keeps
  have hPosted : ∀ {t : Machine δ} (e : Stop) (u : Machine δ), Posts b i Exn.Reports t e u →
      e = .exception → keeps c u := fun _ _ h he => keeps_of_raised b i c (h he)
  refine ⟨?_, ?_, ?_, ?_, ?_⟩
  · intro hIrq
    apply keepsBadvaddr_iff
    have hStart : start = { c.updateExpc.exception b ⟨.irq, 0, 0⟩ with
        expc := (c.updateExpc.exception b ⟨.irq, 0, 0⟩).pc } := if_pos hIrq
    rw [hStart]
    exact badvaddrClear_exception b c.updateExpc rfl
  · refine (issue_fault m).mono ?_ fun _ _ _ => trivial
    intro is u hFault hIs
    obtain ⟨insn, -, hRaised⟩ := hFault hIs
    exact keeps_of_raised b i start (hRaised.mono b i fun _ he => reports_of_fetch b he.fetch)
  · exact fun insn => (execute_reports b i insn m).mono (fun _ _ _ => trivial) hPosted
  · exact (precomputePc_reports b i m).mono (fun _ _ _ => trivial) hPosted
  · exact (precomputeNextpc_reports b i m).mono (fun _ _ _ => trivial) hPosted

/-- A kernel moves 4 to BADVADDR and makes a system call. -/
def syscallAfterMtc0 : List (Act Unit) :=
  [.poke 0 0x24020004, .poke 1 0x40824000, .poke 2 0x0000000c, .setEntrypoint 0 0x80000000,
    .turn 0, .turn 0]

theorem badvaddr_lost : ∃ p m t u, Path (Step bareBoard) (machineInit () false) p m ∧
    p.map Prod.fst = syscallAfterMtc0 ∧ (issue bareBoard 0).run m = .ok (.insn 0x0000000c) t ∧
    (execute bareBoard 0 0x0000000c).run t = .error .exception u ∧
    (u.mycpus 0).causeCode = Ex.sys.code <<< 2 ∧
    (t.mycpus 0).exVaddr = 4 ∧ (u.mycpus 0).exVaddr = 0 := by
  have hSeen : seen bareBoard syscallAfterMtc0 (machineInit () false)
      (fun m => yields (issue bareBoard 0) (fun is t => (is, (t.mycpus 0).exVaddr)) m) =
      some (some (.insn 0x0000000c, 4)) := by
    decide +kernel
  obtain ⟨p, m, hPath, hActs, hLook⟩ := path_of_seen hSeen (by decide)
  obtain ⟨is, t, hIssue, hLook⟩ := run_of_yields hLook
  obtain ⟨rfl, hVaddr⟩ := Prod.mk.inj hLook
  refine ⟨p, m, t, _, hPath, hActs, hIssue, rfl, ?_, hVaddr, ?_⟩
  · rw [Machine.modCpu_mycpus_self]
    rfl
  · rw [Machine.modCpu_mycpus_self]
    rfl

/-! ## Loads and stores -/

/-- The address that a load or a store translates, of the instruction's own. -/
def accessAddr (insn addr : Word) : Word :=
  match opm insn with
  | .lb | .lbu | .lwl | .lwr | .sb | .swl | .swr => addr &&& 0xfffffffc
  | .lh | .lhu | .sh => addr &&& 0xfffffffd
  | _ => addr

def accessWrites (insn : Word) : Bool :=
  match opm insn with
  | .sb | .sh | .swl | .sw | .swr | .swc0 => true
  | _ => false

def IsAccess (insn : Word) : Prop := UsesMemory insn ∧ opm insn ≠ .cache

/-- Exceptions of an access to an address. -/
def AccessExn (mp : Mapping) (vaddr : Word) (iswrite : Bool) (e : Exn) : Prop :=
  e = ⟨.dbe, 0, 0⟩ ∨ mp.translate vaddr iswrite = .error e

section Access

variable {b i} {vaddr : Word} {insn : Word} {t : Machine δ}

theorem posts_domemFetch (vaddr : Word) (w : Bool) (t : Machine δ) :
    After (domemFetch b i vaddr w) (fun _ m => Untouched i t m)
      (Posts b i (AccessExn (t.mycpus i).mapping vaddr w) t) t := by
  unfold domemFetch
  rw [after_bind, after_translatemem]
  have hSame : Untouched i t (t.setCpu i ((t.mycpus i).translated vaddr w)) :=
    untouched_setCpu (operands_translated _ _ _)
  split
  next paddr _ =>
    rw [after_bind]
    refine (clean_fetchPhys paddr _).mono ?_ fun _ _ h he => hSame.raised (h he)
    intro val m hm
    cases val with
    | none => exact fun _ => ⟨m, _, .inl rfl, hSame.trans hm, rfl⟩
    | some val => exact hSame.trans hm
  next e he => exact fun _ => raised_setCpu (.inr he) (operands_translated _ _ _)

theorem posts_domemStore (vaddr val : Word) (t : Machine δ) :
    After (domemStore b i vaddr val) (fun _ _ => True)
      (Posts b i (AccessExn (t.mycpus i).mapping vaddr true) t) t := by
  unfold domemStore
  rw [after_bind, after_translatemem]
  have hSame : Untouched i t (t.setCpu i ((t.mycpus i).translated vaddr true)) :=
    untouched_setCpu (operands_translated _ _ _)
  split
  next paddr _ =>
    rw [after_bind]
    refine (refusing_storePhys _ paddr val).mono ?_ fun _ _ h he => absurd he h
    intro ok m hm
    cases ok with
    | true => trivial
    | false => exact fun _ => ⟨m, _, .inl rfl, hSame.trans (hm rfl), rfl⟩
  next e he => exact fun _ => raised_setCpu (.inr he) (operands_translated _ _ _)

theorem Untouched.mapping {t m : Machine δ} (h : Untouched i t m) :
    (m.mycpus i).mapping = (t.mycpus i).mapping :=
  congrArg (fun o => o.2.2.2.2.2) h.operands

/-- The second translation of a store is the first one once more. -/
theorem posts_modifyWord (vaddr : Word) (f : Word → Word) (t : Machine δ) :
    After (modifyWord b i vaddr f) (fun _ _ => True)
      (Posts b i (AccessExn (t.mycpus i).mapping vaddr true) t) t := by
  unfold modifyWord
  rw [after_bind]
  refine (posts_domemFetch vaddr true t).mono ?_ fun _ _ h => h
  intro val m hm
  refine (posts_domemStore vaddr (f val) m).mono (fun _ _ h => h) fun e u h he => ?_
  rw [hm.mapping] at h
  exact hm.raised (h he)

theorem fault_domemFetch {α : Type} {Q : α → Machine δ → Prop} {E : Stop → Machine δ → Prop}
    {w : Bool} {e : Exn} (h : (t.mycpus i).mapping.translate vaddr w = .error e)
    (f : Word → M δ α) :
    After (domemFetch b i vaddr w >>= f) Q E t ↔
      E .exception (t.setCpu i (((t.mycpus i).translated vaddr w).exception b e)) := by
  unfold domemFetch
  rw [after_bind, after_bind, after_translatemem, h]

variable (b i)

/-- What is asked of an access: an exception that records an address records the instruction's. -/
def ReportsAddr (insn : Word) (m : Machine δ) : Prop :=
  After (execute b i insn) (fun _ _ => True)
    (fun e u => e = .exception → (u.mycpus i).MmuCause →
      (u.mycpus i).exVaddr = needaddr (m.mycpus i) insn) m

variable {b i}

theorem reportsAddr_of_posts {w : Bool} (h : After (execute b i insn) (fun _ _ => True)
      (Posts b i (AccessExn (t.mycpus i).mapping vaddr w) t) t)
    (hAddr : vaddr = needaddr (t.mycpus i) insn ∨
      ∃ paddr, (t.mycpus i).mapping.translate vaddr w = .ok paddr) :
    ReportsAddr b i insn t := by
  refine h.mono (fun _ _ h => h) fun e u hPosts he hMmu => ?_
  obtain ⟨m, e, hCause, -, rfl⟩ := hPosts he
  rw [Machine.modCpu_mycpus_self, mmuCause_exception] at hMmu
  rw [Machine.modCpu_mycpus_self]
  rcases hCause with rfl | hFault
  · exact hMmu.elim
  · rcases hAddr with rfl | ⟨paddr, hOk⟩
    · exact vaddr_of_translate hFault
    · cases hOk.symm.trans hFault

/-- Where the translation fails its address is recorded. -/
theorem eq_of_reportsAddr {w : Bool} (hFault : ∀ e,
      (t.mycpus i).mapping.translate vaddr w = .error e →
      ∀ {Q : Unit → Machine δ → Prop} {E : Stop → Machine δ → Prop},
        After (execute b i insn) Q E t ↔
          E .exception (t.setCpu i (((t.mycpus i).translated vaddr w).exception b e)))
    (h : ReportsAddr b i insn t) :
    vaddr = needaddr (t.mycpus i) insn ∨
      ∃ paddr, (t.mycpus i).mapping.translate vaddr w = .ok paddr := by
  cases hTranslate : (t.mycpus i).mapping.translate vaddr w with
  | ok paddr => exact .inr ⟨paddr, rfl⟩
  | error e =>
    have hExn := (hFault e hTranslate).mp h rfl
    rw [Machine.setCpu_mycpus_self, mmuCause_exception] at hExn
    left
    rw [← vaddr_of_translate hTranslate]
    exact hExn (mmu_of_translate hTranslate)

theorem doload_eq (ms : Memstyles) (addr res : Word) : ∃ f : Word → Word,
    doload b i ms addr res =
      (do return f (← domemFetch b i (storeAddr ms addr) false) : M δ Word) := by
  cases ms <;> exact ⟨_, rfl⟩

theorem loadOp_eq (ms : Memstyles) (t : Machine δ) : ∃ f : Word → M δ Unit,
    (∀ val, Quiet (f val)) ∧ ∀ {Q : Unit → Machine δ → Prop} {E : Stop → Machine δ → Prop},
      After (loadOp b i insn ms) Q E t ↔
        After (domemFetch b i (storeAddr ms (needaddr (t.mycpus i) insn)) false >>= f) Q E t := by
  obtain ⟨f, hf⟩ := doload_eq (b := b) (i := i) ms (needaddr (t.mycpus i) insn)
    ((t.mycpus i).r (rt insn))
  refine ⟨fun val => setReg i (rt insn) (f val), fun _ => Quiet.setReg, ?_⟩
  intro Q E
  unfold loadOp
  rw [after_bind, after_getCpu, hf, after_bind, after_bind, after_bind]
  rfl

theorem storeOp_eq {ms : Memstyles} (hStyle : ms ≠ .sbyte ∧ ms ≠ .shalf) (t : Machine δ)
    {Q : Unit → Machine δ → Prop} {E : Stop → Machine δ → Prop} :
    After (storeOp b i insn ms) Q E t ↔
      After (modifyWord b i (storeAddr ms (needaddr (t.mycpus i) insn))
        (mergeStore ms (needaddr (t.mycpus i) insn) ((t.mycpus i).r (rt insn)))) Q E t := by
  unfold storeOp
  rw [after_bind, after_getCpu]
  cases ms with
  | sbyte => exact absurd rfl hStyle.1
  | shalf => exact absurd rfl hStyle.2
  | _ => exact Iff.rfl

/-- A program that goes on quietly from a load posts the exceptions of the load. -/
theorem posts_domemFetch_bind {w : Bool} {f : Word → M δ Unit} (hf : ∀ val, Quiet (f val))
    (vaddr : Word) (t : Machine δ) :
    After (domemFetch b i vaddr w >>= f) (fun _ _ => True)
      (Posts b i (AccessExn (t.mycpus i).mapping vaddr w) t) t := by
  rw [after_bind]
  refine (posts_domemFetch vaddr w t).mono ?_ fun _ _ h => h
  exact fun val m _ => (hf val m trivial).mono (fun _ _ h => h) fun _ _ h he => absurd he h

theorem reportsAddr_load_iff (ms : Memstyles) (t : Machine δ)
    (hExec : execute b i insn = (loadOp b i insn ms : M δ Unit)) :
    ReportsAddr b i insn t ↔
      storeAddr ms (needaddr (t.mycpus i) insn) = needaddr (t.mycpus i) insn ∨
        ∃ paddr, (t.mycpus i).mapping.translate
          (storeAddr ms (needaddr (t.mycpus i) insn)) false = .ok paddr := by
  obtain ⟨f, hf, hLoad⟩ := @loadOp_eq δ b i insn ms t
  constructor
  · refine eq_of_reportsAddr fun e he Q E => ?_
    rw [hExec, hLoad, fault_domemFetch he]
  · refine reportsAddr_of_posts ?_
    rw [hExec, hLoad]
    exact posts_domemFetch_bind hf _ t

theorem reportsAddr_store_iff (ms : Memstyles) (hStyle : ms ≠ .sbyte ∧ ms ≠ .shalf) (t : Machine δ)
    (hExec : execute b i insn = (storeOp b i insn ms : M δ Unit)) :
    ReportsAddr b i insn t ↔
      storeAddr ms (needaddr (t.mycpus i) insn) = needaddr (t.mycpus i) insn ∨
        ∃ paddr, (t.mycpus i).mapping.translate
          (storeAddr ms (needaddr (t.mycpus i) insn)) true = .ok paddr := by
  constructor
  · refine eq_of_reportsAddr fun e he Q E => ?_
    rw [hExec, storeOp_eq hStyle, modifyWord, fault_domemFetch he]
  · refine reportsAddr_of_posts ?_
    rw [hExec, storeOp_eq hStyle]
    exact posts_modifyWord _ _ t

theorem posts_mxSc_access (insn : Word) (t : Machine δ) :
    After (mxSc b i insn) (fun _ _ => True)
      (Posts b i (AccessExn (t.mycpus i).mapping (needaddr (t.mycpus i) insn) true) t) t := by
  unfold mxSc
  rw [after_bind, after_getCpu, after_ite]
  split
  · trivial
  rw [after_bind]
  refine (posts_domemFetch _ true t).mono ?_ fun _ _ h => h
  intro temp m hm
  rw [after_ite]
  split
  · trivial
  rw [after_bind]
  refine (posts_domemStore _ _ m).mono (fun _ _ _ => trivial) fun e u h he => ?_
  rw [hm.mapping] at h
  exact hm.raised (h he)

/-- The instructions that translate their own address. -/
theorem posts_word (hOp : opm insn ∈ [Opm.lw, .sw, .lwc0, .swc0]) (t : Machine δ) :
    After (execute b i insn) (fun _ _ => True)
      (Posts b i (AccessExn (t.mycpus i).mapping (needaddr (t.mycpus i) insn)
        (accessWrites insn)) t) t := by
  simp only [List.mem_cons, List.not_mem_nil, or_false] at hOp
  rcases hOp with hOp | hOp | hOp | hOp <;> simp only [execute, accessWrites, hOp]
  · unfold mxLw
    rw [after_bind, after_getCpu]
    exact posts_domemFetch_bind (fun _ => Quiet.setReg) _ t
  · unfold mxSw
    rw [after_bind, after_getCpu]
    exact posts_domemStore _ _ t
  · unfold mxLl
    rw [after_bind, after_getCpu]
    exact posts_domemFetch_bind (fun _ => Keeps.bind Quiet.setReg fun _ => Quiet.modCpu) _ t
  · exact posts_mxSc_access insn t

end Access

/-- Loads and stores of a part of a word report the address of the word, or of the half-word. -/
theorem badvaddr_exact_iff {insn : Word} (hInsn : IsAccess insn) (m : Machine δ) :
    ReportsAddr b i insn m ↔
      accessAddr insn (needaddr (m.mycpus i) insn) = needaddr (m.mycpus i) insn ∨
        ∃ paddr, (m.mycpus i).mapping.translate
          (accessAddr insn (needaddr (m.mycpus i) insn)) (accessWrites insn) = .ok paddr := by
  obtain ⟨hMem, hCache⟩ := hInsn
  have hWord : opm insn ∈ [Opm.lw, .sw, .lwc0, .swc0] → ReportsAddr b i insn m :=
    fun hOp => reportsAddr_of_posts (posts_word hOp m) (.inl rfl)
  cases hOp : opm insn <;> simp only [UsesMemory, hOp] at hMem
  case cache => exact absurd hOp hCache
  all_goals simp only [accessAddr, accessWrites, hOp]
  case lb => exact reportsAddr_load_iff .sbyte m (by simp only [execute, hOp]; rfl)
  case lbu => exact reportsAddr_load_iff .ubyte m (by simp only [execute, hOp]; rfl)
  case lh => exact reportsAddr_load_iff .shalf m (by simp only [execute, hOp]; rfl)
  case lhu => exact reportsAddr_load_iff .uhalf m (by simp only [execute, hOp]; rfl)
  case lwl => exact reportsAddr_load_iff .wordl m (by simp only [execute, hOp]; rfl)
  case lwr => exact reportsAddr_load_iff .wordr m (by simp only [execute, hOp]; rfl)
  case sb => exact reportsAddr_store_iff .ubyte (by decide) m (by simp only [execute, hOp]; rfl)
  case sh => exact reportsAddr_store_iff .uhalf (by decide) m (by simp only [execute, hOp]; rfl)
  case swl => exact reportsAddr_store_iff .wordl (by decide) m (by simp only [execute, hOp]; rfl)
  case swr => exact reportsAddr_store_iff .wordr (by decide) m (by simp only [execute, hOp]; rfl)
  all_goals exact iff_of_true (hWord (by simp [hOp])) (by simp)

/-- A byte in the middle of a word that is not mapped. -/
theorem badvaddr_exact_iff_lb :
    ReportsAddr bareBoard 0 0x80020001 (machineInit () false) ↔
      accessAddr 0x80020001 (needaddr ((machineInit () false).mycpus 0) 0x80020001) =
        needaddr ((machineInit () false).mycpus 0) 0x80020001 ∨
        ∃ paddr, ((machineInit () false).mycpus 0).mapping.translate
          (accessAddr 0x80020001 (needaddr ((machineInit () false).mycpus 0) 0x80020001))
          (accessWrites 0x80020001) = .ok paddr :=
  badvaddr_exact_iff bareBoard 0 (show IsAccess 0x80020001 from ⟨trivial, by decide⟩) _

/-- The same byte: BADVADDR is 0, the address is 1. -/
theorem not_reportsAddr_lb : ¬ReportsAddr bareBoard 0 0x80020001 (machineInit () false) := by
  intro h
  have hExec : execute bareBoard 0 0x80020001 = (loadOp bareBoard 0 0x80020001 .sbyte : M Unit Unit) :=
    rfl
  rcases (reportsAddr_load_iff .sbyte _ hExec).mp h with hAddr | ⟨paddr, hOk⟩
  · revert hAddr
    decide
  · have hMiss : ((machineInit () false).mycpus 0).mapping.translate 0 false =
        .error ⟨.tlbl, 1, 0⟩ := by decide
    cases hMiss.symm.trans hOk

end Sys161.Mips
