import Sys161.Mips.Lookups

/-!
# The VPAGE field of TLBHI

Every translation through the TLB leaves the page that it looked for in TLBHI,
also one that succeeds, and an address error does not. The field is kept, up to
the exceptions of the MMU, as long as these are on the page that is there.
-/

namespace Sys161.Mips

open Exec Runs

set_option autoImplicit false

variable {δ α : Type} {b : Board δ}

/-! ## Translations -/

/-- The field VPAGE. -/
def Mipscpu.vpage (c : Mipscpu) : Word := c.tlbentry.mtVpn

/-- The exceptions of the TLB; the others that `translatemem` posts are address errors. -/
def Exn.Tlb (e : Exn) : Prop :=
  match e.code with
  | .mod | .tlbl | .tlbs => True
  | _ => False

/-- What `exception()` writes. -/
def Mipscpu.trap (c : Mipscpu) : FetchState × StatusReg × CauseReg × Cop0Regs :=
  (c.toFetchState, c.toStatusReg, c.toCauseReg, c.toCop0Regs)

/-- The cpu has just taken the exception. -/
def Trapped (b : Board δ) (e : Exn) (c : Mipscpu) : Prop :=
  ∃ c₀ : Mipscpu, c.trap = (c₀.exception b e).trap

/-- The cpu has taken an exception of the MMU for one of the addresses, and VPAGE is its page. -/
def Struck (b : Board δ) (L : Mapping → Word → Bool → Prop) (c : Mipscpu) : Prop :=
  ∃ mp vaddr iswrite e, L mp vaddr iswrite ∧ mp.translate vaddr iswrite = .error e ∧
    Trapped b e c ∧ c.vpage = vaddr &&& 0xfffff000

/-- VPAGE is as it was, or else there has been an exception of the MMU. -/
def Fine (b : Board δ) (L : Mapping → Word → Bool → Prop) (v : Word) (c : Mipscpu) : Prop :=
  c.vpage = v ∨ Struck b L c

/-- Of the addresses those that translate are in kseg0 or kseg1, or on the page, and so are those
with an address error. -/
def Settling (L : Mapping → Word → Bool → Prop) (v : Word) : Prop :=
  ∀ mp vaddr iswrite, L mp vaddr iswrite →
    match mp.translate vaddr iswrite with
    | .ok _ => vaddr >>> 30 = 2 ∨ vaddr &&& 0xfffff000 = v
    | .error e => e.Tlb ∨ vaddr &&& 0xfffff000 = v

theorem Fine.of_eq {L : Mapping → Word → Bool → Prop} {v : Word} {c c' : Mipscpu}
    (hVpage : c'.vpage = c.vpage) (hTrap : c'.trap = c.trap) (h : Fine b L v c) : Fine b L v c' := by
  obtain hKept | ⟨mp, vaddr, iswrite, e, hL, hFault, ⟨c₀, hTrapped⟩, hPage⟩ := h
  · exact .inl (hVpage.trans hKept)
  · exact .inr ⟨mp, vaddr, iswrite, e, hL, hFault, ⟨c₀, hTrap.trans hTrapped⟩, hVpage.trans hPage⟩

theorem setVpn_vpage (c : Mipscpu) : c.setVpn c.vpage = c := rfl

/-- A translation leaves TLBHI alone, or it goes to the TLB. -/
theorem translated_cases (c : Mipscpu) (vaddr : Word) (iswrite : Bool) :
    (c.translated vaddr iswrite = c ∧ ∀ e, c.mapping.translate vaddr iswrite = .error e → ¬e.Tlb) ∨
      c.translated vaddr iswrite = c.setVpn (vaddr &&& 0xfffff000) := by
  rw [← translate_fst]
  unfold Mipscpu.translated translate
  split
  · refine .inl ⟨rfl, fun e he => ?_⟩
    obtain rfl := Except.error.inj he
    cases iswrite <;> exact id
  · split
    · exact .inl ⟨rfl, nofun⟩
    · exact .inr rfl

section Settling

variable {L : Mapping → Word → Bool → Prop} {v : Word} (hL : Settling L v) {c : Mipscpu}
  (hc : c.vpage = v) {vaddr : Word} {iswrite : Bool} (hLookup : L c.mapping vaddr iswrite)

include hL hc hLookup

theorem translated_of_ok {paddr : Word} (h : c.mapping.translate vaddr iswrite = .ok paddr) :
    c.translated vaddr iswrite = c := by
  have hPlace := hL _ _ _ hLookup
  rw [h] at hPlace
  obtain hSegment | hVpage := hPlace
  · exact translated_unmapped hSegment
  · obtain ⟨hSame, -⟩ | hPage := translated_cases c vaddr iswrite
    · exact hSame
    · rw [hPage, hVpage, ← hc, setVpn_vpage]

theorem vpage_of_error {e : Exn} (h : c.mapping.translate vaddr iswrite = .error e) :
    (c.translated vaddr iswrite).vpage = vaddr &&& 0xfffff000 := by
  have hPlace := hL _ _ _ hLookup
  rw [h] at hPlace
  obtain ⟨hSame, hAlign⟩ | hPage := translated_cases c vaddr iswrite
  · rw [hSame, hc, hPlace.resolve_left (hAlign e h)]
  · exact congrArg Mipscpu.vpage hPage

theorem fine_of_error {e : Exn} (h : c.mapping.translate vaddr iswrite = .error e) :
    Fine b L v ((c.translated vaddr iswrite).exception b e) :=
  .inr ⟨_, _, _, e, hLookup, h, ⟨_, rfl⟩, vpage_of_error hL hc hLookup h⟩

end Settling

theorem translated_of_fetch {L : Mapping → Word → Bool → Prop} {v : Word} (hL : Settling L v)
    {c : Mipscpu} (hc : c.vpage = v) {vaddr : Word} (hLookup : L c.mapping vaddr false)
    {at_ : Page × Word} (h : c.mapping.fetch b vaddr = .ok at_) : c.translated vaddr false = c := by
  unfold Mapping.fetch at h
  split at h
  · cases h
  · exact translated_of_ok hL hc hLookup ‹_›

/-- A bus error comes after a translation that has succeeded. -/
theorem fine_of_fetch {L : Mapping → Word → Bool → Prop} {v : Word} (hL : Settling L v)
    {c : Mipscpu} (hc : c.vpage = v) {vaddr : Word} (hLookup : L c.mapping vaddr false) {e : Exn}
    (h : c.mapping.fetch b vaddr = .error e) :
    Fine b L v ((c.translated vaddr false).exception b e) := by
  unfold Mapping.fetch at h
  split at h
  · rename_i e' hFault
    obtain rfl := Except.error.inj h
    exact fine_of_error hL hc hLookup hFault
  · rename_i paddr hOk
    rw [translated_of_ok hL hc hLookup hOk]
    exact .inl hc

/-! ## What is translated ahead -/

section Programs

variable {L : Mapping → Word → Bool → Prop} {v : Word} {i j : Nat} {t : Machine δ}

/-- VPAGE of cpu `j` is as it was. -/
def Calm (j : Nat) (v : Word) (m : Machine δ) : Prop := (m.mycpus j).vpage = v

/-- At the end of the program, and where it posts an exception, cpu `j` is fine. -/
def Leaves (L : Mapping → Word → Bool → Prop) (v : Word) (b : Board δ) (j : Nat) (x : M δ α)
    (t : Machine δ) : Prop :=
  After x (fun _ u => Fine b L v (u.mycpus j)) (fun e u => e = .exception → Fine b L v (u.mycpus j)) t

theorem Calm.setCpu (ht : Calm j v t) {c : Mipscpu} (hc : i = j → c.vpage = v) :
    Calm j v (t.setCpu i c) := by
  by_cases hij : i = j
  · subst hij
    rw [Calm, Machine.setCpu_mycpus_self, hc rfl]
  · rw [Calm, Machine.setCpu_mycpus_ne t c (Ne.symm hij), ht]

theorem Calm.modCpu (ht : Calm j v t) {f : Mipscpu → Mipscpu} (hf : ∀ c, (f c).vpage = c.vpage) :
    Calm j v (t.modCpu i f) :=
  ht.setCpu fun hij => (hf _).trans (hij ▸ ht)

theorem Calm.fine_setCpu (ht : Calm j v t) {c : Mipscpu} (hc : i = j → Fine b L v c) :
    Fine b L v ((t.setCpu i c).mycpus j) := by
  by_cases hij : i = j
  · subst hij
    rw [Machine.setCpu_mycpus_self]
    exact hc rfl
  · rw [Machine.setCpu_mycpus_ne t c (Ne.symm hij)]
    exact .inl ht

/-- An exception of its own leaves TLBHI alone. -/
theorem Calm.fine_exception (ht : Calm j v t) (e : Exn) :
    Fine b L v ((t.modCpu i fun c => c.exception b e).mycpus j) :=
  .inl (ht.modCpu fun _ => rfl)

theorem fine_modCpu {u : Machine δ} (hu : Fine b L v (u.mycpus j)) {f : Mipscpu → Mipscpu}
    (hf : ∀ c, (f c).vpage = c.vpage ∧ (f c).trap = c.trap) :
    Fine b L v ((u.modCpu i f).mycpus j) := by
  by_cases hij : j = i
  · subst hij
    rw [Machine.modCpu_mycpus_self]
    exact hu.of_eq (hf _).1 (hf _).2
  · rw [Machine.modCpu_mycpus_ne u _ hij]
    exact hu

/-- What leaves VPAGE of every cpu alone. -/
def Still (x : M δ α) : Prop := ∀ (j : Nat) (v : Word), Keeps (Calm j v) (fun _ => Calm j v) x

theorem Still.modCpu {f : Mipscpu → Mipscpu} (hf : ∀ c, (f c).vpage = c.vpage) :
    Still (modCpu i f : M δ Unit) := fun _ _ _ ht => ht.modCpu hf

theorem Still.getCpu {f : Mipscpu → M δ α} (hf : ∀ c, Still (f c)) : Still (Mips.getCpu i >>= f) :=
  fun j v => keeps_getCpu i fun c => hf c j v

theorem Still.ite {c : Prop} [Decidable c] {x y : M δ α} (hx : Still x) (hy : Still y) :
    Still (if c then x else y) :=
  fun j v => Keeps.ite (fun _ => hx j v) fun _ => hy j v

theorem Still.bind {β : Type} {x : M δ β} {f : β → M δ α} (hx : Still x) (hf : ∀ a, Still (f a)) :
    Still (x >>= f) := fun j v => Keeps.bind (hx j v) fun a => hf a j v

theorem Still.pure (a : α) : Still (pure a : M δ α) := fun _ _ => Keeps.pure a

theorem Still.raise (e : Exn) : Still (raise b i e : M δ α) :=
  fun _ _ _ ht => ht.modCpu fun _ => rfl

theorem Still.setReg (rg : Reg) (val : Word) : Still (setReg i rg val : M δ Unit) :=
  Still.modCpu fun _ => rfl

theorem Still.leaves {x : M δ α} (hx : Still x) (ht : Calm j v t) : Leaves L v b j x t :=
  (hx j v t ht).mono (fun _ _ hu => .inl hu) fun _ _ hu _ => .inl hu

theorem Still.rdOp (insn : Word) (f : Word → Word → Word) : Still (rdOp i insn f : M δ Unit) :=
  Still.getCpu fun _ => Still.setReg _ _

theorem Still.rtOp (insn : Word) (f : Word → Word) : Still (rtOp i insn f : M δ Unit) :=
  Still.getCpu fun _ => Still.setReg _ _

theorem Still.chkovf (rg : Reg) (t64 : BitVec 64) : Still (chkovf b i rg t64) :=
  Still.ite (Still.raise _) (Still.setReg _ _)

theorem Still.doWait : Still (doWait i : M δ Unit) :=
  Still.getCpu fun _ => Still.ite (Still.bind (Still.modCpu fun _ => rfl) fun _ _ _ _ ht => ht)
    (Still.pure ())

theorem Still.probetlb : Still (probetlb i : M δ Unit) := by
  refine Still.getCpu fun c => ?_
  split
  · exact Still.modCpu fun _ => rfl
  · exact Still.modCpu fun _ => rfl

theorem Still.domf (cn : Word) (reg : Reg) (sel : BitVec 3) : Still (domf b i cn reg sel) := by
  refine Still.getCpu fun c => Still.ite (Still.raise _) ?_
  split
  · exact Still.bind (Still.modCpu fun _ => rfl) fun _ => Still.pure _
  · split
    · exact Still.pure _
    · exact Still.raise _
  · exact Still.raise _

/-- What is left for the second of two translations: its address may be one of those, or else there
has been an exception. -/
inductive Halfway (L : Mapping → Word → Bool → Prop) (v : Word) (b : Board δ) (i j : Nat)
    (u : Machine δ) : Prop where
  | calm : Calm j v u → (i = j → L (u.mycpus i).mapping (u.mycpus i).nextpc false) →
      Halfway L v b i j u
  | vector {m : Machine δ} {c : Mipscpu} {e : Exn} : u = m.setCpu i (c.exception b e) →
      Fine b L v (u.mycpus j) → Halfway L v b i j u

theorem Halfway.hung {u : Machine δ} (hu : Halfway L v b i j u) (why : Hang) :
    Halfway L v b i j (u.hung why) := by
  cases hu with
  | calm hCalm hLookup => exact .calm hCalm hLookup
  | @vector m c e hSet hFine =>
    refine .vector (m := m.hung why) (c := c) (e := e) ?_ hFine
    rw [hSet]
    rfl

variable (hL : Settling L v)

include hL

theorem precomputePc_halfway (ht : Calm j v t) (hLookup : i = j → ∀ vaddr,
      FetchOrder b (t.mycpus i).mapping (t.mycpus i).pc (t.mycpus i).nextpc vaddr →
      L (t.mycpus i).mapping vaddr false) :
    After (precomputePc b i) (fun _ => Halfway L v b i j)
      (fun e u => e = .exception ∧ Halfway L v b i j u) t := by
  rw [after_precomputePc]
  dsimp only
  split
  · rename_i page off hFetch
    have hSame : i = j → (t.mycpus i).translated (t.mycpus i).pc false = t.mycpus i := fun hij =>
      translated_of_fetch hL (hij ▸ ht) (hLookup hij _ .pc) hFetch
    refine .calm (ht.setCpu fun hij => ?_) fun hij => ?_
    · rw [hSame hij]
      exact hij ▸ ht
    · rw [Machine.setCpu_mycpus_self, hSame hij]
      exact hLookup hij _ (.nextpc hFetch)
  · rename_i e hFetch
    exact ⟨rfl, .vector rfl
      (ht.fine_setCpu fun hij => fine_of_fetch hL (hij ▸ ht) (hLookup hij _ .pc) hFetch)⟩

theorem precomputeNextpc_fine (ht : Halfway L v b i j t) :
    After (precomputeNextpc b i) (fun _ u => Fine b L v (u.mycpus j))
      (fun e u => e = .exception ∧ Fine b L v (u.mycpus j)) t := by
  cases ht with
  | calm ht hLookup =>
    rw [after_precomputeNextpc]
    dsimp only
    split
    · rename_i page off hFetch
      refine ht.fine_setCpu fun hij => .inl ?_
      rw [translated_of_fetch hL (hij ▸ ht) (hLookup hij) hFetch]
      exact hij ▸ ht
    · rename_i e hFetch
      exact ⟨rfl, ht.fine_setCpu fun hij => fine_of_fetch hL (hij ▸ ht) (hLookup hij) hFetch⟩
  | @vector m c e hSet hFine =>
    rw [hSet] at hFine ⊢
    exact (precomputeNextpc_vector m c e).mono (fun _ _ hu => hu ▸ hFine) fun _ _ h => h.elim

omit hL in
/-- An exception in a part that is tried is no more than what it leaves. -/
theorem attempt_of_posted {P : Machine δ → Prop} {x : M δ Unit} {m : Machine δ}
    (hx : After x (fun _ => P) (fun e u => e = .exception ∧ P u) m) :
    After (attempt x) (fun _ => P) (fun _ _ => False) m := by
  rw [after_attempt]
  refine hx.mono (fun _ _ h => h) ?_
  rintro _ u ⟨rfl, hu⟩
  exact hu

theorem precomputeBoth_fine (ht : Calm j v t) (hLookup : i = j → ∀ vaddr,
      FetchOrder b (t.mycpus i).mapping (t.mycpus i).pc (t.mycpus i).nextpc vaddr →
      L (t.mycpus i).mapping vaddr false) :
    After (precomputeBoth b i) (fun _ u => Fine b L v (u.mycpus j)) (fun _ _ => False) t := by
  unfold precomputeBoth
  rw [after_bind]
  refine (attempt_of_posted (precomputePc_halfway hL ht hLookup)).mono (fun _ u hu => ?_)
    fun _ _ h => h
  rw [after_bind]
  exact (attempt_of_posted (precomputeNextpc_fine hL hu)).mono (fun _ _ h => h) fun _ _ h => h

theorem phonyException_leaves (ht : Calm j v t) (hLookup : i = j → ∀ vaddr,
      FetchOrder b (t.mycpus i).mapping (t.mycpus i).expc ((t.mycpus i).expc + 4) vaddr →
      L (t.mycpus i).mapping vaddr false) : Leaves L v b j (phonyException b i) t := by
  have hSmoke : ∀ msg u, Leaves L v b j (throw (.smoke msg) : M δ Unit) u := fun _ _ => nofun
  unfold Leaves phonyException
  rw [after_bind, after_modCpu, after_bind]
  generalize ht₁ : t.modCpu i _ = t₁
  have hCalm : Calm j v t₁ := ht₁ ▸ ht.modCpu fun _ => rfl
  refine (attempt_of_posted (precomputePc_halfway hL hCalm fun hij vaddr hOrder => ?_)).mono
    (fun ok u hu => ?_) fun _ _ h => h.elim
  · rw [← ht₁, Machine.modCpu_mycpus_self] at hOrder ⊢
    exact hLookup hij vaddr hOrder
  · rw [after_ite]
    split
    · rw [after_bind]
      refine (attempt_of_posted (precomputeNextpc_fine hL hu)).mono (fun ok u hu => ?_)
        fun _ _ h => h.elim
      rw [after_ite]
      split
      · exact hu
      · exact hSmoke _ u
    · exact hSmoke _ u

/-! ## Instructions without a load or a store -/

theorem abranch_leaves {addr : Word} (ht : Calm j v t) (hLookup : i = j →
      ¬Fetched t.ram (t.mycpus i) fullopRfe → L (t.mycpus i).mapping addr false) :
    Leaves L v b j (abranch b i addr) t := by
  unfold Leaves abranch
  rw [after_ite]
  split
  · exact (Still.raise _).leaves ht
  rw [after_bind, after_modCpu, after_bind, after_getCpu, after_bind]
  generalize ht₁ : t.modCpu i _ = t₁
  have hCalm : Calm j v t₁ := ht₁ ▸ ht.modCpu fun _ => rfl
  have hCpu : t₁.mycpus i = { t.mycpus i with nextpc := addr, jumping := true } := by
    rw [← ht₁, Machine.modCpu_mycpus_self]
  have hRam : t₁.ram = t.ram := by rw [← ht₁]; rfl
  cases hPage : (t₁.mycpus i).pcpage with
  | none => exact nofun
  | some page =>
    rw [after_useMap_some, after_ite]
    split
    · exact .inl (hCalm.modCpu fun _ => rfl)
    · rename_i hRfe
      refine (precomputeNextpc_fine hL (.calm hCalm fun hij => ?_)).mono (fun _ _ hu => hu)
        fun _ _ hu _ => hu.2
      rw [hCpu]
      refine hLookup hij ?_
      rintro ⟨page', hPage', hWord⟩
      rw [hCpu] at hPage hRfe
      rw [hRam] at hRfe
      rw [Option.some.inj (hPage'.symm.trans hPage)] at hWord
      exact hRfe hWord

omit hL in
/-- The return address has nothing to do with what is fetched. -/
theorem linked_same (insn : Word) (t : Machine δ) : (t.linked i insn).ram = t.ram ∧
    (∀ w, Fetched t.ram ((t.linked i insn).mycpus i) w ↔ Fetched t.ram (t.mycpus i) w) ∧
    ((t.linked i insn).mycpus i).mapping = (t.mycpus i).mapping := by
  unfold Machine.linked
  split
  · refine ⟨rfl, fun w => ?_, ?_⟩
    · rw [Machine.modCpu_mycpus_self]
      exact Iff.rfl
    · rw [Machine.modCpu_mycpus_self]
      rfl
  · exact ⟨rfl, fun _ => Iff.rfl, rfl⟩

omit hL in
theorem Calm.linked {insn : Word} (ht : Calm j v t) : Calm j v (t.linked i insn) := by
  unfold Machine.linked
  split
  · exact ht.modCpu fun _ => rfl
  · exact ht

theorem transfer_leaves {insn : Word} (hInsn : Transfers insn) (ht : Calm j v t)
    (hLookup : i = j → ∀ mp vaddr iswrite, InsnLookup b i insn t mp vaddr iswrite →
      L mp vaddr iswrite) : Leaves L v b j (execute b i insn) t := by
  obtain ⟨hRam, hFetched, hMapping⟩ := linked_same (i := i) insn t
  have hCalm : Calm j v (t.linked i insn) := ht.linked
  unfold Leaves
  rw [after_execute_transfer hInsn, AfterTransfer]
  split
  · rename_i addr hAddr
    refine abranch_leaves hL hCalm fun hij hRfe => ?_
    rw [hRam, hFetched] at hRfe
    rw [hMapping]
    exact hLookup hij _ _ _ (.target hAddr hRfe)
  · exact .inl hCalm

theorem writetlb_leaves {ix : Int} (ht : Calm j v t) (hLookup : i = j → ∀ mp vaddr,
      mp = { (t.mycpus i).mapping with
        tlb := Function.update (t.mycpus i).tlb ix.toNat (t.mycpus i).tlbentry } →
      FetchOrder b mp (t.mycpus i).pc (t.mycpus i).nextpc vaddr → L mp vaddr false) :
    Leaves L v b j (writetlb b i ix) t := by
  unfold Leaves writetlb
  rw [after_ite]
  split
  · rw [after_bind, after_modCpu, after_bind]
    generalize ht₁ : t.modCpu i _ = t₁
    have hCalm : Calm j v t₁ := ht₁ ▸ ht.modCpu fun _ => rfl
    refine (after_checkTlbDups i _ t₁).mono ?_ fun _ _ h => h.elim
    rintro _ u ⟨hCpus, -, -⟩
    have hu : Calm j v u := by
      rw [Calm, hCpus]
      exact hCalm
    refine (precomputeBoth_fine hL hu fun hij vaddr hOrder => ?_).mono (fun _ _ h => h)
      fun _ _ h => h.elim
    rw [hCpus, ← ht₁, Machine.modCpu_mycpus_self] at hOrder ⊢
    exact hLookup hij _ vaddr rfl hOrder
  · exact nofun

theorem doRfe_leaves (ht : Calm j v t) (hLookup : i = j → ∀ mp vaddr,
      mp = { (t.mycpus i).mapping with usermode := (t.mycpus i).prevUsermode } →
      FetchOrder b mp (t.mycpus i).pc (t.mycpus i).nextpc vaddr → L mp vaddr false) :
    Leaves L v b j (doRfe b i) t := by
  unfold Leaves doRfe
  rw [after_bind, after_getCpu, after_ite]
  split
  · exact nofun
  rw [after_bind, after_modCpu]
  generalize ht₁ : t.modCpu i _ = t₁
  have hCalm : Calm j v t₁ := ht₁ ▸ ht.modCpu fun _ => rfl
  refine (precomputeBoth_fine hL hCalm fun hij vaddr hOrder => ?_).mono (fun _ _ h => h)
    fun _ _ h => h.elim
  rw [← ht₁, Machine.modCpu_mycpus_self] at hOrder ⊢
  exact hLookup hij _ vaddr rfl hOrder

/-- MTC0 to TLBHI, and TLBR. -/
def WritesTlbhi (insn : Word) : Prop :=
  IsMtc0 insn .tlbhi ∨ cop0Op insn ∧ (insn &&& 0x01ffffff).toNat = 1

omit hL in
theorem vpage_mtc0 (c : Mipscpu) (greg : Word) {c0 : C0} (h : c0 ≠ .tlbhi) :
    (c.mtc0 greg c0).vpage = c.vpage := by
  cases c0 with
  | tlbhi => exact absurd rfl h
  | _ => rfl

omit hL in
theorem domt_leaves {cn : Word} {reg : Reg} {sel : BitVec 3} {greg : Word} (ht : Calm j v t)
    (hWrite : i = j → C0.ofRegsel reg sel = some .tlbhi → cn = 0 →
      (t.mycpus i).currentUsermode = true) : Leaves L v b j (domt b i cn reg sel greg) t := by
  unfold Leaves domt
  rw [after_bind, after_getCpu, after_ite]
  split
  · exact (Still.raise _).leaves ht
  · rename_i hMode
    simp only [not_or, not_not] at hMode
    split
    · rename_i c0 hSel
      have hMtc0 : ∀ u : Machine δ, Calm j v u →
          Fine b L v ((u.modCpu i fun c => c.mtc0 greg c0).mycpus j) := by
        intro u hu
        refine hu.fine_setCpu fun hij => .inl ?_
        rw [vpage_mtc0 _ _ fun h => hMode.2 (hWrite hij (h ▸ hSel) hMode.1)]
        exact hij ▸ hu
      rw [after_ite]
      split
      · rw [after_bind, after_hang, after_modCpu]
        exact hMtc0 (t.hung _) ht
      · exact hMtc0 t ht
    · exact (Still.raise _).leaves ht

theorem cop0_leaves {insn : Word} (hOp : cop0Op insn) (ht : Calm j v t)
    (hUser : (t.mycpus i).currentUsermode = false)
    (hWrite : i = j → (insn &&& 0x01ffffff).toNat ≠ 1)
    (hLookup : i = j → ∀ mp vaddr iswrite, InsnLookup b i insn t mp vaddr iswrite →
      L mp vaddr iswrite) : Leaves L v b j (mxCop0 b i insn) t := by
  have hRemade : i = j → ∀ mp vaddr, (t.mycpus i).remade insn = some mp →
      FetchOrder b mp (t.mycpus i).pc (t.mycpus i).nextpc vaddr → L mp vaddr false :=
    fun hij _ _ hMade hOrder => hLookup hij _ _ _ (.remade hOp hUser hMade hOrder)
  unfold mxCop0
  split
  · rename_i hTlbr
    exact ht.fine_setCpu fun hij => absurd hTlbr (hWrite hij)
  · rename_i hTlbwi
    unfold Leaves mxTlbwi
    rw [after_bind, after_getCpu]
    refine writetlb_leaves hL ht fun hij mp vaddr hMade hOrder => hRemade hij mp vaddr ?_ hOrder
    simp only [Mipscpu.remade, hTlbwi, hMade]
    rfl
  · rename_i hTlbwr
    unfold Leaves mxTlbwr
    rw [after_bind, after_modCpu, after_bind, after_getCpu]
    refine writetlb_leaves hL (ht.modCpu fun _ => rfl) fun hij mp vaddr hMade hOrder => ?_
    rw [Machine.modCpu_mycpus_self] at hMade hOrder
    refine hRemade hij mp vaddr ?_ hOrder
    simp only [Mipscpu.remade, hTlbwr, hMade]
    rfl
  · exact Still.probetlb.leaves ht
  · rename_i hRfe
    refine doRfe_leaves hL ht fun hij mp vaddr hMade hOrder => hRemade hij mp vaddr ?_ hOrder
    simp only [Mipscpu.remade, hRfe, hMade]
  · exact Still.doWait.leaves ht
  · exact (Still.raise _).leaves ht

theorem copz_leaves {insn : Word} (hOp : opm insn = .cop) (ht : Calm j v t)
    (hWrite : i = j → WritesTlbhi insn → (t.mycpus i).currentUsermode = true)
    (hLookup : i = j → ∀ mp vaddr iswrite, InsnLookup b i insn t mp vaddr iswrite →
      L mp vaddr iswrite) : Leaves L v b j (mxCopz b i insn) t := by
  unfold Leaves mxCopz
  rw [after_bind, after_getCpu, after_ite]
  split
  · exact (Still.raise _).leaves ht
  rename_i hMode
  simp only [not_or, not_not, Bool.not_eq_true] at hMode
  obtain ⟨hcn, hUser⟩ := hMode
  have hKernel : i = j → ¬WritesTlbhi insn := by
    intro hij h
    have hMode := hWrite hij h
    rw [hUser] at hMode
    cases hMode
  rw [after_ite]
  split
  · rename_i hrs
    exact cop0_leaves hL ⟨hOp, hcn, hrs⟩ ht hUser
      (fun hij hTlbr => hKernel hij (.inr ⟨⟨hOp, hcn, hrs⟩, hTlbr⟩)) hLookup
  · split
    · exact (Still.bind (Still.domf _ _ _) fun _ => Still.setReg _ _).leaves ht
    · exact (Still.raise _).leaves ht
    · rename_i hrs
      unfold mxMt
      rw [after_bind, after_getCpu]
      exact domt_leaves ht fun hij hSel _ => absurd (.inl ⟨hOp, hcn, hrs, hSel⟩) (hKernel hij)
    · exact (Still.raise _).leaves ht
    iterate 2
      rw [after_ite]
      split
      · exact (Still.raise _).leaves ht
      · exact (Still.raise _).leaves ht
    · exact (Still.raise _).leaves ht

omit hL in
theorem stallOr_leaves {wait : Mipscpu → Bool} {x : M δ Unit} (hx : Still x) (ht : Calm j v t)
    (hWait : wait (t.mycpus i) = false) : Leaves L v b j (stallOr b i wait x) t := by
  unfold Leaves stallOr
  rw [after_bind, after_getCpu, hWait, if_neg Bool.false_ne_true]
  exact hx.leaves ht

omit hL in
/-- Of the instructions of `OPM_SPECIAL` all but jumps and those that stall. -/
theorem special_leaves {insn : Word} (hOp : opm insn = .special) (hInsn : ¬Transfers insn)
    (hStall : stalls insn (t.mycpus i) = false) (ht : Calm j v t) :
    Leaves L v b j (executeSpecial b i insn) t := by
  unfold executeSpecial
  cases hOps : ops insn <;> simp only [stalls, hOp, hOps] at hStall
  case jr => exact absurd (by simp only [Transfers, hOp, hOps, true_or]) hInsn
  case jalr => exact absurd (by simp only [Transfers, hOp, hOps, or_true]) hInsn
  case sll | srl | sra => exact (Still.getCpu fun _ => Still.setReg _ _).leaves ht
  case syscall | «break» | ill => exact (Still.raise _).leaves ht
  case sync => exact (Still.pure ()).leaves ht
  case mfhi | mflo | mthi | mtlo => exact stallOr_leaves (Still.modCpu fun _ => rfl) ht hStall
  case mult | multu | divu => exact stallOr_leaves (Still.modCpu fun _ => rfl) ht hStall
  case div =>
    unfold Leaves mxDiv
    rw [after_bind, after_getCpu, after_ite]
    split
    · intro hThrow
      cases hThrow
    · exact stallOr_leaves (Still.modCpu fun _ => rfl) ht hStall
  case add | sub => exact (Still.getCpu fun _ => Still.chkovf _ _).leaves ht
  all_goals exact (Still.rdOp _ _).leaves ht

/-! ## Starting cpus -/

omit hL in
theorem hangUnless_of_posted {P : Machine δ → Prop} (hHung : ∀ why u, P u → P (u.hung why))
    {x : M δ Unit} {m : Machine δ} (hx : After x (fun _ => P) (fun e u => e = .exception ∧ P u) m) :
    After (hangUnless x) (fun _ => P) (fun _ _ => False) m := by
  rw [after_hangUnless]
  refine hx.mono (fun _ _ h => h) ?_
  rintro _ u ⟨rfl, hu⟩
  exact hHung _ u hu

theorem cpuSetEntrypoint_fine {addr : Word} (ht : Calm j v t) (hLookup : i = j → ∀ vaddr,
      EntryOrder b (t.mycpus i).mapping addr vaddr → L (t.mycpus i).mapping vaddr false) :
    After (cpuSetEntrypoint b i addr) (fun _ u => Fine b L v (u.mycpus j)) (fun _ _ => False) t := by
  have hRest : ∀ u : Machine δ, u.mycpus = t.mycpus → After (do
      let addr := addr &&& 0xfffffffc
      modCpu i fun c =>
        { c with r := Function.update c.r 25 addr, expc := addr, pc := addr, nextpc := addr + 4 }
      hangUnless (precomputePc b i)
      hangUnless (precomputeNextpc b i)) (fun _ u => Fine b L v (u.mycpus j)) (fun _ _ => False) u := by
    intro u hu
    rw [after_bind, after_modCpu, after_bind]
    generalize hu₁ : u.modCpu i _ = u₁
    have hCalm : Calm j v u₁ := by
      rw [← hu₁]
      refine Calm.modCpu ?_ fun _ => rfl
      rw [Calm, hu]
      exact ht
    have hFirst := precomputePc_halfway hL (i := i) hCalm fun hij vaddr hOrder => by
      rw [← hu₁, Machine.modCpu_mycpus_self, hu] at hOrder ⊢
      exact hLookup hij vaddr hOrder
    refine (hangUnless_of_posted (fun why _ h => h.hung why) hFirst).mono (fun _ u hu => ?_)
      fun _ _ h => h
    exact hangUnless_of_posted (fun _ _ h => h) (precomputeNextpc_fine hL hu)
  unfold cpuSetEntrypoint
  split
  · rw [after_bind, after_hang]
    exact hRest _ rfl
  · exact hRest t rfl

omit hL in
/-- Starting and stopping a cpu leaves the others and the bus's records of them alone. -/
theorem setCpueCpu_elsewhere {val : Word} {k : Nat} (hk : j ≠ k) (m : Machine δ) :
    After (setCpueCpu b val k) (fun _ u => u.mycpus j = m.mycpus j ∧ u.cpus j = m.cpus j)
      (fun _ _ => False) m := by
  have hAhead : Ahead b fun _ _ _ _ => True := ⟨fun _ => trivial, fun _ _ _ => trivial⟩
  have hCpus : CoreBlind fun u : Machine δ => u.cpus = m.cpus :=
    ⟨fun _ _ _ _ h => h, fun _ _ _ h => h, fun _ _ h => h, fun _ _ _ _ _ h => h, fun _ _ h => h⟩
  unfold setCpueCpu
  rw [after_bind, after_get]
  dsimp only
  rw [after_ite]
  split
  · rw [after_bind, after_modify]
    refine ⟨?_, ?_⟩
    · exact Machine.modCpu_mycpus_ne (m.setLamebusCpu k _) (fun c => { c with state := .disabled }) hk
    · exact Function.update_of_ne hk _ _
  rw [after_ite]
  split
  · rw [after_bind]
    refine ((cpuSetEntrypoint_ready k hAhead _ m).and (hCpus.cpuSetEntrypoint (b := b) k _ m rfl)).mono
      ?_ fun _ _ h => h.1
    rintro _ u ⟨⟨hElsewhere, -⟩, hSame⟩
    rw [after_launch]
    refine ⟨?_, congrFun hSame j⟩
    exact (Machine.modCpu_mycpus_ne u (fun c => c.launched _ _) hk).trans (hElsewhere j hk)
  · exact ⟨rfl, rfl⟩

theorem setCpueCpu_fine {val : Word} {m : Machine δ} (hm : Calm j v m)
    (hStart : (m.cpus j).cpuEnabled = false → val.getLsbD j = true → ∀ vaddr,
      EntryOrder b (m.mycpus j).mapping (m.startEntry j) vaddr → L (m.mycpus j).mapping vaddr false) :
    After (setCpueCpu b val j) (fun _ u => Fine b L v (u.mycpus j)) (fun _ _ => False) m := by
  unfold setCpueCpu
  rw [after_bind, after_get]
  dsimp only
  rw [after_ite]
  split
  · rw [after_bind, after_modify]
    have hRecord : Calm j v (m.setLamebusCpu j { m.cpus j with cpuEnabled := false }) := hm
    have hDisabled := hRecord.modCpu (i := j) (f := fun c => { c with state := .disabled })
      fun _ => rfl
    exact .inl hDisabled
  rw [after_ite]
  split
  · rename_i hOn
    simp only [Bool.and_eq_true, Bool.not_eq_true'] at hOn
    rw [after_bind]
    refine (cpuSetEntrypoint_fine hL hm fun _ => hStart hOn.1 hOn.2).mono (fun _ u hu => ?_)
      fun _ _ h => h
    have hLaunched := launch_mycpus_self u j (u.mycpus j)
    rw [Machine.setCpu_self] at hLaunched
    rw [after_launch, hLaunched]
    exact hu.of_eq rfl rfl
  · exact .inl hm

omit hL in
theorem setCpueCpus_elsewhere {val : Word} {l : List Nat} (hl : j ∉ l) (m : Machine δ) :
    After (l.forM (setCpueCpu b val)) (fun _ u => u.mycpus j = m.mycpus j) (fun _ _ => False) m := by
  induction l generalizing m with
  | nil => rfl
  | cons k l ih =>
    rw [List.mem_cons, not_or] at hl
    rw [List.forM_eq_forM, List.forM_cons, after_bind]
    refine (setCpueCpu_elsewhere hl.1 m).mono (fun _ u hu => ?_) fun _ _ h => h
    exact (ih hl.2 u).mono (fun _ _ h => h.trans hu.1) fun _ _ h => h

/-- The loop of `set_cpue` comes to each cpu once. -/
theorem setCpueCpus_fine {val : Word} {l : List Nat} (hl : l.Nodup) {m : Machine δ} (hm : Calm j v m)
    (hStart : j ∈ l → (m.cpus j).cpuEnabled = false → val.getLsbD j = true → ∀ vaddr,
      EntryOrder b (m.mycpus j).mapping (m.startEntry j) vaddr → L (m.mycpus j).mapping vaddr false) :
    After (l.forM (setCpueCpu b val)) (fun _ u => Fine b L v (u.mycpus j)) (fun _ _ => False) m := by
  induction l generalizing m with
  | nil => exact .inl hm
  | cons k l ih =>
    obtain ⟨hNotMem, hNodup⟩ := List.nodup_cons.mp hl
    rw [List.forM_eq_forM, List.forM_cons, after_bind]
    by_cases hk : j = k
    · subst hk
      refine (setCpueCpu_fine hL hm (hStart (List.mem_cons_self ..))).mono (fun _ u hu => ?_)
        fun _ _ h => h
      refine (setCpueCpus_elsewhere hNotMem u).mono (fun _ w hw => ?_) fun _ _ h => h
      rw [hw]
      exact hu
    · refine (setCpueCpu_elsewhere hk m).mono ?_ fun _ _ h => h
      rintro _ u ⟨hCpu, hRecord⟩
      refine ih hNodup (by rw [Calm, hCpu]; exact hm) fun hMem hOff hBit => ?_
      rw [hRecord] at hOff
      rw [Machine.startEntry, hCpu, hRecord]
      exact hStart (List.mem_cons_of_mem _ hMem) hOff hBit

/-! ## Loads and stores -/

omit hL in
theorem after_fetchPhys_cpueAddr {Q : Option Word → Machine δ → Prop}
    {E : Stop → Machine δ → Prop} (m : Machine δ) :
    After (fetchPhys b i cpueAddr) Q E m ↔
      Q (if b.isold then none else some (m.getCpue b)) m := by
  have hFetch : fetchPhys b i cpueAddr = (do
      let m ← get
      if b.isold then return none else return some (m.getCpue b) : M δ (Option Word)) := rfl
  rw [hFetch, after_bind, after_get, after_ite]
  split
  · exact Iff.rfl
  · exact Iff.rfl

omit hL in
theorem after_storePhys_cpueAddr {Q : Bool → Machine δ → Prop} {E : Stop → Machine δ → Prop}
    {val : Word} (m : Machine δ) :
    After (storePhys b i cpueAddr val) Q E m ↔
      if b.isold then Q false m else After (setCpue b val) (fun _ => Q true) E m := by
  have hStore : storePhys b i cpueAddr val = (if b.isold then pure false else do
      setCpue b val
      return true : M δ Bool) := rfl
  rw [hStore, after_ite]
  split
  · exact Iff.rfl
  · rw [after_bind]
    exact Iff.rfl

omit hL in
/-- The other registers have nothing to do with translations. -/
theorem busKeeps_calm (mp : Mapping) :
    BusKeeps b (fun m : Machine δ => ∀ k, (k = j → (m.mycpus k).vpage = v) ∧
      (k = i → (m.mycpus k).mapping = mp)) fun e _ => e ≠ .exception :=
  busKeeps_mycpus b (g := fun c => (c.vpage, c.mapping))
    (K := fun k p => (k = j → p.1 = v) ∧ (k = i → p.2 = mp)) (fun _ _ _ => rfl)
    (fun _ _ _ => nofun) fun _ _ => by decide

omit hL in
theorem looked_mapping (vaddr : Word) (w : Bool) (t : Machine δ) (k : Nat) :
    ((t.setCpu i ((t.mycpus i).translated vaddr w)).mycpus k).mapping = (t.mycpus k).mapping := by
  by_cases hk : k = i
  · subst hk
    rw [Machine.setCpu_mycpus_self, translated_mapping]
  · rw [Machine.setCpu_mycpus_ne t _ hk]

theorem Calm.looked {vaddr : Word} {w : Bool} {paddr : Word} (ht : Calm j v t)
    (hLookup : i = j → L (t.mycpus i).mapping vaddr w)
    (hOk : (t.mycpus i).mapping.translate vaddr w = .ok paddr) :
    Calm j v (t.setCpu i ((t.mycpus i).translated vaddr w)) := by
  refine ht.setCpu fun hij => ?_
  rw [translated_of_ok hL (hij ▸ ht) (hLookup hij) hOk]
  exact hij ▸ ht

theorem domemFetch_calm {vaddr : Word} {w : Bool} (ht : Calm j v t)
    (hLookup : i = j → L (t.mycpus i).mapping vaddr w) :
    After (domemFetch b i vaddr w) (fun word u => Calm j v u ∧
        (u.mycpus i).mapping = (t.mycpus i).mapping ∧
        ((t.mycpus i).mapping.translate vaddr w = .ok cpueAddr → word = t.getCpue b ∧
          u.cpus = t.cpus ∧ (u.mycpus j).mapping = (t.mycpus j).mapping))
      (fun e u => e = .exception → Fine b L v (u.mycpus j)) t := by
  unfold domemFetch
  rw [after_bind, after_translatemem]
  split
  · rename_i paddr hPaddr
    have hCalm := ht.looked hL hLookup hPaddr
    have hMapping := looked_mapping (i := i) vaddr w t
    have hCpus : (t.setCpu i ((t.mycpus i).translated vaddr w)).cpus = t.cpus := rfl
    generalize t.setCpu i _ = t₁ at hCalm hMapping hCpus ⊢
    rw [after_bind]
    by_cases hCpue : paddr = cpueAddr
    · subst hCpue
      rw [after_fetchPhys_cpueAddr]
      cases b.isold with
      | true => exact fun _ => hCalm.fine_exception _
      | false =>
        refine ⟨hCalm, hMapping i, fun _ => ⟨?_, hCpus, hMapping j⟩⟩
        rw [Machine.getCpue, Machine.getCpue, hCpus]
    · have hBus : ∀ k, (k = j → (t₁.mycpus k).vpage = v) ∧
          (k = i → (t₁.mycpus k).mapping = (t.mycpus i).mapping) := fun k =>
        ⟨fun hk => hk ▸ hCalm, fun hk => hk ▸ hMapping i⟩
      refine ((busKeeps_calm (t.mycpus i).mapping).fetchPhys i paddr t₁ hBus).mono
        (fun val u hu => ?_) fun _ _ h he => absurd he h
      have hCalm' : Calm j v u := (hu j).1 rfl
      cases val with
      | none => exact fun _ => hCalm'.fine_exception _
      | some word =>
        exact ⟨hCalm', (hu i).2 rfl, fun h => absurd (Except.ok.inj (hPaddr.symm.trans h)) hCpue⟩
  · rename_i e hFault
    exact fun _ => ht.fine_setCpu fun hij => fine_of_error hL (hij ▸ ht) (hLookup hij) hFault

omit hL in
theorem storeOf_storeStyle {insn : Word} {ms : Memstyles} (hStyle : storeStyle insn = some ms)
    (c : Mipscpu) (old : Word) : storeOf insn c old =
      some (storeAddr ms (needaddr c insn), mergeStore ms (needaddr c insn) (c.r (rt insn)) old) := by
  unfold storeOf
  split
  · simp [storeStyle, *] at hStyle
  · simp [storeStyle, *] at hStyle
  · rw [hStyle]
    rfl

/-- What a store of a value to an address translates for cpu `j`, if it starts it. -/
def StartsIn (b : Board δ) (L : Mapping → Word → Bool → Prop) (i j : Nat) (vaddr val : Word)
    (t : Machine δ) : Prop :=
  (t.mycpus i).mapping.translate vaddr true = .ok cpueAddr → b.isold = false → j < b.ncpus →
    (t.cpus j).cpuEnabled = false → val.getLsbD j = true →
    ∀ vaddr', EntryOrder b (t.mycpus j).mapping (t.startEntry j) vaddr' →
      L (t.mycpus j).mapping vaddr' false

theorem domemStore_leaves {vaddr val : Word} (ht : Calm j v t)
    (hLookup : i = j → L (t.mycpus i).mapping vaddr true) (hStarts : StartsIn b L i j vaddr val t) :
    Leaves L v b j (domemStore b i vaddr val) t := by
  unfold Leaves domemStore
  rw [after_bind, after_translatemem]
  split
  · rename_i paddr hPaddr
    have hCalm := ht.looked hL hLookup hPaddr
    have hMapping := looked_mapping (i := i) vaddr true t j
    have hCpus : (t.setCpu i ((t.mycpus i).translated vaddr true)).cpus = t.cpus := rfl
    generalize t.setCpu i _ = t₁ at hCalm hMapping hCpus ⊢
    rw [after_bind]
    by_cases hCpue : paddr = cpueAddr
    · subst hCpue
      rw [after_storePhys_cpueAddr]
      split
      · exact fun _ => hCalm.fine_exception _
      · rename_i hNew
        refine (setCpueCpus_fine hL List.nodup_range hCalm fun hMem hOff hBit => ?_).mono
          (fun _ _ hu => hu) fun _ _ h => h.elim
        rw [Machine.startEntry, hMapping, hCpus]
        rw [hCpus] at hOff
        exact hStarts hPaddr (by simpa using hNew) (List.mem_range.mp hMem) hOff hBit
    · have hBus : ∀ k, (k = j → (t₁.mycpus k).vpage = v) ∧
          (k = i → (t₁.mycpus k).mapping = (t₁.mycpus i).mapping) := fun k =>
        ⟨fun hk => hk ▸ hCalm, fun hk => hk ▸ rfl⟩
      refine ((busKeeps_calm (t₁.mycpus i).mapping).storePhys i (fun _ _ h => h)
        (fun h => absurd h hCpue) t₁ hBus).mono (fun ok u hu => ?_) fun _ _ h he => absurd he h
      have hCalm' : Calm j v u := (hu j).1 rfl
      cases ok with
      | true => exact .inl hCalm'
      | false => exact fun _ => hCalm'.fine_exception _
  · rename_i e hFault
    exact fun _ => ht.fine_setCpu fun hij => fine_of_error hL (hij ▸ ht) (hLookup hij) hFault

theorem modifyWord_leaves {addr : Word} {f : Word → Word} (ht : Calm j v t)
    (hLookup : i = j → L (t.mycpus i).mapping addr true)
    (hStarts : StartsIn b L i j addr (f (t.getCpue b)) t) :
    Leaves L v b j (modifyWord b i addr f) t := by
  unfold Leaves modifyWord
  rw [after_bind]
  refine (domemFetch_calm hL ht hLookup).mono ?_ fun _ _ h => h
  rintro word u ⟨hu, hMapping, hCpue⟩
  refine domemStore_leaves hL hu (fun hij => hMapping ▸ hLookup hij) fun hPaddr hNew hj hOff hBit => ?_
  rw [hMapping] at hPaddr
  obtain ⟨rfl, hCpus, hSame⟩ := hCpue hPaddr
  rw [Machine.startEntry, hSame, hCpus]
  rw [hCpus] at hOff
  exact hStarts hPaddr hNew hj hOff hBit

theorem loadOp_leaves {insn : Word} {ms : Memstyles} (ht : Calm j v t) (hLookup : i = j →
      L (t.mycpus i).mapping (storeAddr ms (needaddr (t.mycpus i) insn)) false) :
    Leaves L v b j (loadOp b i insn ms) t := by
  obtain ⟨f, hf⟩ := doload_eq (b := b) (i := i) ms (needaddr (t.mycpus i) insn)
    ((t.mycpus i).r (rt insn))
  unfold Leaves loadOp
  rw [after_bind, after_getCpu, hf, after_bind, after_bind]
  refine (domemFetch_calm hL ht hLookup).mono ?_ fun _ _ h => h
  rintro val u ⟨hu, -, -⟩
  exact .inl (hu.modCpu fun _ => rfl)

theorem storeOp_leaves {insn : Word} {ms : Memstyles} (hStyle : storeStyle insn = some ms)
    (ht : Calm j v t)
    (hLookup : i = j → L (t.mycpus i).mapping (storeAddr ms (needaddr (t.mycpus i) insn)) true)
    (hStarts : ∀ vaddr val, storeOf insn (t.mycpus i) (t.getCpue b) = some (vaddr, val) →
      StartsIn b L i j vaddr val t) : Leaves L v b j (storeOp b i insn ms) t := by
  have hModify := modifyWord_leaves (f := mergeStore ms (needaddr (t.mycpus i) insn)
    ((t.mycpus i).r (rt insn))) hL ht hLookup (hStarts _ _ (storeOf_storeStyle hStyle _ _))
  unfold Leaves storeOp
  rw [after_bind, after_getCpu]
  cases ms with
  | sbyte | shalf => exact nofun
  | ubyte | uhalf | wordl | wordr => exact hModify

theorem mxSc_leaves {insn : Word} (hOp : opm insn = .swc0) (ht : Calm j v t)
    (hLookup : i = j → (t.mycpus i).llActive = true →
      (t.mycpus i).llAddr = needaddr (t.mycpus i) insn →
      L (t.mycpus i).mapping (needaddr (t.mycpus i) insn) true)
    (hStarts : ∀ vaddr val, storeOf insn (t.mycpus i) (t.getCpue b) = some (vaddr, val) →
      StartsIn b L i j vaddr val t) : Leaves L v b j (mxSc b i insn) t := by
  unfold Leaves mxSc
  rw [after_bind, after_getCpu, after_ite]
  split
  · exact .inl (ht.modCpu fun _ => rfl)
  rename_i hLl
  simp only [Bool.or_eq_true, Bool.not_eq_true', decide_eq_true_eq, not_or, Bool.not_eq_false,
    not_not] at hLl
  rw [after_bind]
  refine (domemFetch_calm hL ht fun hij => hLookup hij hLl.1 hLl.2).mono ?_ fun _ _ h => h
  rintro temp u ⟨hu, hMapping, hCpue⟩
  rw [after_ite]
  split
  · exact .inl (hu.modCpu fun _ => rfl)
  rename_i hSame
  rw [after_bind]
  refine (domemStore_leaves hL hu (fun hij => hMapping ▸ hLookup hij hLl.1 hLl.2) ?_).mono
    (fun _ w hw => ?_) fun _ _ h => h
  · intro hPaddr hNew hj hOff hBit
    rw [hMapping] at hPaddr
    obtain ⟨rfl, hCpus, hMappings⟩ := hCpue hPaddr
    rw [Machine.startEntry, hMappings, hCpus]
    rw [hCpus] at hOff
    refine hStarts _ _ ?_ hPaddr hNew hj hOff hBit
    simp only [storeOf, hOp]
    rw [if_pos ⟨hLl.1, hLl.2, not_not.mp hSame⟩]
  · exact fine_modCpu hw fun _ => ⟨rfl, rfl⟩

/-- Loads, stores and cache control. -/
theorem memory_leaves {insn : Word} (hMem : UsesMemory insn) (ht : Calm j v t)
    (hLookup : i = j → ∀ mp vaddr iswrite, InsnLookup b i insn t mp vaddr iswrite →
      L mp vaddr iswrite)
    (hStarts : ∀ vaddr val, storeOf insn (t.mycpus i) (t.getCpue b) = some (vaddr, val) →
      StartsIn b L i j vaddr val t) : Leaves L v b j (execute b i insn) t := by
  have hData : i = j → Accesses insn (t.mycpus i) → L (t.mycpus i).mapping
      (accessAddr insn (needaddr (t.mycpus i) insn)) (accessWrites insn) :=
    fun hij hAccess => hLookup hij _ _ _ (.data hAccess)
  cases hOp : opm insn <;> simp only [UsesMemory, hOp] at hMem <;>
    simp only [execute, hOp] <;>
    simp only [Accesses, UsesMemory, accessAddr, accessWrites, hOp] at hData
  case lb | lbu | lh | lhu | lwl | lwr =>
    exact loadOp_leaves hL ht fun hij => hData hij ⟨trivial, trivial⟩
  case sb | sh | swl | swr =>
    exact storeOp_leaves hL (by simp only [storeStyle, hOp]) ht
      (fun hij => hData hij ⟨trivial, trivial⟩) hStarts
  case lw =>
    unfold Leaves mxLw
    rw [after_bind, after_getCpu, after_bind]
    refine (domemFetch_calm hL ht fun hij => hData hij ⟨trivial, trivial⟩).mono
      (fun _ u hu => ?_) fun _ _ h => h
    exact .inl (hu.1.modCpu fun _ => rfl)
  case lwc0 =>
    unfold Leaves mxLl
    rw [after_bind, after_getCpu, after_bind]
    refine (domemFetch_calm hL ht fun hij => hData hij ⟨trivial, trivial⟩).mono
      (fun val u hu => ?_) fun _ _ h => h
    have hRest : Still (do
        setReg i (rt insn) val
        modCpu i fun c => { c with
          llActive := true, llAddr := needaddr (t.mycpus i) insn, llValue := c.r (rt insn) } :
        M δ Unit) :=
      Still.bind (Still.setReg _ _) fun _ => Still.modCpu fun _ => rfl
    exact hRest.leaves hu.1
  case sw =>
    unfold Leaves mxSw
    rw [after_bind, after_getCpu]
    exact domemStore_leaves hL ht (fun hij => hData hij ⟨trivial, trivial⟩)
      (hStarts _ _ (by simp only [storeOf, hOp]))
  case swc0 =>
    exact mxSc_leaves hL hOp ht (fun hij hLl hAddr => hData hij ⟨trivial, hLl, hAddr⟩) hStarts
  case cache =>
    unfold Leaves mxCache
    rw [after_bind, after_getCpu, after_ite]
    split
    · exact (Still.raise _).leaves ht
    rename_i hUser
    rw [after_ite]
    split
    · rename_i hAddr
      have hAccess : i = j → L (t.mycpus i).mapping (needaddr (t.mycpus i) insn) false :=
        fun hij => hData hij ⟨trivial, by simpa using hUser, hAddr⟩
      rw [after_bind, after_translatemem]
      split
      · rename_i paddr hOk
        exact .inl (ht.looked hL hAccess hOk)
      · rename_i e hFault
        exact fun _ => ht.fine_setCpu fun hij => fine_of_error hL (hij ▸ ht) (hAccess hij) hFault
    · exact .inl ht

/-- An instruction that does not write TLBHI leaves every cpu fine, if the addresses that it
translates and those that the cpus it starts are to fetch from are among those of `L`. -/
theorem execute_leaves {insn : Word} (ht : Calm j v t)
    (hWrite : i = j → WritesTlbhi insn → (t.mycpus i).currentUsermode = true)
    (hLookup : i = j → ∀ mp vaddr iswrite, InsnLookup b i insn t mp vaddr iswrite →
      L mp vaddr iswrite)
    (hStarts : StartsCpu b i insn t j → ∀ vaddr,
      EntryOrder b (t.mycpus j).mapping (t.startEntry j) vaddr → L (t.mycpus j).mapping vaddr false) :
    Leaves L v b j (execute b i insn) t := by
  by_cases hStall : stalls insn (t.mycpus i) = true
  · unfold Leaves
    rw [after_execute_stall i hStall]
    exact phonyException_leaves hL ht fun hij vaddr hOrder => hLookup hij _ _ _ (.stalled hStall hOrder)
  by_cases hTransfers : Transfers insn
  · exact transfer_leaves hL hTransfers ht hLookup
  by_cases hMem : UsesMemory insn
  · refine memory_leaves hL hMem ht hLookup fun vaddr val hStore hPaddr hNew hj hOff hBit => ?_
    exact hStarts ⟨hNew, hj, hOff, vaddr, val, hStore, hPaddr, hBit⟩
  cases hOp : opm insn <;> simp only [Transfers, UsesMemory, hOp, not_true_eq_false] at hTransfers hMem
  all_goals simp only [execute, hOp]
  case special => exact special_leaves hOp (by simpa only [Transfers, hOp]) (by simpa using hStall) ht
  case bcond =>
    unfold executeBcond
    split
    · exact absurd (.inl ‹_›) hTransfers
    · exact absurd (.inr (.inl ‹_›)) hTransfers
    · exact absurd (.inr (.inr (.inl ‹_›))) hTransfers
    · exact absurd (.inr (.inr (.inr ‹_›))) hTransfers
    · exact (Still.raise _).leaves ht
  case addi => exact (Still.getCpu fun _ => Still.chkovf _ _).leaves ht
  case addiu | slti | sltiu | andi | ori | xori => exact (Still.rtOp _ _).leaves ht
  case lui => exact (Still.setReg _ _).leaves ht
  case cop => exact copz_leaves hL hOp ht hWrite hLookup
  case lwc | swc | ill => exact (Still.raise _).leaves ht

end Programs

end Sys161.Mips
