import Sys161.Mips.Vpage

/-!
# The page of an exception

An exception of the MMU for any of the addresses that a step translates leaves the
page of the address in TLBHI.
-/

namespace Sys161.Mips

open Exec Runs

set_option autoImplicit false

variable {δ α : Type} {b : Board δ} {L : Mapping → Word → Bool → Prop} {v : Word} {i j : Nat}
  {t : Machine δ}

/-- VPAGE of cpu `j` is the page of the address, at the end of the program and where it posts an
exception. -/
def Lands (j : Nat) (vaddr : Word) (x : M δ α) (t : Machine δ) : Prop :=
  After x (fun _ => Calm j (vaddr &&& 0xfffff000))
    (fun e u => e = .exception → Calm j (vaddr &&& 0xfffff000) u) t

theorem fetch_of_fault {mp : Mapping} {vaddr : Word} {e : Exn}
    (h : mp.translate vaddr false = .error e) : mp.fetch b vaddr = .error e := by
  unfold Mapping.fetch
  rw [h]

/-- Of two translations the first has failed, or else the second is about to. -/
inductive Failing (L : Mapping → Word → Bool → Prop) (v : Word) (b : Board δ) (i : Nat)
    (vaddr : Word) (u : Machine δ) : Prop where
  | second {e : Exn} : Calm i v u → (u.mycpus i).nextpc = vaddr →
      L (u.mycpus i).mapping vaddr false → (u.mycpus i).mapping.translate vaddr false = .error e →
      Failing L v b i vaddr u
  | vector {m : Machine δ} {c : Mipscpu} {e : Exn} : u = m.setCpu i (c.exception b e) →
      Calm i (vaddr &&& 0xfffff000) u → Failing L v b i vaddr u

theorem Failing.hung {vaddr : Word} {u : Machine δ} (hu : Failing L v b i vaddr u) (why : Hang) :
    Failing L v b i vaddr (u.hung why) := by
  cases hu with
  | second hCalm hNext hLookup hFault => exact .second hCalm hNext hLookup hFault
  | @vector m c e hSet hCalm =>
    refine .vector (m := m.hung why) (c := c) (e := e) ?_ hCalm
    rw [hSet]
    rfl

variable (hL : Settling L v)

include hL

/-! ## Addresses of instructions -/

section Fetch

variable {vaddr : Word} {e : Exn}

theorem precomputePc_failing (ht : Calm i v t)
    (hLookup : ∀ vaddr, FetchOrder b (t.mycpus i).mapping (t.mycpus i).pc (t.mycpus i).nextpc vaddr →
      L (t.mycpus i).mapping vaddr false)
    (hOrder : FetchOrder b (t.mycpus i).mapping (t.mycpus i).pc (t.mycpus i).nextpc vaddr)
    (hFault : (t.mycpus i).mapping.translate vaddr false = .error e) :
    After (precomputePc b i) (fun _ => Failing L v b i vaddr)
      (fun s u => s = .exception ∧ Failing L v b i vaddr u) t := by
  rw [after_precomputePc]
  dsimp only
  cases hOrder with
  | pc =>
    rw [fetch_of_fault hFault]
    refine ⟨rfl, .vector rfl ?_⟩
    rw [Calm, Machine.setCpu_mycpus_self]
    exact vpage_of_error hL ht (hLookup _ .pc) hFault
  | @nextpc at_ hFetch =>
    rw [hFetch]
    dsimp only
    rw [translated_of_fetch hL ht (hLookup _ .pc) hFetch]
    refine .second (ht.setCpu fun _ => ht) ?_ ?_ (e := e) ?_ <;> rw [Machine.setCpu_mycpus_self]
    · rfl
    · exact hLookup _ (.nextpc hFetch)
    · exact hFault

theorem precomputeNextpc_failing (ht : Failing L v b i vaddr t) :
    After (precomputeNextpc b i) (fun _ => Calm i (vaddr &&& 0xfffff000))
      (fun s u => s = .exception ∧ Calm i (vaddr &&& 0xfffff000) u) t := by
  cases ht with
  | second ht hNext hLookup hFault =>
    subst hNext
    rw [after_precomputeNextpc]
    dsimp only
    rw [fetch_of_fault hFault]
    refine ⟨rfl, ?_⟩
    rw [Calm, Machine.setCpu_mycpus_self]
    exact vpage_of_error hL ht hLookup hFault
  | @vector m c e hSet ht =>
    rw [hSet] at ht ⊢
    exact (precomputeNextpc_vector m c e).mono (fun _ _ hu => hu ▸ ht) fun _ _ h => h.elim

theorem precomputeBoth_lands (ht : Calm i v t)
    (hLookup : ∀ vaddr, FetchOrder b (t.mycpus i).mapping (t.mycpus i).pc (t.mycpus i).nextpc vaddr →
      L (t.mycpus i).mapping vaddr false)
    (hOrder : FetchOrder b (t.mycpus i).mapping (t.mycpus i).pc (t.mycpus i).nextpc vaddr)
    (hFault : (t.mycpus i).mapping.translate vaddr false = .error e) :
    After (precomputeBoth b i) (fun _ => Calm i (vaddr &&& 0xfffff000)) (fun _ _ => False) t := by
  unfold precomputeBoth
  rw [after_bind]
  refine (attempt_of_posted (precomputePc_failing hL ht hLookup hOrder hFault)).mono
    (fun _ u hu => ?_) fun _ _ h => h
  rw [after_bind]
  exact attempt_of_posted (precomputeNextpc_failing hL hu)

theorem cpuSetEntrypoint_lands {addr : Word} (ht : Calm i v t)
    (hLookup : ∀ vaddr, EntryOrder b (t.mycpus i).mapping addr vaddr →
      L (t.mycpus i).mapping vaddr false)
    (hOrder : EntryOrder b (t.mycpus i).mapping addr vaddr)
    (hFault : (t.mycpus i).mapping.translate vaddr false = .error e) :
    After (cpuSetEntrypoint b i addr) (fun _ => Calm i (vaddr &&& 0xfffff000))
      (fun _ _ => False) t := by
  have hRest : ∀ u : Machine δ, u.mycpus = t.mycpus → After (do
      let addr := addr &&& 0xfffffffc
      modCpu i fun c =>
        { c with r := Function.update c.r 25 addr, expc := addr, pc := addr, nextpc := addr + 4 }
      hangUnless (precomputePc b i)
      hangUnless (precomputeNextpc b i)) (fun _ => Calm i (vaddr &&& 0xfffff000))
      (fun _ _ => False) u := by
    intro u hu
    rw [after_bind, after_modCpu, after_bind]
    generalize hu₁ : u.modCpu i _ = u₁
    have hCalm : Calm i v u₁ := by
      rw [← hu₁]
      refine Calm.modCpu ?_ fun _ => rfl
      rw [Calm, hu]
      exact ht
    have hFirst : After (precomputePc b i) (fun _ => Failing L v b i vaddr)
        (fun s u => s = .exception ∧ Failing L v b i vaddr u) u₁ := by
      refine precomputePc_failing hL hCalm (fun vaddr hOrder => ?_) ?_ (e := e) ?_
      · rw [← hu₁, Machine.modCpu_mycpus_self, hu] at hOrder ⊢
        exact hLookup vaddr hOrder
      · rw [← hu₁, Machine.modCpu_mycpus_self, hu]
        exact hOrder
      · rw [← hu₁, Machine.modCpu_mycpus_self, hu]
        exact hFault
    refine (hangUnless_of_posted (fun why _ h => h.hung why) hFirst).mono (fun _ u hu => ?_)
      fun _ _ h => h
    exact hangUnless_of_posted (fun _ _ h => h) (precomputeNextpc_failing hL hu)
  unfold cpuSetEntrypoint
  split
  · rw [after_bind, after_hang]
    exact hRest _ rfl
  · exact hRest t rfl

omit hL in
/-- Here an address that does not translate is the end of the program. -/
theorem phonyException_fails {Q : Unit → Machine δ → Prop}
    (hOrder : FetchOrder b (t.mycpus i).mapping (t.mycpus i).expc ((t.mycpus i).expc + 4) vaddr)
    (hFault : (t.mycpus i).mapping.translate vaddr false = .error e) :
    After (phonyException b i) Q (fun s _ => s ≠ .exception) t := by
  rw [after_phonyException]
  dsimp only
  cases hOrder with
  | pc =>
    rw [fetch_of_fault hFault]
    exact nofun
  | nextpc hFetch =>
    rw [hFetch, fetch_of_fault hFault]
    exact nofun

theorem writetlb_lands {ix : Int} {mp : Mapping} (hMade : mp = { (t.mycpus i).mapping with
      tlb := Function.update (t.mycpus i).tlb ix.toNat (t.mycpus i).tlbentry })
    (ht : Calm i v t)
    (hLookup : ∀ vaddr, FetchOrder b mp (t.mycpus i).pc (t.mycpus i).nextpc vaddr → L mp vaddr false)
    (hOrder : FetchOrder b mp (t.mycpus i).pc (t.mycpus i).nextpc vaddr)
    (hFault : mp.translate vaddr false = .error e) : Lands i vaddr (writetlb b i ix) t := by
  subst hMade
  unfold Lands writetlb
  rw [after_ite]
  split
  · rw [after_bind, after_modCpu, after_bind]
    generalize ht₁ : t.modCpu i _ = t₁
    have hCalm : Calm i v t₁ := ht₁ ▸ ht.modCpu fun _ => rfl
    refine (after_checkTlbDups i _ t₁).mono ?_ fun _ _ h => h.elim
    rintro _ u ⟨hCpus, -, -⟩
    have hu : Calm i v u := by
      rw [Calm, hCpus]
      exact hCalm
    refine (precomputeBoth_lands hL hu (fun vaddr hOrder => ?_) ?_ (e := e) ?_).mono (fun _ _ h => h)
      fun _ _ h => h.elim
    · rw [hCpus, ← ht₁, Machine.modCpu_mycpus_self] at hOrder ⊢
      exact hLookup vaddr hOrder
    · rw [hCpus, ← ht₁, Machine.modCpu_mycpus_self]
      exact hOrder
    · rw [hCpus, ← ht₁, Machine.modCpu_mycpus_self]
      exact hFault
  · intro hThrow
    cases hThrow

theorem doRfe_lands {mp : Mapping}
    (hMade : mp = { (t.mycpus i).mapping with usermode := (t.mycpus i).prevUsermode })
    (ht : Calm i v t)
    (hLookup : ∀ vaddr, FetchOrder b mp (t.mycpus i).pc (t.mycpus i).nextpc vaddr → L mp vaddr false)
    (hOrder : FetchOrder b mp (t.mycpus i).pc (t.mycpus i).nextpc vaddr)
    (hFault : mp.translate vaddr false = .error e) : Lands i vaddr (doRfe b i) t := by
  subst hMade
  unfold Lands doRfe
  rw [after_bind, after_getCpu, after_ite]
  split
  · exact nofun
  rw [after_bind, after_modCpu]
  generalize ht₁ : t.modCpu i _ = t₁
  have hCalm : Calm i v t₁ := ht₁ ▸ ht.modCpu fun _ => rfl
  refine (precomputeBoth_lands hL hCalm (fun vaddr hOrder => ?_) ?_ (e := e) ?_).mono
    (fun _ _ h => h) fun _ _ h => h.elim
  · rw [← ht₁, Machine.modCpu_mycpus_self] at hOrder ⊢
    exact hLookup vaddr hOrder
  · rw [← ht₁, Machine.modCpu_mycpus_self]
    exact hOrder
  · rw [← ht₁, Machine.modCpu_mycpus_self]
    exact hFault

theorem cop0_lands {insn : Word} {mp : Mapping} (hMade : (t.mycpus i).remade insn = some mp)
    (ht : Calm i v t)
    (hLookup : ∀ vaddr, FetchOrder b mp (t.mycpus i).pc (t.mycpus i).nextpc vaddr → L mp vaddr false)
    (hOrder : FetchOrder b mp (t.mycpus i).pc (t.mycpus i).nextpc vaddr)
    (hFault : mp.translate vaddr false = .error e) : Lands i vaddr (mxCop0 b i insn) t := by
  unfold Mipscpu.remade at hMade
  dsimp only at hMade
  unfold Lands
  split at hMade
  · rename_i hTlbwi
    simp only [mxCop0, hTlbwi, mxTlbwi, after_bind, after_getCpu]
    exact writetlb_lands hL (Option.some.inj hMade).symm ht hLookup hOrder hFault
  · rename_i hTlbwr
    simp only [mxCop0, hTlbwr, mxTlbwr, after_bind, after_modCpu, after_getCpu]
    refine writetlb_lands hL (?_ : mp = _) (ht.modCpu fun _ => rfl) ?_ ?_ hFault
    · rw [Machine.modCpu_mycpus_self, ← Option.some.inj hMade]
      rfl
    · rw [Machine.modCpu_mycpus_self]
      exact hLookup
    · rw [Machine.modCpu_mycpus_self]
      exact hOrder
  · rename_i hRfe
    simp only [mxCop0, hRfe]
    exact doRfe_lands hL (Option.some.inj hMade).symm ht hLookup hOrder hFault
  · cases hMade

theorem abranch_lands {addr : Word} (ht : Calm i v t) (hLookup : L (t.mycpus i).mapping addr false)
    (hRfe : ¬Fetched t.ram (t.mycpus i) fullopRfe)
    (hFault : (t.mycpus i).mapping.translate addr false = .error e) :
    Lands i addr (abranch b i addr) t := by
  unfold Lands abranch
  rw [after_ite]
  split
  · rename_i hAlign
    have hSame : (t.mycpus i).translated addr false = t.mycpus i := by
      unfold Mipscpu.translated translate
      rw [if_pos (.inr hAlign)]
    have hPage := vpage_of_error hL ht hLookup hFault
    rw [hSame] at hPage
    exact fun _ => Calm.modCpu hPage fun _ => rfl
  rw [after_bind, after_modCpu, after_bind, after_getCpu, after_bind]
  generalize ht₁ : t.modCpu i _ = t₁
  have hCalm : Calm i v t₁ := ht₁ ▸ ht.modCpu fun _ => rfl
  have hCpu : t₁.mycpus i = { t.mycpus i with nextpc := addr, jumping := true } := by
    rw [← ht₁, Machine.modCpu_mycpus_self]
  have hRam : t₁.ram = t.ram := by rw [← ht₁]; rfl
  cases hPage : (t₁.mycpus i).pcpage with
  | none => exact nofun
  | some page =>
    rw [after_useMap_some, after_ite, if_neg]
    · refine (precomputeNextpc_failing hL (.second hCalm ?_ ?_ (e := e) ?_)).mono
        (fun _ _ hu => hu) fun _ _ hu _ => hu.2
      · rw [hCpu]
      · rw [hCpu]
        exact hLookup
      · rw [hCpu]
        exact hFault
    · intro hWord
      refine hRfe ⟨page, ?_, ?_⟩
      · rw [← hPage, hCpu]
      · rw [hRam, hCpu] at hWord
        exact hWord

omit hL in
theorem transfers_of_some {insn : Word} {c : Mipscpu} {addr : Word}
    (h : transfer insn c = some addr) : Transfers insn := by
  unfold transfer at h
  unfold Transfers
  cases hOp : opm insn <;> simp only [hOp] at h ⊢
  case special =>
    split at h
    · exact .inl ‹_›
    · exact .inr ‹_›
    · cases h
  case bcond =>
    split at h
    · exact .inl ‹_›
    · exact .inr (.inr (.inl ‹_›))
    · exact .inr (.inl ‹_›)
    · exact .inr (.inr (.inr ‹_›))
    · cases h
  all_goals cases h

theorem transfer_lands {insn addr : Word} (ht : Calm i v t)
    (hAddr : transfer insn ((t.linked i insn).mycpus i) = some addr)
    (hLookup : L (t.mycpus i).mapping addr false) (hRfe : ¬Fetched t.ram (t.mycpus i) fullopRfe)
    (hFault : (t.mycpus i).mapping.translate addr false = .error e) :
    Lands i addr (execute b i insn) t := by
  obtain ⟨hRam, hFetched, hMapping⟩ := linked_same (i := i) insn t
  unfold Lands
  rw [after_execute_transfer (transfers_of_some hAddr), AfterTransfer, hAddr]
  refine abranch_lands hL ht.linked ?_ ?_ ?_ (e := e)
  · rw [hMapping]
    exact hLookup
  · rw [hRam, hFetched]
    exact hRfe
  · rw [hMapping]
    exact hFault

end Fetch

/-! ## Addresses of data -/

section Data

variable {vaddr val : Word} {e : Exn} {insn : Word} {Q : Unit → Machine δ → Prop}
  {E : Stop → Machine δ → Prop}

omit hL in
theorem fault_domemStore (h : (t.mycpus i).mapping.translate vaddr true = .error e) :
    After (domemStore b i vaddr val) Q E t ↔
      E .exception (t.setCpu i (((t.mycpus i).translated vaddr true).exception b e)) := by
  unfold domemStore
  rw [after_bind, after_translatemem, h]

omit hL in
/-- An access to an address that does not translate comes to nothing else. -/
theorem after_execute_refused (hAccess : Accesses insn (t.mycpus i))
    (hFault : (t.mycpus i).mapping.translate (accessAddr insn (needaddr (t.mycpus i) insn))
      (accessWrites insn) = .error e) :
    After (execute b i insn) Q E t ↔
      E .exception (t.setCpu i (((t.mycpus i).translated
        (accessAddr insn (needaddr (t.mycpus i) insn)) (accessWrites insn)).exception b e)) := by
  have hLoad : ∀ ms : Memstyles,
      (t.mycpus i).mapping.translate (storeAddr ms (needaddr (t.mycpus i) insn)) false = .error e →
      (After (loadOp b i insn ms) Q E t ↔ E .exception (t.setCpu i (((t.mycpus i).translated
        (storeAddr ms (needaddr (t.mycpus i) insn)) false).exception b e))) := by
    intro ms h
    obtain ⟨f, -, hEq⟩ := @loadOp_eq δ b i insn ms t
    rw [hEq, fault_domemFetch h]
  have hStore : ∀ ms : Memstyles, ms ≠ .sbyte ∧ ms ≠ .shalf →
      (t.mycpus i).mapping.translate (storeAddr ms (needaddr (t.mycpus i) insn)) true = .error e →
      (After (storeOp b i insn ms) Q E t ↔ E .exception (t.setCpu i (((t.mycpus i).translated
        (storeAddr ms (needaddr (t.mycpus i) insn)) true).exception b e))) := by
    intro ms hStyle h
    rw [storeOp_eq hStyle, modifyWord, fault_domemFetch h]
  obtain ⟨hMem, hMore⟩ := hAccess
  cases hOp : opm insn <;> simp only [UsesMemory, hOp] at hMem <;>
    simp only [accessAddr, accessWrites, hOp] at hFault hMore ⊢ <;> simp only [execute, hOp]
  case lb => exact hLoad .sbyte hFault
  case lbu => exact hLoad .ubyte hFault
  case lh => exact hLoad .shalf hFault
  case lhu => exact hLoad .uhalf hFault
  case lwl => exact hLoad .wordl hFault
  case lwr => exact hLoad .wordr hFault
  case sb => exact hStore .ubyte (by decide) hFault
  case sh => exact hStore .uhalf (by decide) hFault
  case swl => exact hStore .wordl (by decide) hFault
  case swr => exact hStore .wordr (by decide) hFault
  case lw =>
    unfold mxLw
    rw [after_bind, after_getCpu, fault_domemFetch hFault]
  case lwc0 =>
    unfold mxLl
    rw [after_bind, after_getCpu, fault_domemFetch hFault]
  case sw =>
    unfold mxSw
    rw [after_bind, after_getCpu, fault_domemStore hFault]
  case swc0 =>
    unfold mxSc
    rw [after_bind, after_getCpu, after_ite, if_neg (by simp [hMore.1, hMore.2]),
      fault_domemFetch hFault]
  case cache =>
    unfold mxCache
    rw [after_bind, after_getCpu, after_ite, if_neg (by simp [hMore.1]), after_ite, if_pos hMore.2,
      after_bind, after_translatemem, hFault]

end Data

/-- An instruction with an address that does not translate. -/
theorem execute_lands {insn : Word} {mp : Mapping} {vaddr : Word} {iswrite : Bool} {e : Exn}
    (ht : Calm i v t) (hLookups : ∀ mp vaddr iswrite, InsnLookup b i insn t mp vaddr iswrite →
      L mp vaddr iswrite)
    (hLookup : InsnLookup b i insn t mp vaddr iswrite)
    (hFault : mp.translate vaddr iswrite = .error e) : Lands i vaddr (execute b i insn) t := by
  have hIn := hLookups _ _ _ hLookup
  unfold Lands
  cases hLookup with
  | data hAccess =>
    rw [after_execute_refused hAccess hFault]
    intro _
    rw [Calm, Machine.setCpu_mycpus_self]
    exact vpage_of_error hL ht hIn hFault
  | target hAddr hRfe => exact transfer_lands hL ht hAddr hIn hRfe hFault
  | stalled hStall hOrder =>
    rw [after_execute_stall i hStall]
    exact (phonyException_fails hOrder hFault).mono (fun _ _ h => h) fun _ _ h he => absurd he h
  | remade hOp hUser hMade hOrder =>
    rw [after_execute_cop0 i hOp hUser]
    exact cop0_lands hL hMade ht (fun _ h => hLookups _ _ _ (.remade hOp hUser hMade h)) hOrder hFault

/-! ## Starting cpus -/

omit hL in
/-- A store of the value starts the cpu at an address that does not translate. -/
structure EntryFails (L : Mapping → Word → Bool → Prop) (b : Board δ) (j : Nat) (vaddr val : Word)
    (m : Machine δ) : Prop where
  off : (m.cpus j).cpuEnabled = false
  bit : val.getLsbD j = true
  lookups : ∀ vaddr, EntryOrder b (m.mycpus j).mapping (m.startEntry j) vaddr →
    L (m.mycpus j).mapping vaddr false
  order : EntryOrder b (m.mycpus j).mapping (m.startEntry j) vaddr
  fault : ∃ e, (m.mycpus j).mapping.translate vaddr false = .error e

section Start

variable {vaddr val : Word}

omit hL in
theorem EntryFails.of_same {m u : Machine δ} (h : EntryFails L b j vaddr val m)
    (hMapping : (u.mycpus j).mapping = (m.mycpus j).mapping) (hCpu : u.cpus j = m.cpus j) :
    EntryFails L b j vaddr val u := by
  have hEntry : u.startEntry j = m.startEntry j := by
    unfold Machine.startEntry
    rw [hCpu]
  constructor
  · rw [hCpu]
    exact h.off
  · exact h.bit
  · rw [hMapping, hEntry]
    exact h.lookups
  · rw [hMapping, hEntry]
    exact h.order
  · rw [hMapping]
    exact h.fault

theorem setCpueCpu_lands {m : Machine δ} (hm : Calm j v m) (hFails : EntryFails L b j vaddr val m) :
    After (setCpueCpu b val j) (fun _ => Calm j (vaddr &&& 0xfffff000)) (fun _ _ => False) m := by
  obtain ⟨e, hFault⟩ := hFails.fault
  unfold setCpueCpu
  rw [after_bind, after_get]
  dsimp only
  rw [hFails.off, hFails.bit]
  simp only [Bool.not_true, Bool.false_eq_true, if_false, Bool.not_false, Bool.and_self, if_true]
  rw [after_bind]
  refine (cpuSetEntrypoint_lands hL hm hFails.lookups hFails.order hFault).mono (fun _ u hu => ?_)
    fun _ _ h => h
  rw [after_launch, Calm]
  have hLaunched := launch_mycpus_self u j (u.mycpus j)
  rw [Machine.setCpu_self] at hLaunched
  rw [hLaunched]
  exact hu

theorem setCpueCpus_lands {l : List Nat} (hl : l.Nodup) (hj : j ∈ l) {m : Machine δ}
    (hm : Calm j v m) (hFails : EntryFails L b j vaddr val m) :
    After (l.forM (setCpueCpu b val)) (fun _ => Calm j (vaddr &&& 0xfffff000))
      (fun _ _ => False) m := by
  induction l generalizing m with
  | nil => cases hj
  | cons k l ih =>
    obtain ⟨hNotMem, hNodup⟩ := List.nodup_cons.mp hl
    rw [List.forM_eq_forM, List.forM_cons, after_bind]
    obtain rfl | hMem := List.mem_cons.mp hj
    · refine (setCpueCpu_lands hL hm hFails).mono (fun _ u hu => ?_) fun _ _ h => h
      refine (setCpueCpus_elsewhere hNotMem u).mono (fun _ w hw => ?_) fun _ _ h => h
      rw [Calm, hw]
      exact hu
    · have hk : j ≠ k := fun h => hNotMem (h ▸ hMem)
      refine (setCpueCpu_elsewhere hk m).mono ?_ fun _ _ h => h
      rintro _ u ⟨hCpu, hRecord⟩
      refine ih hNodup hMem ?_ (hFails.of_same (congrArg Mipscpu.mapping hCpu) hRecord)
      rw [Calm, hCpu]
      exact hm

omit hL in
theorem domemFetch_cpue {w : Bool} {Q : Word → Machine δ → Prop} {E : Stop → Machine δ → Prop}
    (hPaddr : (t.mycpus i).mapping.translate vaddr w = .ok cpueAddr) (hNew : b.isold = false) :
    After (domemFetch b i vaddr w) Q E t ↔
      Q (t.getCpue b) (t.setCpu i ((t.mycpus i).translated vaddr w)) := by
  unfold domemFetch
  rw [after_bind, after_translatemem, hPaddr]
  dsimp only
  rw [after_bind, after_fetchPhys_cpueAddr, hNew]
  exact Iff.rfl

theorem domemStore_lands {at_ : Word} (ht : Calm j v t)
    (hData : i = j → L (t.mycpus i).mapping at_ true)
    (hPaddr : (t.mycpus i).mapping.translate at_ true = .ok cpueAddr) (hNew : b.isold = false)
    (hj : j < b.ncpus) (hFails : EntryFails L b j vaddr val t) :
    After (domemStore b i at_ val) (fun _ => Calm j (vaddr &&& 0xfffff000)) (fun _ _ => False) t := by
  unfold domemStore
  rw [after_bind, after_translatemem, hPaddr]
  dsimp only
  rw [after_bind, after_storePhys_cpueAddr, hNew, if_neg Bool.false_ne_true]
  exact (setCpueCpus_lands hL List.nodup_range (List.mem_range.mpr hj) (ht.looked hL hData hPaddr)
    (hFails.of_same (looked_mapping at_ true t j) rfl)).mono (fun _ _ hu => hu) fun _ _ h => h

/-- The word is read before it is changed, and its address translated twice. -/
theorem storeOp_lands {insn : Word} {ms : Memstyles} (hStyle : storeStyle insn = some ms)
    (ht : Calm j v t)
    (hData : i = j → L (t.mycpus i).mapping (storeAddr ms (needaddr (t.mycpus i) insn)) true)
    (hPaddr : (t.mycpus i).mapping.translate (storeAddr ms (needaddr (t.mycpus i) insn)) true =
      .ok cpueAddr)
    (hNew : b.isold = false) (hj : j < b.ncpus)
    (hFails : EntryFails L b j vaddr (mergeStore ms (needaddr (t.mycpus i) insn)
      ((t.mycpus i).r (rt insn)) (t.getCpue b)) t) :
    After (storeOp b i insn ms) (fun _ => Calm j (vaddr &&& 0xfffff000)) (fun _ _ => False) t := by
  have hWords : ms ≠ .sbyte ∧ ms ≠ .shalf := by
    unfold storeStyle at hStyle
    constructor <;> rintro rfl <;> split at hStyle <;> cases hStyle
  have hMapping := looked_mapping (i := i) (storeAddr ms (needaddr (t.mycpus i) insn)) true t
  rw [storeOp_eq hWords, modifyWord, after_bind, domemFetch_cpue hPaddr hNew]
  refine domemStore_lands hL (ht.looked hL hData hPaddr) (fun hij => ?_) ?_ hNew hj
    (hFails.of_same (hMapping j) rfl)
  · rw [hMapping]
    exact hData hij
  · rw [hMapping]
    exact hPaddr

theorem mxSc_lands {insn : Word} (ht : Calm j v t)
    (hLl : (t.mycpus i).llActive = true ∧ (t.mycpus i).llAddr = needaddr (t.mycpus i) insn ∧
      t.getCpue b = (t.mycpus i).llValue)
    (hData : i = j → L (t.mycpus i).mapping (needaddr (t.mycpus i) insn) true)
    (hPaddr : (t.mycpus i).mapping.translate (needaddr (t.mycpus i) insn) true = .ok cpueAddr)
    (hNew : b.isold = false) (hj : j < b.ncpus)
    (hFails : EntryFails L b j vaddr ((t.mycpus i).r (rt insn)) t) :
    After (mxSc b i insn) (fun _ => Calm j (vaddr &&& 0xfffff000)) (fun _ _ => False) t := by
  have hMapping := looked_mapping (i := i) (needaddr (t.mycpus i) insn) true t
  unfold mxSc
  rw [after_bind, after_getCpu, after_ite, if_neg (by simp [hLl.1, hLl.2.1]), after_bind,
    domemFetch_cpue hPaddr hNew, after_ite, if_neg (by simp [hLl.2.2]), after_bind]
  refine (domemStore_lands hL (ht.looked hL hData hPaddr) (fun hij => ?_) ?_ hNew hj
    (hFails.of_same (hMapping j) rfl)).mono (fun _ u hu => ?_) fun _ _ h => h
  · rw [hMapping]
    exact hData hij
  · rw [hMapping]
    exact hPaddr
  · exact hu.modCpu fun _ => rfl

theorem execute_starts_lands {insn : Word} (ht : Calm j v t)
    (hLookups : i = j → ∀ mp vaddr iswrite, InsnLookup b i insn t mp vaddr iswrite →
      L mp vaddr iswrite)
    (hStart : StartsCpu b i insn t j)
    (hLookup : ∀ vaddr, EntryOrder b (t.mycpus j).mapping (t.startEntry j) vaddr →
      L (t.mycpus j).mapping vaddr false)
    (hOrder : EntryOrder b (t.mycpus j).mapping (t.startEntry j) vaddr) {e : Exn}
    (hFault : (t.mycpus j).mapping.translate vaddr false = .error e) :
    After (execute b i insn) (fun _ => Calm j (vaddr &&& 0xfffff000)) (fun _ _ => False) t := by
  obtain ⟨hNew, hj, hOff, at_, val, hStore, hPaddr, hBit⟩ := hStart
  have hFails : EntryFails L b j vaddr val t := ⟨hOff, hBit, hLookup, hOrder, e, hFault⟩
  have hData : i = j → Accesses insn (t.mycpus i) → L (t.mycpus i).mapping
      (accessAddr insn (needaddr (t.mycpus i) insn)) (accessWrites insn) :=
    fun hij hAccess => hLookups hij _ _ _ (.data hAccess)
  have hStyle : ∀ ms, storeStyle insn = some ms →
      at_ = storeAddr ms (needaddr (t.mycpus i) insn) ∧
        val = mergeStore ms (needaddr (t.mycpus i) insn) ((t.mycpus i).r (rt insn)) (t.getCpue b) := by
    intro ms h
    rw [storeOf_storeStyle h] at hStore
    obtain ⟨rfl, rfl⟩ := Prod.mk.inj (Option.some.inj hStore)
    exact ⟨rfl, rfl⟩
  have hStoreOp : ∀ ms, storeStyle insn = some ms →
      (i = j → L (t.mycpus i).mapping (storeAddr ms (needaddr (t.mycpus i) insn)) true) →
      After (storeOp b i insn ms) (fun _ => Calm j (vaddr &&& 0xfffff000)) (fun _ _ => False) t := by
    intro ms h hIn
    obtain ⟨rfl, rfl⟩ := hStyle ms h
    exact storeOp_lands hL h ht hIn hPaddr hNew hj hFails
  cases hOp : opm insn <;> simp only [storeOf, storeStyle, hOp, Option.map_none, reduceCtorEq,
    Option.some.injEq, Prod.mk.injEq] at hStore <;> simp only [execute, hOp] <;>
    simp only [Accesses, UsesMemory, accessAddr, accessWrites, hOp] at hData
  case sw =>
    obtain ⟨rfl, rfl⟩ := hStore
    unfold mxSw
    rw [after_bind, after_getCpu]
    exact domemStore_lands hL ht (fun hij => hData hij ⟨trivial, trivial⟩) hPaddr hNew hj hFails
  case swc0 =>
    split at hStore
    · rename_i hLl
      obtain ⟨rfl, rfl⟩ := Prod.mk.inj (Option.some.inj hStore)
      exact mxSc_lands hL ht hLl (fun hij => hData hij ⟨trivial, hLl.1, hLl.2.1⟩) hPaddr hNew hj hFails
    · cases hStore
  case sb | sh | swl | swr =>
    exact hStoreOp _ (by simp only [storeStyle, hOp]) fun hij => hData hij ⟨trivial, trivial⟩

end Start

end Sys161.Mips
