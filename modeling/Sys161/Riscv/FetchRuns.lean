import Sys161.Lib.Scripts
import Sys161.Mips.Runs
import Sys161.Riscv.FetchPath

/-!
# The fetch position along a run

A turn leaves every cpu at its `pcoff`, on the page that was looked up for its
pc, but for two kinds of turns: the debugger takes a breakpoint that reaches over
the end of a page, or a cpu writes the bit of `CPUE` that starts it itself.
-/

namespace Sys161.Riscv

open Exec Runs
open Mips (Board Page)

set_option autoImplicit false

variable {δ : Type} (b : Board δ) (i : Nat)

/-- The instruction that a turn has fetched. -/
def Issue.insn : Issue → Option Insn
  | short insn => decode16 insn
  | long insn => some (decode32 insn)
  | tooLong insn => some (.ill insn)
  | idle | fault => none

/-- The instruction has a next one. -/
def Issue.HasNext : Issue → Prop
  | short _ | long _ => True
  | tooLong _ | idle | fault => False

/-- The cpu is still on the page that it was on, at the same instruction or the next one. -/
def Riscvcpu.Onward (c₀ : Riscvcpu) (page : Option Page) (pc : Word) : Prop :=
  page = c₀.pcpage ∧ pc &&& 0xfffff000 = c₀.pc &&& 0xfffff000 ∧
    (pc = c₀.pc ∨ pc = c₀.pc + 2 ∨ pc = c₀.pc + 4)

/-- The page is the one that the page of the pc is translated to. -/
def Riscvcpu.Finds (c : Riscvcpu) (ram : BitVec 30 → Word) (page : Option Page) (pc : Word) : Prop :=
  page ≠ none ∧ ∃ va, va &&& 0xfffff000 = pc &&& 0xfffff000 ∧ c.codePage b ram va = page

/-! ## Going on -/

/-- The next instruction is on the page unless it is at the start of one. -/
theorem next_of_fits {pc len : Word} (hLen : len = 2 ∨ len = 4)
    (hFits : (pc &&& 0xfff).toNat + len.toNat ≤ 4096) (hNext : (pc + len) &&& 0xfff ≠ 0) :
    (pc + len) &&& 0xfff = (pc &&& 0xfff) + len ∧
      (pc + len) &&& 0xfffff000 = pc &&& 0xfffff000 := by
  have hSmall : len.toNat ≤ 4 := by rcases hLen with rfl | rfl <;> decide
  have hpc := pc.isLt
  rw [PageBits.toNat_offset] at hFits
  have hNextNat : (pc.toNat + len.toNat) % 2 ^ 32 % 4096 ≠ 0 := by
    intro h
    apply hNext
    apply BitVec.eq_of_toNat_eq
    rw [PageBits.toNat_offset, BitVec.toNat_add, h]
    rfl
  constructor
  · apply BitVec.eq_of_toNat_eq
    rw [PageBits.toNat_offset, BitVec.toNat_add, BitVec.toNat_add, PageBits.toNat_offset]
    omega
  · apply BitVec.eq_of_toNat_eq
    rw [PageBits.toNat_page, PageBits.toNat_page, BitVec.toNat_add]
    omega

section Issue

variable (m : Machine δ)

/-- What a turn finds before the instruction is executed. -/
structure Issued (is : Issue) (t : Machine δ) : Prop where
  before : BesideBefore b i m t
  sound : (t.mycpus i).Sound
  even : (t.mycpus i).pc &&& 0x1 = 0
  here : (∃ word, is = .long word) ∧ (t.mycpus i).pc &&& 0xfff = 0xffe ∧
      (t.mycpus i).pcoff = 0xfffffffe ∨
    (t.mycpus i).pcoff = (t.mycpus i).pc &&& 0xfff ∧
      ((m.mycpus i).Onward (t.mycpus i).pcpage (t.mycpus i).pc ∨
        (t.mycpus i).Finds b t.ram (t.mycpus i).pcpage (t.mycpus i).pc)
  next : is.HasNext → (t.mycpus i).nextpc &&& 0x1 = 0 ∧
    ((t.mycpus i).nextpc &&& 0xfff ≠ 0 →
      (t.mycpus i).nextpcoff = (t.mycpus i).nextpc &&& 0xfff ∧
        ((m.mycpus i).Onward (t.mycpus i).pcpage (t.mycpus i).nextpc ∨
          (t.mycpus i).Finds b t.ram (t.mycpus i).pcpage (t.mycpus i).nextpc))
  fault : is = .fault → (t.mycpus i).Jumped b t.ram
  busy : is ≠ .idle

/-- Before the fetch. -/
def Ready (t : Machine δ) : Prop :=
  BesideBefore b i m t ∧ (t.mycpus i).Sound ∧ (t.mycpus i).Here ∧
    ((t.mycpus i).pc = (m.mycpus i).pc ∧ (t.mycpus i).pcpage = (m.mycpus i).pcpage ∨
      (t.mycpus i).Looked b t.ram)

variable {b i m}

theorem Ready.found {t : Machine δ} (h : Ready b i m t) :
    (m.mycpus i).Onward (t.mycpus i).pcpage (t.mycpus i).pc ∨
      (t.mycpus i).Finds b t.ram (t.mycpus i).pcpage (t.mycpus i).pc := by
  obtain ⟨-, -, -, ⟨hPc, hPage⟩ | ⟨-, hMapped, hCode⟩⟩ := h
  · exact .inl ⟨hPage, by rw [hPc], .inl hPc⟩
  · exact .inr ⟨hMapped, _, rfl, hCode⟩

/-- An instruction that fits in the page. -/
theorem Ready.setNext {t : Machine δ} (h : Ready b i m t) {len : Word} (hLen : len = 2 ∨ len = 4)
    (hFits : ((t.mycpus i).pc &&& 0xfff).toNat + len.toNat ≤ 4096) {is : Issue}
    (hHas : is.HasNext) : Issued b i m is (t.modCpu i fun c => c.setNext len) := by
  have hFound := h.found
  obtain ⟨hBefore, hSound, ⟨hEven, hOff⟩, hWhere⟩ := h
  have hLenEven : len &&& 0x1 = 0 := by rcases hLen with rfl | rfl <;> rfl
  constructor
  case before => exact apart_before.modCpu hBefore _
  case fault =>
    rintro rfl
    exact hHas.elim
  case busy =>
    rintro rfl
    exact hHas.elim
  all_goals rw [Machine.modCpu_mycpus_self]
  case sound => exact hSound
  case even => exact hEven
  case here => exact .inr ⟨hOff, hFound⟩
  case next =>
    refine fun _ => ⟨even_add hEven hLenEven, fun hNext => ?_⟩
    obtain ⟨hOffset, hPage⟩ := next_of_fits hLen hFits hNext
    constructor
    · change (t.mycpus i).pcoff + len = ((t.mycpus i).pc + len) &&& 0xfff
      rw [hOffset, hOff]
    · rcases hWhere with ⟨hPc, hSame⟩ | ⟨-, hMapped, hCode⟩
      · refine .inl ⟨hSame, ?_, .inr ?_⟩
        · change ((t.mycpus i).pc + len) &&& 0xfffff000 = _
          rw [hPage, hPc]
        · change (t.mycpus i).pc + len = _ ∨ (t.mycpus i).pc + len = _
          rw [hPc]
          rcases hLen with rfl | rfl
          · exact .inl rfl
          · exact .inr rfl
      · exact .inr ⟨hMapped, _, hPage.symm, hCode⟩

theorem after_useMap {page : Option Page} {offset : Word} {Q : Word → Machine δ → Prop}
    {t : Machine δ} (h : ∀ val, Q val t) : After (useMap page offset) Q (fun _ _ => True) t := by
  cases page with
  | none => trivial
  | some page =>
    unfold useMap
    rw [after_ite]
    split
    · trivial
    · exact h _

/-- The offset of an instruction whose second half is on the next page. -/
theorem offset_of_split {pc : Word} (h : (pc &&& 0xfff) + 2 = 0x1000) :
    pc &&& 0xfff = 0xffe ∧ (pc + 2) &&& 0xfff = 0 := by
  have hOffset : pc &&& 0xfff = 0xffe := by
    rw [← add_left_inj 2, h]
    rfl
  refine ⟨hOffset, ?_⟩
  have hNat := congrArg BitVec.toNat hOffset
  rw [PageBits.toNat_offset] at hNat
  change pc.toNat % 4096 = 4094 at hNat
  apply BitVec.eq_of_toNat_eq
  rw [PageBits.toNat_offset, BitVec.toNat_add]
  change (pc.toNat + 2) % 2 ^ 32 % 4096 = 0
  omega

theorem even_sub_two {v : Word} (h : v &&& 0x1 = 0) : (v - 2) &&& 0x1 = 0 := by
  rw [sub_eq_add_neg]
  exact even_add h (by decide)

/-- The second half stands on a page of its own, which has been looked up. -/
theorem issued_split {t : Machine δ} (hBefore : BesideBefore b i m t) (hSound : (t.mycpus i).Sound)
    (hLooked : (t.mycpus i).Looked b t.ram) (hStart : (t.mycpus i).pc &&& 0xfff = 0) (word : Word) :
    Issued b i m (.long word)
      ((t.modCpu i fun c => { c with pc := c.pc - 2, pcoff := c.pcoff - 2 }).modCpu
        i fun c => c.setNext 4) := by
  obtain ⟨⟨hEven, hOff⟩, hMapped, hCode⟩ := hLooked
  rw [hStart] at hOff
  have hPrev : ∀ p : Word, p - 2 + 4 = p + 2 := fun p => by bv_omega
  constructor
  case before => exact apart_before.modCpu (apart_before.modCpu hBefore _) _
  case fault => exact nofun
  case busy => exact nofun
  all_goals rw [Machine.modCpu_mycpus_self, Machine.modCpu_mycpus_self]
  case sound => exact hSound
  case even => exact even_sub_two hEven
  case here =>
    refine .inl ⟨⟨word, rfl⟩, ?_, ?_⟩
    · have hNat := congrArg BitVec.toNat hStart
      rw [PageBits.toNat_offset] at hNat
      change (t.mycpus i).pc.toNat % 4096 = 0 at hNat
      apply BitVec.eq_of_toNat_eq
      change (((t.mycpus i).pc - 2) &&& 0xfff).toNat = 4094
      rw [PageBits.toNat_offset]
      bv_omega
    · change (t.mycpus i).pcoff - 2 = 0xfffffffe
      rw [hOff]
      rfl
  case next =>
    refine fun _ => ⟨?_, fun hNext => ?_⟩
    · change ((t.mycpus i).pc - 2 + 4) &&& 0x1 = 0
      rw [hPrev]
      exact even_add hEven (by decide)
    · change ((t.mycpus i).pc - 2 + 4) &&& 0xfff ≠ 0 at hNext
      rw [hPrev] at hNext
      obtain ⟨hOffset, hPage⟩ := next_of_fits (.inl rfl) (by rw [hStart]; decide) hNext
      rw [hStart] at hOffset
      constructor
      · change (t.mycpus i).pcoff - 2 + 4 = ((t.mycpus i).pc - 2 + 4) &&& 0xfff
        rw [hPrev, hPrev, hOff, hOffset]
      · refine .inr ⟨hMapped, (t.mycpus i).pc, ?_, hCode⟩
        change _ = ((t.mycpus i).pc - 2 + 4) &&& 0xfffff000
        rw [hPrev, hPage]

theorem after_fetchSecond {t : Machine δ} (h : Ready b i m t)
    (hHalf : (t.mycpus i).pcoff &&& 0x2 ≠ 0) :
    After (fetchSecond b i)
      (fun second u => match second with
        | none => Issued b i m .fault u
        | some _ => ∀ word, Issued b i m (.long word) (u.modCpu i fun c => c.setNext 4))
      (fun _ _ => True) t := by
  obtain ⟨hBefore, hSound, ⟨hEven, hOff⟩, -⟩ := id h
  unfold fetchSecond
  rw [after_bind, after_getCpu]
  dsimp only
  rw [after_ite]
  split
  · rename_i hSplit
    rw [hOff] at hSplit
    obtain ⟨-, hStart⟩ := offset_of_split hSplit
    rw [after_bind, after_modCpu, after_bind]
    refine (apart_before.attemptPc (apart_before.modCpu hBefore _) ?_ ?_).mono ?_
      fun _ _ _ => trivial
    · rw [Machine.modCpu_mycpus_self]
      exact hSound
    · rw [Machine.modCpu_mycpus_self]
      exact even_add hEven (by decide)
    · rintro found u ⟨hBefore', hSound', hLooked, hFound⟩
      rw [Machine.modCpu_mycpus_self] at hFound
      cases found with
      | true =>
        have hPc : (u.mycpus i).pc = (t.mycpus i).pc + 2 := hFound.1
        simp only [if_true]
        rw [after_bind, after_getCpu, after_bind]
        refine after_useMap fun _ => ?_
        rw [after_bind, after_modCpu, after_pure]
        exact issued_split hBefore' hSound' hLooked (by rw [hPc, hStart])
      | false =>
        have hJumped : (u.mycpus i).Jumped b u.ram := hFound
        change Issued b i m .fault (u.modCpu i fun c => { c with sepc := c.sepc - 2 })
        constructor
        case before => exact apart_before.modCpu hBefore' _
        case busy => exact nofun
        all_goals rw [Machine.modCpu_mycpus_self]
        case sound =>
          exact ⟨hSound'.1, even_sub_two hSound'.2.1, hSound'.2.2⟩
        case even => exact hJumped.1.1.1
        case here => exact .inr ⟨hJumped.1.1.2, .inr ⟨hJumped.1.2.1, _, rfl, hJumped.1.2.2⟩⟩
        case next => exact False.elim
        case fault => exact fun _ => hJumped
  · rename_i hWhole
    rw [after_bind]
    refine after_useMap fun _ word => h.setNext (.inr rfl) ?_ trivial
    rw [hOff] at hWhole hHalf
    have hOdd : ((t.mycpus i).pc &&& 0xfff).toNat % 2 = 0 := by
      have hNat := congrArg BitVec.toNat hEven
      rw [BitVec.toNat_and] at hNat
      rw [PageBits.toNat_offset]
      have hMod := Nat.and_two_pow_sub_one_eq_mod (t.mycpus i).pc.toNat 1
      change (t.mycpus i).pc.toNat &&& 1 = 0 at hNat
      change (t.mycpus i).pc.toNat &&& 1 = _ % 2 at hMod
      omega
    have hLt : ((t.mycpus i).pc &&& 0xfff).toNat < 4096 := by
      rw [PageBits.toNat_offset]
      exact Nat.mod_lt _ (by decide)
    have hNot : ((t.mycpus i).pc &&& 0xfff).toNat ≠ 4094 := by
      intro hNat
      apply hWhole
      apply BitVec.eq_of_toNat_eq
      rw [BitVec.toNat_add, hNat]
      rfl
    have hHalfNat : ((t.mycpus i).pc &&& 0xfff).toNat ≠ 4092 := by
      intro hNat
      apply hHalf
      rw [BitVec.eq_of_toNat_eq (y := 0xffc) hNat]
      rfl
    change _ + 4 ≤ 4096
    omega

/-- A halfword that is not the last fits in its page. -/
theorem fits_two {pc : Word} (hEven : pc &&& 0x1 = 0) : (pc &&& 0xfff).toNat + 2 ≤ 4096 := by
  have hNat := congrArg BitVec.toNat hEven
  rw [BitVec.toNat_and] at hNat
  rw [PageBits.toNat_offset]
  have hMod := Nat.and_two_pow_sub_one_eq_mod pc.toNat 1
  change pc.toNat &&& 1 = 0 at hNat
  change pc.toNat &&& 1 = _ % 2 at hMod
  omega

/-- An aligned word fits in its page. -/
theorem fits_four {pc : Word} (hEven : pc &&& 0x1 = 0) (hWord : (pc &&& 0xfff) &&& 0x2 = 0) :
    (pc &&& 0xfff).toNat + 4 ≤ 4096 := by
  have hTwo := fits_two hEven
  have hNot : (pc &&& 0xfff).toNat ≠ 4094 := by
    intro hNat
    rw [BitVec.eq_of_toNat_eq (y := 0xffe) hNat] at hWord
    cases hWord
  have hNat := congrArg BitVec.toNat hEven
  rw [BitVec.toNat_and] at hNat
  have hMod := Nat.and_two_pow_sub_one_eq_mod pc.toNat 1
  change pc.toNat &&& 1 = 0 at hNat
  change pc.toNat &&& 1 = _ % 2 at hMod
  rw [PageBits.toNat_offset] at hTwo hNot ⊢
  omega

theorem after_fetch {t : Machine δ} (h : Ready b i m t) :
    After (fetch b i) (fun is u => Issued b i m is u) (fun _ _ => True) t := by
  have hHere : (t.mycpus i).Here := h.2.2.1
  obtain ⟨hEven, hOff⟩ := hHere
  unfold fetch
  rw [after_bind, after_getCpu, after_bind]
  refine after_useMap fun word => ?_
  dsimp only
  generalize (if (t.mycpus i).pcoff &&& 0x2 ≠ 0 then word >>> 16 else word) = insn
  rw [after_ite]
  split
  · rw [after_bind, after_modCpu, after_pure]
    exact h.setNext (.inl rfl) (fits_two hEven) trivial
  · rw [after_ite]
    split
    · exact ⟨h.1, h.2.1, hEven, .inr ⟨hOff, h.found⟩, False.elim, nofun, nofun⟩
    · rw [after_ite]
      split
      · rename_i hHalf
        rw [after_bind]
        refine (after_fetchSecond h hHalf).mono ?_ fun _ _ _ => trivial
        rintro (_ | second) u hu
        · exact hu
        · exact hu _
      · rename_i hWord
        rw [hOff] at hWord
        rw [after_bind, after_modCpu, after_pure]
        exact h.setNext (.inr rfl) (fits_four hEven (not_not.mp hWord)) trivial

theorem besideBefore_refl (hSound : ∀ j, (m.mycpus j).Sound) : BesideBefore b i m m :=
  ⟨rfl, rfl, fun j _ => ⟨hSound j, .inl ⟨rfl, rfl, rfl⟩⟩⟩

theorem after_issue (hSound : ∀ j, (m.mycpus j).Sound) (hHere : (m.mycpus i).Here) :
    After (issue b i)
      (fun is u => is = .idle ∧ u.mycpus = m.mycpus ∧ u.ram = m.ram ∨ Issued b i m is u)
      (fun _ _ => True) m := by
  have hBefore : BesideBefore b i m m := besideBefore_refl hSound
  unfold issue
  rw [after_bind, after_getCpu, after_ite]
  split
  · exact .inl ⟨rfl, rfl, rfl⟩
  · have hReady : After (takeInterrupt b i) (fun _ => Ready b i m) (fun _ _ => True) m := by
      unfold takeInterrupt
      rw [after_bind, after_getCpu]
      cases (m.mycpus i).pendingIrq with
      | none => exact ⟨hBefore, hSound i, hHere, .inl ⟨rfl, rfl⟩⟩
      | some irq =>
        refine (apart_before.trap (.interrupt irq) hBefore (hSound i) hHere.1).mono ?_
          fun _ _ _ => trivial
        rintro ⟨⟩ t ⟨ht, hSound', hJumped, -⟩
        exact ⟨ht, hSound', hJumped.1.1, .inr hJumped.1⟩
    rw [after_bind]
    refine hReady.mono ?_ fun _ _ _ => trivial
    rintro ⟨⟩ t ht
    have hFlags : ∀ u : Machine δ, Ready b i m u → Ready b i m (u.modCpu i fun c =>
        { c with trapped := false, hitBreakpoint := false }) := by
      rintro u ⟨hBefore', hRest⟩
      refine ⟨apart_before.modCpu hBefore' _, ?_⟩
      rw [Machine.modCpu_mycpus_self]
      exact hRest
    have hCount : Ready b i m (t.countStats i (Mips.PercpuStats.cycle !(t.mycpus i).super)) := ht
    unfold countCycle
    rw [after_bind, after_modify, after_bind, after_modCpu]
    exact (after_fetch (hFlags _ hCount)).mono (fun _ _ hu => .inr hu) fun _ _ _ => trivial

end Issue

/-! ## A turn -/

section Turn

variable (m t : Machine δ)

/-- After the instruction. -/
def Executed (is : Issue) (u : Machine δ) : Prop :=
  BesideAfter b i m u ∧ (u.mycpus i).Sound ∧
    ((u.mycpus i).toFetchState = (t.mycpus i).toFetchState ∧ is.HasNext ∨
      (u.mycpus i).Jumped b u.ram ∨
      (t.mycpus i).pcoff = (t.mycpus i).pc &&& 0xfff ∧
        (u.mycpus i).toFetchState = (t.mycpus i).toFetchState.breakpoint)

/-- Where a page is looked up for a pc: it is the one that the cpu was on, or was found before the
instruction was executed, or is found now. -/
def Placed (c : Riscvcpu) (ram : BitVec 30 → Word) (pc : Word) : Prop :=
  (m.mycpus i).Onward c.pcpage pc ∨ (t.mycpus i).Finds b t.ram c.pcpage pc ∨
    c.Finds b ram c.pcpage pc

/-- After the turn. -/
def Arrived (w : Machine δ) : Prop :=
  BesideAfter b i m w ∧ (w.mycpus i).Sound ∧ (w.mycpus i).Here ∧
    Placed b i m t (w.mycpus i) w.ram (w.mycpus i).pc

/-- The debugger does not take a breakpoint that reaches over the end of its page, and no cpu starts
itself. -/
def InsnOk (is : Issue) : Prop :=
  ∀ insn, is.insn = some insn → insn.Writes b i (LeavesSelf b i) t ∧
    (insn = .ebreak → (∃ word, is = .long word) → (t.mycpus i).pc &&& 0xfff = 0xffe →
      t.gdbCanhandle (t.mycpus i).pc = false)

variable {b i m t}

theorem Looked.finds {c : Riscvcpu} {ram : BitVec 30 → Word} (h : c.Looked b ram) :
    c.Finds b ram c.pcpage c.pc := ⟨h.2.1, c.pc, rfl, h.2.2⟩

theorem Trapped.taken {is : Issue} {e : Stop} {u : Machine δ} (h : Trapped b i m e u) :
    taken b i (fun (_ : Bool) => Executed b i m t is) (fun _ _ => True) false e u := by
  cases e with
  | trap tr =>
    obtain ⟨hAfter, hSound, hEven⟩ := h tr rfl
    refine (apart_after.trap tr hAfter hSound hEven).mono ?_ fun _ _ _ => trivial
    rintro ⟨⟩ w ⟨hw, hSound', hJumped, -⟩
    exact ⟨hw, hSound', .inr (.inl hJumped)⟩
  | crashdie | smoke | undefined => trivial

theorem after_execute {is : Issue} (h : Issued b i m is t) (hFault : is ≠ .fault)
    (hOk : InsnOk b i t is) :
    After (execute b i is) (fun _ => Executed b i m t is) (fun _ _ => True) t := by
  have hFetched : Fetched b i m (t.mycpus i).toFetchState t := ⟨h.before, h.sound, rfl⟩
  have hExec : ∀ (insn : Insn) len, is.HasNext → is.insn = some insn → insn.Wellformed →
      After (insn.exec b i len) (fun _ => Executed b i m t is)
        (taken b i (fun (_ : Bool) => Executed b i m t is) (fun _ _ => True) false) t := by
    intro insn len hHas hInsn hWell
    obtain ⟨hWrites, hBreak⟩ := hOk insn hInsn
    have hRules : Rules b i (LeavesSelf b i) insn (Fetched b i m (t.mycpus i).toFetchState)
        (Moved b i m (t.mycpus i).toFetchState) (Trapped b i m) := by
      refine rules_fetched h.even fun hEbreak hHandle => ?_
      rcases h.here with ⟨hLong, hOffset, -⟩ | ⟨hHere, -⟩
      · have hNot := hBreak hEbreak hLong hOffset
        rw [Machine.gdbCanhandle, h.before.2.1] at hNot
        exact absurd (hNot.symm.trans hHandle) (by decide)
      · exact hHere
    refine (hRules.exec hWell hFetched hWrites).mono ?_ fun e u he => he.taken
    rintro stopped u ⟨hAfter, hSound, hSame | hRest⟩
    · exact ⟨hAfter, hSound, .inl ⟨hSame, hHas⟩⟩
    · exact ⟨hAfter, hSound, .inr hRest⟩
  unfold execute
  rw [after_trapping]
  cases is with
  | idle => exact absurd rfl h.busy
  | fault => exact absurd rfl hFault
  | short word =>
    dsimp only
    unfold insn16
    cases hInsn : decode16 word with
    | none => trivial
    | some insn => exact hExec insn 2 trivial hInsn (decode16_wellformed hInsn)
  | long word => exact hExec (decode32 word) 4 trivial rfl (decode32_wellformed word)
  | tooLong word =>
    have hTrapped : Trapped b i m (.trap (.exception .illinst word)) t :=
      hFetched.2.trapped h.even hFetched.after
    exact hTrapped.taken

theorem Executed.next {is : Issue} (h : Issued b i m is t) {u : Machine δ}
    (hu : Executed b i m t is u) :
    (u.mycpus i).nextpc &&& 0x1 = 0 ∧ ((u.mycpus i).nextpc &&& 0xfff ≠ 0 →
      (u.mycpus i).nextpcoff = (u.mycpus i).nextpc &&& 0xfff ∧
        Placed b i m t (u.mycpus i) u.ram (u.mycpus i).nextpc) := by
  have hPart : ∀ {β : Type} (g : FetchState → β) {f : FetchState},
      (u.mycpus i).toFetchState = f → g (u.mycpus i).toFetchState = g f := fun g _ hf => congrArg g hf
  obtain ⟨-, -, ⟨hSame, hHas⟩ | ⟨hLooked, hNext, hOff⟩ | ⟨hHere, hBroke⟩⟩ := hu
  · obtain ⟨hEven, hRest⟩ := h.next hHas
    unfold Placed
    rw [hPart FetchState.nextpc hSame, hPart FetchState.nextpcoff hSame,
      hPart FetchState.pcpage hSame]
    refine ⟨hEven, fun hOffset => ⟨(hRest hOffset).1, ?_⟩⟩
    exact (hRest hOffset).2.imp_right .inl
  · rw [hNext, hOff]
    exact ⟨hLooked.1.1, fun _ => ⟨hLooked.1.2, .inr (.inr (Looked.finds hLooked))⟩⟩
  · unfold Placed
    rw [hPart FetchState.nextpc hBroke, hPart FetchState.nextpcoff hBroke,
      hPart FetchState.pcpage hBroke]
    refine ⟨h.even, fun _ => ⟨hHere, ?_⟩⟩
    rcases h.here with ⟨-, hOffset, hNegative⟩ | ⟨-, hFound⟩
    · rw [hOffset, hNegative] at hHere
      exact absurd hHere (by decide)
    · exact hFound.imp_right .inl

theorem after_updatePc {is : Issue} (h : Issued b i m is t) {u : Machine δ}
    (hu : Executed b i m t is u) :
    After (updatePc b i) (fun _ => Arrived b i m t) (fun _ _ => True) u := by
  obtain ⟨hEven, hNext⟩ := hu.next h
  unfold updatePc
  rw [after_bind, after_modCpu, after_bind, after_getCpu, after_ite, Machine.modCpu_mycpus_self]
  split
  · refine (apart_after.attemptPc (apart_after.modCpu hu.1 _) ?_ ?_).mono ?_ fun _ _ _ => trivial
    · rw [Machine.modCpu_mycpus_self]
      exact hu.2.1
    · rw [Machine.modCpu_mycpus_self]
      exact hEven
    · rintro found w ⟨hw, hSound, hLooked, -⟩
      exact ⟨hw, hSound, hLooked.1, .inr (.inr (Looked.finds hLooked))⟩
  · rename_i hOffset
    obtain ⟨hOff, hPlaced⟩ := hNext hOffset
    rw [after_bind, after_modCpu, after_pure]
    refine ⟨apart_after.modCpu (apart_after.modCpu hu.1 _) _, ?_⟩
    rw [Machine.modCpu_mycpus_self, Machine.modCpu_mycpus_self]
    exact ⟨hu.2.1, ⟨hEven, hOff⟩, hPlaced⟩

theorem Arrived.still {w : Machine δ} {f : Riscvcpu → Riscvcpu}
    (hf : ∀ c : Riscvcpu, (f c).still = c.still) (h : Arrived b i m t w) :
    Arrived b i m t (w.modCpu i f) := by
  refine ⟨apart_after.modCpu h.1 f, ?_⟩
  rw [Machine.modCpu_mycpus_self]
  exact (Riscvcpu.still_congr (hf _) (fun c => c.Sound ∧ c.Here ∧ Placed b i m t c w.ram c.pc)
    fun _ => rfl).mpr h.2

theorem after_complete {is : Issue} (h : Issued b i m is t) (hFault : is ≠ .fault)
    (hOk : InsnOk b i t is) :
    After (complete b i is) (fun _ => Arrived b i m t) (fun _ _ => True) t := by
  unfold complete
  rw [after_bind, after_getCpu, after_bind]
  refine (after_execute h hFault hOk).mono ?_ fun _ _ _ => trivial
  intro stopped u hu
  rw [after_bind]
  refine (after_updatePc h hu).mono ?_ fun _ _ _ => trivial
  intro found w hw
  cases found with
  | false => exact hw
  | true =>
    have hTick : Arrived b i m t (w.modCpu i Riscvcpu.tick) := hw.still fun _ => rfl
    simp only [if_true]
    rw [after_bind, after_modCpu, after_bind]
    unfold retire
    rw [after_bind, after_getCpu, after_ite]
    split <;> exact hTick

end Turn

/-! ## Runs -/

section Runs

variable (m : Machine δ)

/-- The turn executes no instruction that moves a cpu under its own feet. -/
def TurnOk : Prop := ∀ is t, (issue b i).run m = .ok is t → InsnOk b i t is

def Act.Ok (a : Act δ) : Prop :=
  match a with
  | .turn i => TurnOk b i m
  | _ => True

/-- A moment of a step at which a cpu can be looked up: its end, the end of the fetch, or the end
but for what has been stored. -/
inductive Moment (a : Act δ) (m' : Machine δ) : Machine δ → Prop where
  | end : Moment a m' m'
  | issue {i : Nat} {is : Issue} {t : Machine δ} :
    a = .turn i → (issue b i).run m = .ok is t → Moment a m' t
  | store : Moment a m' { m' with ram := m.ram }

/-- The step does not look the cpu up; it is at most at the next instruction of the page. -/
def Sequential (j : Nat) (m : Machine δ) (_ : Act δ) (m' : Machine δ) : Prop :=
  (m.mycpus j).Onward (m'.mycpus j).pcpage (m'.mycpus j).pc

/-- The cpu is on the page that its pc has been translated to in the step. -/
def Translated (j : Nat) (a : Act δ) (m' : Machine δ) : Prop :=
  ∃ t, Moment b m a m' t ∧
    (t.mycpus j).Finds b t.ram (m'.mycpus j).pcpage (m'.mycpus j).pc

variable {b i m}

theorem sequential_of_same {j : Nat} {a : Act δ} {m' : Machine δ}
    (hPc : (m'.mycpus j).pc = (m.mycpus j).pc) (hPage : (m'.mycpus j).pcpage = (m.mycpus j).pcpage) :
    Sequential j m a m' := ⟨hPage, by rw [hPc], .inl hPc⟩

theorem translated_of_looked {j : Nat} {a : Act δ} {m' : Machine δ}
    (h : (m'.mycpus j).Looked b m'.ram) : Translated b m j a m' :=
  ⟨m', .end, Looked.finds h⟩

/-- What a step preserves, and where the page of the pc comes from. -/
def Kept (b : Board δ) (m : Machine δ) (a : Act δ) (m' : Machine δ) : Prop :=
  ∀ j, (m'.mycpus j).Sound ∧ (m'.mycpus j).Here ∧
    (Sequential j m a m' ∨ Translated b m j a m')

theorem kept_of_still (h : ∀ j, (m.mycpus j).Sound ∧ (m.mycpus j).Here) (a : Act δ)
    {m' : Machine δ} (hm : ∀ j, (m'.mycpus j).still = (m.mycpus j).still) : Kept b m a m' := by
  intro j
  have hKept := (Riscvcpu.still_congr (hm j) (fun c => c.Sound ∧ c.Here) fun _ => rfl).mpr (h j)
  refine ⟨hKept.1, hKept.2, .inl (sequential_of_same ?_ ?_)⟩
  · exact Riscvcpu.still_congr (hm j) (fun c => c.pc) fun _ => rfl
  · exact Riscvcpu.still_congr (hm j) (fun c => c.pcpage) fun _ => rfl

theorem kept_of_arrived (h : ∀ j, (m.mycpus j).Sound ∧ (m.mycpus j).Here) {t m' : Machine δ}
    {is : Issue} (hIssue : (issue b i).run m = .ok is t) (hArrived : Arrived b i m t m') :
    Kept b m (.turn i) m' := by
  obtain ⟨hBeside, hSound, hHere, hPlaced⟩ := hArrived
  intro j
  by_cases hj : j = i
  · subst hj
    refine ⟨hSound, hHere, ?_⟩
    rcases hPlaced with hOnward | hIssued | hNow
    · exact .inl hOnward
    · exact .inr ⟨t, .issue rfl hIssue, hIssued⟩
    · exact .inr ⟨m', .end, hNow⟩
  · obtain ⟨hSound', ⟨hPc, hOff, hPage⟩ | ⟨ram, hRam, hLooked⟩⟩ := hBeside j hj
    · refine ⟨hSound', ⟨?_, ?_⟩, .inl (sequential_of_same hPc hPage)⟩
      · rw [hPc]
        exact (h j).2.1
      · rw [hOff, hPc]
        exact (h j).2.2
    · refine ⟨hSound', hLooked.1, ?_⟩
      rcases hRam with rfl | rfl
      · exact .inr ⟨_, .store, Looked.finds hLooked⟩
      · exact .inr (translated_of_looked hLooked)

theorem after_cpuTurn (h : ∀ j, (m.mycpus j).Sound ∧ (m.mycpus j).Here) (hOk : TurnOk b i m) :
    After (cpuTurn b i) (fun _ m' => Kept b m (.turn i) m') (fun _ _ => True) m := by
  unfold cpuTurn
  rw [after_bind]
  refine (after_run (after_issue (fun j => (h j).1) (h i).2)).mono ?_ fun _ _ _ => trivial
  rintro is t ⟨⟨rfl, hSame, hRam⟩ | hIssued, hRun⟩
  · exact kept_of_still h _ fun j => by rw [hSame]
  · have hComplete : is ≠ .fault → After (complete b i is) (fun _ m' => Kept b m (.turn i) m')
        (fun _ _ => True) t := by
      intro hFault
      refine (after_complete hIssued hFault (hOk is t hRun)).mono ?_ fun _ _ _ => trivial
      exact fun _ m' hm' => kept_of_arrived h hRun hm'
    cases is with
    | idle => exact absurd rfl hIssued.busy
    | fault =>
      have hJumped := hIssued.fault rfl
      refine kept_of_arrived h hRun ⟨hIssued.before.between.after, hIssued.sound, hJumped.1.1, ?_⟩
      exact .inr (.inr (Looked.finds hJumped.1))
    | short word => exact hComplete nofun
    | long word => exact hComplete nofun
    | tooLong word => exact hComplete nofun

theorem kept_of_step (h : ∀ j, (m.mycpus j).Sound ∧ (m.mycpus j).Here) {a : Act δ}
    {m' : Machine δ} (hOk : a.Ok b m) (hStep : Step b m a m') : Kept b m a m' := by
  have hBused : ∀ t, Bused m t → Kept b m a t := fun t ht => kept_of_still h a fun j =>
    ht.congr Riscvcpu.still (fun _ => rfl) j
  obtain ⟨-, hRun⟩ := hStep
  cases a with
  | turn i =>
    have hTurn : After (Act.exec b (.turn i)) (fun _ m' => Kept b m (.turn i) m')
        (fun _ _ => True) m := by
      simp only [Act.exec]
      rw [after_bind]
      exact (after_cpuTurn h hOk).mono (fun _ _ ht => ht) fun _ _ _ => trivial
    have hKept := after_of_run_ok hTurn hRun
    exact hKept
  | raiseIrq slot =>
    cases hRun
    exact hBused _ (Bused.deviceIrq b m slot true)
  | lowerIrq slot =>
    cases hRun
    exact hBused _ (Bused.deviceIrq b m slot false)
  | devices d =>
    cases hRun
    exact kept_of_still h _ fun _ => rfl
  | poke index val =>
    cases hRun
    exact kept_of_still h _ fun _ => rfl
  | debugger cycling stopped lethal gdbReady =>
    cases hRun
    exact kept_of_still h _ fun _ => rfl
  | setStack i stackaddr argument =>
    cases hRun
    refine kept_of_still h _ fun j => ?_
    change ((m.modCpu i _).mycpus j).still = _
    rw [mycpus_modCpu]
    split
    · rename_i hj
      rw [hj]
      rfl
    · rfl
  | setEntrypoint i addr =>
    have hBefore : BesideBefore b i m m := besideBefore_refl fun j => (h j).1
    have hApart : Apart i (BesideBefore b i m) := apart_before
    obtain ⟨hBefore', hSound, hLooked⟩ :=
      after_of_run_ok (hApart.cpuSetEntrypoint (b := b) addr hBefore (h i).1) hRun
    intro j
    by_cases hj : j = i
    · subst hj
      exact ⟨hSound, hLooked.1, .inr (translated_of_looked hLooked)⟩
    · obtain ⟨hSound', ⟨hPc, hOff, hPage⟩ | ⟨ram, hFalse, -⟩⟩ := hBefore'.2.2 j hj
      · refine ⟨hSound', ⟨?_, ?_⟩, .inl (sequential_of_same hPc hPage)⟩
        · rw [hPc]
          exact (h j).2.1
        · rw [hOff, hPc]
          exact (h j).2.2
      · exact hFalse.elim

/-- The page of a cpu's pc was looked up at the start of a run or in one of its steps, and since
then the cpu has only gone on within the page. -/
def Since (b : Board δ) (j : Nat) (m₀ : Machine δ) (p : List (Act δ × Machine δ)) : Prop :=
  (m₀.mycpus j).Looked b m₀.ram ∧ AllSteps (Sequential j) m₀ p ∨
    ∃ q m₁ a m₂ r, p = q ++ (a, m₂) :: r ∧ Path (Step b) m₀ q m₁ ∧ Translated b m₁ j a m₂ ∧
      AllSteps (Sequential j) m₂ r

theorem Since.concat {j : Nat} {m₀ m' : Machine δ} {p : List (Act δ × Machine δ)} {a : Act δ}
    (hp : Path (Step b) m₀ p m) (h : Since b j m₀ p)
    (hLast : Sequential j m a m' ∨ Translated b m j a m') : Since b j m₀ (p ++ [(a, m')]) := by
  rcases hLast with hSequential | hTranslated
  · rcases h with ⟨hStart, hAll⟩ | ⟨q, m₁, a₁, m₂, r, rfl, hq, hFound, hAll⟩
    · exact .inl ⟨hStart, hp.allSteps_concat hAll hSequential⟩
    · obtain ⟨t, hq', hRest⟩ := hp.split
      cases hRest with
      | cons _ hr =>
        refine .inr ⟨q, m₁, a₁, m₂, r ++ [(a, m')], by simp, hq, hFound, ?_⟩
        exact hr.allSteps_concat hAll hSequential
  · exact .inr ⟨p, m, a, m', [], rfl, hp, hTranslated, trivial⟩

theorem looked_machineInit (devices : δ) (gdbReady : Bool) (j : Nat) :
    ((machineInit devices gdbReady).mycpus j).Sound ∧
      ((machineInit devices gdbReady).mycpus j).Looked b (machineInit devices gdbReady).ram := by
  have hStvec : paddrRombase &&& 0x3 = 0 := by decide
  have hCache : (0 : Word) &&& 0xfff = 0 := by decide
  have hPc : (paddrRombase + 0x100) &&& 0x1 = 0 := by decide
  have hOff : 0x100 = (paddrRombase + 0x100) &&& 0xfff := by decide
  have hPage : mapmem b (paddrRombase + 0x100) = some (.rom 0) := by
    unfold mapmem
    dsimp only
    rw [if_neg (by decide), if_neg (by decide), if_pos (by decide)]
    decide
  exact ⟨⟨hStvec, (by decide : (0 : Word) &&& 0x1 = 0), hCache⟩, ⟨hPc, hOff⟩, nofun, hPage⟩

/-- The invariant of a run. -/
theorem position_of_path {devices : δ} {gdbReady : Bool} {p : List (Act δ × Machine δ)}
    (hp : Path (Step b) (machineInit devices gdbReady) p m) :
    AllSteps (fun m a _ => a.Ok b m) (machineInit devices gdbReady) p →
      ∀ j, (m.mycpus j).Sound ∧ (m.mycpus j).Here ∧ Since b j (machineInit devices gdbReady) p := by
  refine Path.invariant_history (P := fun p m =>
    AllSteps (fun m a _ => a.Ok b m) (machineInit devices gdbReady) p →
      ∀ j, (m.mycpus j).Sound ∧ (m.mycpus j).Here ∧ Since b j (machineInit devices gdbReady) p)
    ?_ ?_ hp
  · intro _ j
    obtain ⟨hSound, hLooked⟩ := looked_machineInit devices gdbReady j
    exact ⟨hSound, hLooked.1, .inl ⟨hLooked, trivial⟩⟩
  · intro q t a t' hq hBefore hStep hAll j
    obtain ⟨hAll', hOk, -⟩ := (Path.allSteps_append_iff hq).mp hAll
    have hKept := kept_of_step (fun k => ⟨(hBefore hAll' k).1, (hBefore hAll' k).2.1⟩) hOk hStep
    obtain ⟨hSound, hHere, hLast⟩ := hKept j
    exact ⟨hSound, hHere, (hBefore hAll' j).2.2.concat hq hLast⟩

/-- Unless the debugger takes a breakpoint that reaches over the end of its page, or a cpu starts
itself, every cpu is at its `pcoff`, on the page that was looked up for its pc. -/
theorem fetch_position {devices : δ} {gdbReady : Bool} {p : List (Act δ × Machine δ)}
    (hp : Path (Step b) (machineInit devices gdbReady) p m)
    (hOk : AllSteps (fun m a _ => a.Ok b m) (machineInit devices gdbReady) p) (j : Nat) :
    (m.mycpus j).pcoff &&& 0x1 = 0 ∧ (m.mycpus j).pcoff < 0x1000 ∧
      (m.mycpus j).pcoff &&& 0xfff = (m.mycpus j).pc &&& 0xfff ∧
      Since b j (machineInit devices gdbReady) p := by
  obtain ⟨-, ⟨hEven, hOff⟩, hSince⟩ := position_of_path hp hOk j
  rw [hOff]
  refine ⟨?_, ?_, ?_, hSince⟩
  · rw [BitVec.and_comm, ← BitVec.and_assoc, BitVec.and_comm 0x1, hEven]
    rfl
  · rw [BitVec.lt_def, PageBits.toNat_offset]
    exact Nat.mod_lt _ (by decide)
  · rw [BitVec.and_assoc]
    simp

end Runs

/-- One cpu, two pages of memory and no devices but the controller. -/
def bareBoard : Board Unit :=
  { Mips.bareBoard with
    busRamsize := 0x2000
    ramsize_ne := by decide
    ramsize_page := by decide
    ramsize_le := by decide }

/-- `addi t0, x0, 7`, of which the second half is on the next page, `addi t1, t0, 1`, and `jal` back to
the first of them. -/
def loopOverPage : List (Act Unit) :=
  [.poke 0x3ff 0x02930000, .poke 0x400 0x83130070, .poke 0x401 0xf0ef0012, .poke 0x402 0xff9f,
    .setEntrypoint 0 0xc0000ffe] ++ List.replicate 4 (.turn 0)

def loopIssues : List Issue := [.long 0x00700293, .long 0x00128313, .long 0xff9ff0ef]

theorem insnOk_of_mem {δ : Type} {b : Board δ} {i : Nat} {t : Machine δ} {is : Issue}
    (h : is ∈ loopIssues) : InsnOk b i t is := by
  intro insn hInsn
  have hDecode : ∀ is ∈ loopIssues, is.insn = some (.alui .addi 5 0 7) ∨
      is.insn = some (.alui .addi 6 5 1) ∨ is.insn = some (.jal 1 0xfffffff8) := by decide
  replace hDecode := hDecode is h
  rw [hInsn] at hDecode
  obtain h | h | h := hDecode <;> obtain rfl := Option.some.inj h <;> exact ⟨trivial, nofun⟩

open Scripts in
theorem fetch_position_looped : ∃ p m, Path (Step bareBoard) (machineInit () true) p m ∧
    p.map Prod.fst = loopOverPage ∧
    ((m.mycpus 0).pc, (m.mycpus 0).x 1, (m.mycpus 0).x 6) = (0xc0001002, 0xc000100a, 8) ∧
    (m.mycpus 0).pcoff &&& 0x1 = 0 ∧ (m.mycpus 0).pcoff < 0x1000 := by
  have hSeen : seenBy (fun m a => (issued bareBoard m a).all fun x => decide (x.2.1 ∈ loopIssues))
      (Act.exec bareBoard) (fun m => ((m.mycpus 0).pc, (m.mycpus 0).x 1, (m.mycpus 0).x 6))
      loopOverPage (machineInit () true) = some (0xc0001002, 0xc000100a, 8) := by decide +kernel
  have hValid : ∀ a ∈ loopOverPage, a.Valid bareBoard := by
    simp [loopOverPage, Act.Valid, bareBoard, Mips.bareBoard]
  obtain ⟨p, m, hPath, hActs, hLook, hChecked⟩ := path_of_seenBy _ hSeen hValid
  have hOk : AllSteps (fun m a _ => a.Ok bareBoard m) (machineInit () true) p := by
    refine hChecked.mono fun m a _ h => ?_
    cases a with
    | turn i =>
      intro is t hIssue
      rw [issued_of_run hIssue] at h
      exact insnOk_of_mem (of_decide_eq_true h)
    | _ => trivial
  obtain ⟨hEven, hBelow, -⟩ := fetch_position hPath hOk 0
  exact ⟨p, m, hPath, hActs, hLook, hEven, hBelow⟩

/-- A breakpoint of four bytes at the end of the first page. -/
def breakOverPage : List (Act Unit) :=
  [.poke 0x3ff 0x00730000, .poke 0x400 0x00000010, .setEntrypoint 0 0xc0000ffe, .turn 0]

open Scripts in
theorem fetch_position_past_page :
    ¬ ∀ p m, Path (Step bareBoard) (machineInit () true) p m →
      (m.mycpus 0).state = .running → (m.mycpus 0).pcoff < 0x1000 := by
  intro h
  have hSeen : yields (runAll (Act.exec bareBoard) breakOverPage)
      (fun _ m => ((m.mycpus 0).state, (m.mycpus 0).pcoff)) (machineInit () true) =
      some (.running, 0xfffffffe) := by decide +kernel
  have hValid : ∀ a ∈ breakOverPage, a.Valid bareBoard := by
    simp [breakOverPage, Act.Valid, bareBoard, Mips.bareBoard]
  obtain ⟨p, m, hPath, -, hLook⟩ := path_of_seen hSeen hValid
  obtain ⟨hState, hOff⟩ := Prod.mk.inj hLook
  have hBelow := h p m hPath hState
  rw [hOff] at hBelow
  exact absurd hBelow (by decide)

end Sys161.Riscv
