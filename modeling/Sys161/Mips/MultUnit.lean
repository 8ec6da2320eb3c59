import Sys161.Mips.MulDiv
import Sys161.Mips.Untimed

/-!
# The multiply unit and its counters

The instructions of the unit, where they do not have to wait for it, see no more
of the time than the others do, and no other instruction touches the counters.
-/

namespace Sys161.Mips

open Exec

set_option autoImplicit false

variable {δ : Type} {b : Board δ} (i : Nat)

/-! ## The multiply unit -/

/-- What an instruction of the multiply unit does to the cpu. -/
structure UnitOp (f : Mipscpu → Mipscpu) : Prop where
  untimed : ∀ c, (f c.untimed).untimed = (f c).untimed
  fetchState : ∀ c, (f c).toFetchState = c.toFetchState
  hiwait : ∀ c, c.hiwait ≤ 2 → (f c).hiwait ≤ 2
  lowait : ∀ c, c.lowait ≤ 2 → (f c).lowait ≤ 2

theorem unitOp_setHilo (insn : Word) (f : Word → Word → Word × Word) : UnitOp fun c =>
    { c with
      hi := (f (c.r (rs insn)) (c.r (rt insn))).1
      lo := (f (c.r (rs insn)) (c.r (rt insn))).2
      hiwait := 2
      lowait := 2 } :=
  ⟨fun _ => rfl, fun _ => rfl, fun _ _ => Nat.le_refl 2, fun _ _ => Nat.le_refl 2⟩

/-- An instruction that does not have to wait comes to its end, or else the host traps, which
depends on the general registers only. -/
def RunsUnit (b : Board δ) (insn : Word) : Prop :=
  ∃ f, UnitOp f ∧ ∃ traps : (Reg → Word) → Prop, ∀ m : Machine δ,
    stalls insn (m.mycpus i) = false →
      (traps (m.mycpus i).r ∧
        (execute b i insn).run m = .error (.undefined "division overflow") m) ∨
      (¬traps (m.mycpus i).r ∧ (execute b i insn).run m = .ok () (m.modCpu i f))

theorem runsUnit_of_stallOr {insn : Word} {wait : Mipscpu → Bool} {f : Mipscpu → Mipscpu}
    (hf : UnitOp f) (hExecute : execute b i insn = stallOr b i wait (modCpu i f))
    (hStalls : ∀ c, stalls insn c = wait c) : RunsUnit i b insn := by
  refine ⟨f, hf, fun _ => False, fun m hReady => .inr ⟨id, ?_⟩⟩
  have hRun : (stallOr b i wait (modCpu i f)).run m =
      (if wait (m.mycpus i) = true then phonyException b i else modCpu i f).run m := rfl
  rw [hExecute, hRun, ← hStalls, hReady]
  rfl

theorem runsUnit_of_setHilo {insn : Word} {f : Word → Word → Word × Word}
    (hExecute : execute b i insn = setHilo b i insn f) (hStalls : ∀ c, stalls insn c = whilo c) :
    RunsUnit i b insn :=
  runsUnit_of_stallOr i (unitOp_setHilo insn f) hExecute hStalls

theorem runsUnit_div {insn : Word} (hOp : opm insn = .special) (hFunct : ops insn = .div) :
    RunsUnit i b insn := by
  refine ⟨_, unitOp_setHilo insn fun x y => Muldiv.div.eval x y,
    fun r => r (rs insn) = 0x80000000 ∧ r (rt insn) = 0xffffffff, fun m hStalls => ?_⟩
  have hReady : whilo (m.mycpus i) = false := by simpa only [stalls, hOp, hFunct] using hStalls
  simp only [execute, hOp, executeSpecial, hFunct, run_mxDiv, hReady, true_and]
  by_cases hTraps : (m.mycpus i).r (rs insn) = 0x80000000 ∧ (m.mycpus i).r (rt insn) = 0xffffffff
  · rw [if_pos hTraps]
    exact .inl ⟨hTraps, rfl⟩
  · rw [if_neg hTraps]
    exact .inr ⟨hTraps, run_setHilo b i insn _ hReady⟩

theorem runsUnit_of_usesUnit {insn : Word} (h : UsesUnit insn) : RunsUnit i b insn := by
  unfold UsesUnit at h
  split at h
  case h_1 hOp hFunct =>
    exact runsUnit_of_stallOr i
      (f := fun c => { c with r := Function.update c.r (rd insn) c.hi, hiwait := 2 })
      ⟨fun _ => rfl, fun _ => rfl, fun _ _ => Nat.le_refl 2, fun _ h => h⟩
      (by simp only [execute, hOp, executeSpecial, hFunct]; rfl)
      fun c => by simp only [stalls, hOp, hFunct]
  case h_2 hOp hFunct =>
    exact runsUnit_of_stallOr i (f := fun c => { c with hi := c.r (rs insn), hiwait := 2 })
      ⟨fun _ => rfl, fun _ => rfl, fun _ _ => Nat.le_refl 2, fun _ h => h⟩
      (by simp only [execute, hOp, executeSpecial, hFunct]; rfl)
      fun c => by simp only [stalls, hOp, hFunct]
  case h_3 hOp hFunct =>
    exact runsUnit_of_stallOr i
      (f := fun c => { c with r := Function.update c.r (rd insn) c.lo, lowait := 2 })
      ⟨fun _ => rfl, fun _ => rfl, fun _ h => h, fun _ _ => Nat.le_refl 2⟩
      (by simp only [execute, hOp, executeSpecial, hFunct]; rfl)
      fun c => by simp only [stalls, hOp, hFunct]
  case h_4 hOp hFunct =>
    exact runsUnit_of_stallOr i (f := fun c => { c with lo := c.r (rs insn), lowait := 2 })
      ⟨fun _ => rfl, fun _ => rfl, fun _ h => h, fun _ _ => Nat.le_refl 2⟩
      (by simp only [execute, hOp, executeSpecial, hFunct]; rfl)
      fun c => by simp only [stalls, hOp, hFunct]
  case h_7 hOp hFunct => exact runsUnit_div i hOp hFunct
  case h_9 => exact h.elim
  case h_5 hOp hFunct | h_6 hOp hFunct | h_8 hOp hFunct =>
    exact runsUnit_of_setHilo i (by simp only [execute, hOp, executeSpecial, hFunct]; rfl)
      fun c => by simp only [stalls, hOp, hFunct]

/-! ## Other instructions -/

def WaitsAt (w : Nat × Nat) (m : Machine δ) : Prop := ∀ j, j = i → (m.mycpus j).waits = w

theorem busBlind_waitsAt (w : Nat × Nat) : BusBlind b (WaitsAt (δ := δ) i w) :=
  CpuBlind.busBlind (P := fun j c => j = i → c.waits = w) fun _ =>
    { fetchState := fun _ _ h => h
      exception := fun _ _ h => h
      vpn := fun _ _ h => h
      hitBreakpoint := fun _ _ h => h
      exCount := fun _ _ h => h
      irqLines := fun _ _ h => h
      state := fun _ _ h => h
      startReg := fun _ _ _ _ h => h }

theorem WaitsAt.modCpu {w : Nat × Nat} {m : Machine δ} (hm : WaitsAt i w m) {f : Mipscpu → Mipscpu}
    (hf : ∀ c, (f c).waits = c.waits) : WaitsAt i w (m.modCpu i f) :=
  forall_modCpu (P := fun j c => j = i → c.waits = w) i hm fun _ => (hf _).trans (hm i rfl)

/-- The system coprocessor leaves the multiply unit alone. -/
theorem mxCopz_waitsAt (insn : Word) (w : Nat × Nat) :
    Keeps (WaitsAt i w) (fun _ => WaitsAt i w) (mxCopz b i insn) := by
  have hBlind := busBlind_waitsAt (δ := δ) (b := b) i w
  have hRaise : ∀ {α : Type} (e : Exn),
      Keeps (WaitsAt i w) (fun _ => WaitsAt i w) (raise b i e : M δ α) := fun e =>
    FetchBlind.keeps_of_posted (hBlind.keeps_raise i e)
  have hMod : ∀ {f : Mipscpu → Mipscpu}, (∀ c, (f c).waits = c.waits) →
      Keeps (WaitsAt i w) (fun _ => WaitsAt i w) (modCpu i f : M δ Unit) := fun hf _ hm =>
    hm.modCpu i hf
  have hWrite : ∀ ix, Keeps (WaitsAt i w) (fun _ => WaitsAt i w) (writetlb b i ix) :=
    hBlind.execBlind.writetlb i fun _ _ hm => hm.modCpu i fun _ => rfl
  have hMf : Keeps (WaitsAt i w) (fun _ => WaitsAt i w) (mxMf b i insn) := by
    refine Keeps.bind (keeps_getCpu i fun c => Keeps.ite (fun _ => hRaise _) fun _ => ?_) fun _ =>
      hMod fun _ => rfl
    split
    · exact Keeps.bind (hMod fun _ => rfl) fun _ => Keeps.pure _
    · split
      · exact Keeps.pure _
      · exact hRaise _
    · exact hRaise _
  have hMt : Keeps (WaitsAt i w) (fun _ => WaitsAt i w) (mxMt b i insn) := by
    refine keeps_getCpu i fun _ => keeps_getCpu i fun c => Keeps.ite (fun _ => hRaise _) fun _ => ?_
    have hMove : ∀ c0 : C0, ∀ c : Mipscpu, ∀ greg, (c.mtc0 greg c0).waits = c.waits := by
      intro c0 c greg
      cases c0 <;> rfl
    split
    · exact Keeps.ite (fun _ => Keeps.bind (hBlind.hang _) fun _ => hMod fun c => hMove _ c _)
        fun _ => hMod fun c => hMove _ c _
    · exact hRaise _
  have hRfe : ∀ m : Machine δ, (m.mycpus i).currentUsermode = false → WaitsAt i w m →
      After (doRfe b i) (fun _ => WaitsAt i w) (fun _ => WaitsAt i w) m :=
    hBlind.doRfe i fun _ _ hm => hm.modCpu i fun _ => rfl
  refine keeps_getCpu_bind i fun m hm => ?_
  by_cases hMode : cn insn ≠ 0 ∨ (m.mycpus i).currentUsermode = true
  · rw [if_pos hMode]
    exact hRaise _ m hm
  · rw [if_neg hMode]
    simp only [not_or, not_not, Bool.not_eq_true] at hMode
    split
    · unfold mxCop0
      split
      · refine hMod ?_ m hm
        exact fun _ => rfl
      · exact hWrite _ m hm
      · exact hWrite _ _ (hm.modCpu i fun _ => rfl)
      · unfold mxTlbp probetlb
        rw [after_bind, after_getCpu]
        split
        · refine hMod ?_ m hm
          exact fun _ => rfl
        · refine hMod ?_ m hm
          exact fun _ => rfl
      · exact hRfe m hMode.2 hm
      · exact hBlind.execBlind.doWait i m hm
      · exact hRaise _ m hm
    · split
      · exact hMf m hm
      · exact hRaise _ m hm
      · exact hMt m hm
      · exact hRaise _ m hm
      · split <;> exact hRaise _ m hm
      · split <;> exact hRaise _ m hm
      · exact hRaise _ m hm

/-- The wait counters are left alone outside the multiply unit. -/
theorem execute_waits {insn : Word} (hUnit : ¬UsesUnit insn) (m : Machine δ) :
    After (execute b i insn) (fun _ m' => (m'.mycpus i).waits = (m.mycpus i).waits)
      (fun _ m' => (m'.mycpus i).waits = (m.mycpus i).waits) m := by
  by_cases hOp : opm insn = .cop
  · have hm : WaitsAt i (m.mycpus i).waits m := by
      rintro j rfl
      rfl
    simp only [execute, hOp]
    exact (mxCopz_waitsAt i insn _ m hm).mono (fun _ _ h => h i rfl) fun _ _ h => h i rfl
  · have hm : Akin i (m.mycpus i).waits (m.mycpus i).waits m m := ⟨rfl, rfl, rfl⟩
    refine (blind_execute hOp hUnit m m hm).mono ?_ ?_
    · rintro _ m' ⟨p', -, h⟩
      exact h.waits
    · rintro _ m' ⟨p', -, h⟩
      exact h.waits

end Sys161.Mips
