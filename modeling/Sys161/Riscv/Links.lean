import Sys161.Riscv.FetchRuns

/-!
# Jumps with a link whose target cannot be fetched

A jump looks up the page of its target before it writes the return address. A
fault there is reported with the target as the exception pc, and the return
address is not written any more.
-/

namespace Sys161.Riscv

open Exec Runs Scripts
open Mips (Board)

set_option autoImplicit false

variable {δ : Type} {b : Board δ} (i : Nat)

/-- The link register and the target of a jump. -/
def Insn.linkTo (insn : Insn) (c : Riscvcpu) : Option (Reg × Word) :=
  match insn with
  | .jal rd imm => some (rd, (c.pc + imm) &&& 0xfffffffe)
  | .jalr rd rs1 imm => some (rd, (c.x rs1 + imm) &&& 0xfffffffe)
  | _ => none

/-- The size of the instruction that has been fetched. -/
def Issue.len : Issue → Word
  | short _ => 2
  | _ => 4

/-- The target is not aligned for a cpu without compressed instructions. -/
def Riscvcpu.Misaligned (c : Riscvcpu) (dest : Word) : Prop := c.cext = false ∧ dest &&& 0x2 ≠ 0

/-- What a trap leaves: the registers and main memory, and the pc in `sepc`. -/
structure Saved (x : Reg → Word) (ram : BitVec 30 → Word) (sepc : Word) (t : Machine δ) : Prop where
  x : (t.mycpus i).x = x
  ram : t.ram = ram
  sepc : (t.mycpus i).sepc = sepc

namespace Saved

variable {x : Reg → Word} {ram : BitVec 30 → Word} {sepc : Word}

theorem bus : BusBlind (Saved (δ := δ) i x ram sepc) := by
  intro m t ht hm
  constructor
  · exact (ht.congr Riscvcpu.x (fun _ => rfl) i).trans hm.x
  · exact ht.ram.trans hm.ram
  · exact (ht.congr (fun c => c.sepc) (fun _ => rfl) i).trans hm.sepc

theorem modCpu {f : Riscvcpu → Riscvcpu} (hx : ∀ c, (f c).x = c.x)
    (hSepc : ∀ c, (f c).sepc = c.sepc) {m : Machine δ} (hm : Saved i x ram sepc m) :
    Saved i x ram sepc (m.modCpu i f) := by
  constructor
  · rw [Machine.modCpu_mycpus_self, hx]
    exact hm.x
  · exact hm.ram
  · rw [Machine.modCpu_mycpus_self, hSepc]
    exact hm.sepc

theorem fill : FillBlind i (Saved (δ := δ) i x ram sepc) := by
  intro vaddr leaf m hm
  apply hm.modCpu
  · intro c
    unfold Riscvcpu.fill
    split <;> rfl
  · intro c
    unfold Riscvcpu.fill
    split <;> rfl

end Saved

/-- The fetch position apart, `precompute_pc` leaves the pc and what a trap leaves. -/
theorem after_precomputePc_saved {x : Reg → Word} {ram : BitVec 30 → Word} {sepc : Word}
    {m : Machine δ} (hm : Saved i x ram sepc m) :
    After (precomputePc b i)
      (fun _ t => Saved i x ram sepc t)
      (fun _ t => Saved i x ram sepc t ∧ (t.mycpus i).pc = (m.mycpus i).pc) m := by
  apply (after_precomputePc b i (Saved.bus i) (Saved.fill i) hm).mono
  · rintro _ _ ⟨t, physpc, ht, _, _, _, rfl⟩
    apply Saved.modCpu i _ _ ht
    · exact fun _ => rfl
    · exact fun _ => rfl
  · rintro _ _ ⟨_, t, page, ht, hPc, rfl⟩
    constructor
    · apply Saved.modCpu i _ _ ht
      · exact fun _ => rfl
      · exact fun _ => rfl
    · rw [Machine.modCpu_mycpus_self]
      exact hPc

theorem after_trap_saved (tr : Trap) (m : Machine δ) :
    After (trap b i tr)
      (fun _ t => Saved i (m.mycpus i).x m.ram (m.mycpus i).pc t) (fun _ _ => True) m := by
  apply after_trap
  · exact fun _ => trivial
  · intro _
    have hEnter : Saved i (m.mycpus i).x m.ram (m.mycpus i).pc
        (m.modCpu i fun c => c.enterTrap tr) := by
      constructor
      · rw [Machine.modCpu_mycpus_self]
        rfl
      · rfl
      · rw [Machine.modCpu_mycpus_self]
        rfl
    apply (after_precomputePc_saved i hEnter).mono
    · exact fun _ _ ht => ht
    · intro e t _
      cases e <;> trivial

/-- Where a jump faults, the pc is at the target already unless that is not aligned. -/
structure Faulted (m : Machine δ) (dest : Word) (t : Machine δ) : Prop where
  x : (t.mycpus i).x = (m.mycpus i).x
  ram : t.ram = m.ram
  pc : (t.mycpus i).pc = (m.mycpus i).pc ∧ (m.mycpus i).Misaligned dest ∨
    (t.mycpus i).pc = dest ∧ ¬(m.mycpus i).Misaligned dest

theorem after_rxJump_faulted (dest : Word) (m : Machine δ) :
    After (rxJump b i dest) (fun _ _ => True) (fun _ => Faulted i m dest) m := by
  unfold rxJump
  rw [after_bind, after_getCpu, after_ite]
  split
  · next hMis => exact ⟨rfl, rfl, .inl ⟨rfl, hMis⟩⟩
  · next hAligned =>
    rw [after_bind, after_modCpu]
    have hThere : Saved i (m.mycpus i).x m.ram (m.mycpus i).sepc
        (m.modCpu i fun c => { c with pc := dest, nextpc := dest }) := by
      apply Saved.modCpu i _ _ ⟨rfl, rfl, rfl⟩
      · exact fun _ => rfl
      · exact fun _ => rfl
    apply (after_precomputePc_saved i hThere).mono
    · exact fun _ _ _ => trivial
    · rintro _ t ⟨ht, hPc⟩
      rw [Machine.modCpu_mycpus_self] at hPc
      exact ⟨ht.x, ht.ram, .inr ⟨hPc, hAligned⟩⟩

/-- What follows the jump itself does not change how it faults. -/
theorem after_exec_jump {insn : Insn} {rd : Reg} {dest : Word} {m : Machine δ}
    (hJump : insn.linkTo (m.mycpus i) = some (rd, dest)) (len : Word)
    {E : Stop → Machine δ → Prop} (hFault : After (rxJump b i dest) (fun _ _ => False) E m) :
    After (insn.exec b i len) (fun _ _ => False) E m := by
  cases insn with
  | jal d imm =>
    injection hJump with hPair
    injection hPair with hRd hDest
    simp only [Insn.exec, rxDoJal, after_bind, after_getCpu]
    rw [hDest]
    exact hFault.mono (fun _ _ h => h.elim) fun _ _ h => h
  | jalr d rs1 imm =>
    injection hJump with hPair
    injection hPair with hRd hDest
    simp only [Insn.exec, rxDoJalr, after_bind, after_getCpu]
    rw [hDest]
    exact hFault.mono (fun _ _ h => h.elim) fun _ _ h => h
  | _ => cases hJump

theorem after_execute_insn {is : Issue} {insn : Insn} (hInsn : is.insn = some insn)
    {Q : Bool → Machine δ → Prop} {E : Stop → Machine δ → Prop} {m : Machine δ}
    (hExec : After (insn.exec b i is.len) Q (taken b i Q E false) m) :
    After (execute b i is) Q E m := by
  unfold execute
  rw [after_trapping]
  cases is with
  | idle => cases hInsn
  | fault => cases hInsn
  | short word =>
    have hDecode : decode16 word = some insn := hInsn
    dsimp only
    unfold insn16
    rw [hDecode]
    exact hExec
  | long word =>
    injection hInsn with hDecode
    dsimp only
    unfold insn32
    rw [hDecode]
    exact hExec
  | tooLong word =>
    injection hInsn with hIll
    rw [← hIll] at hExec
    exact hExec

section Restart

variable (m : Machine δ) (is : Issue) (rd : Reg) (dest : Word) (u : Machine δ)

/-- The jump can be done again from the start, or is done but for fetching its target. -/
def Restarts : Prop :=
  (u.mycpus i).sepc = (m.mycpus i).pc ∧ (u.mycpus i).x = (m.mycpus i).x ∧ u.ram = m.ram ∨
    (u.mycpus i).sepc = dest ∧ (rd ≠ 0 → (u.mycpus i).x rd = (m.mycpus i).pc + is.len)

/-- The target is not where a jump can lead, or nothing is lost with the return address. -/
def Linked : Prop :=
  (m.mycpus i).Misaligned dest ∨ dest = (m.mycpus i).pc ∨ rd = 0 ∨
    (m.mycpus i).x rd = (m.mycpus i).pc + is.len

variable {m is rd dest u}

theorem restarts_iff {t : Machine δ} (ht : Faulted i m dest t)
    (hu : Saved i (t.mycpus i).x t.ram (t.mycpus i).pc u) :
    Restarts i m is rd dest u ↔ Linked i m is rd dest := by
  have hX : (u.mycpus i).x = (m.mycpus i).x := hu.x.trans ht.x
  have hRam : u.ram = m.ram := hu.ram.trans ht.ram
  unfold Restarts Linked
  rcases ht.pc with ⟨hPc, hMis⟩ | ⟨hPc, hAligned⟩
  · constructor
    · exact fun _ => .inl hMis
    · exact fun _ => .inl ⟨hu.sepc.trans hPc, hX, hRam⟩
  · have hSepc : (u.mycpus i).sepc = dest := hu.sepc.trans hPc
    rw [hSepc, hX]
    constructor
    · rintro (⟨hSelf, _⟩ | ⟨_, hLink⟩)
      · exact .inr (.inl hSelf)
      · by_cases hRd : rd = 0
        · exact .inr (.inr (.inl hRd))
        · exact .inr (.inr (.inr (hLink hRd)))
    · rintro (hMis | hSelf | hRd | hHeld)
      · exact absurd hMis hAligned
      · exact .inl ⟨hSelf, rfl, hRam⟩
      · exact .inr ⟨rfl, fun hNe => absurd hRd hNe⟩
      · exact .inr ⟨rfl, fun _ => hHeld⟩

variable {insn : Insn} {tr : Trap} {t : Machine δ} {r : Bool}

/-- A jump with a link whose target cannot be fetched is restartable just when its
target is misaligned or the jump itself, or the return address need not be written. -/
theorem jump_restartable (hInsn : is.insn = some insn)
    (hJump : insn.linkTo (m.mycpus i) = some (rd, dest))
    (hFault : (rxJump b i dest).run m = .error (.trap tr) t)
    (hRun : (execute b i is).run m = .ok r u) :
    Restarts i m is rd dest u ↔ Linked i m is rd dest := by
  have hJumped : After (rxJump b i dest) (fun _ _ => False)
      (fun e t => e = .trap tr ∧ Faulted i m dest t) m := by
    have hFaulted := after_of_run_error (after_rxJump_faulted i dest m) hFault
    unfold After
    rw [hFault]
    exact ⟨rfl, hFaulted⟩
  have hDone : After (execute b i is)
      (fun _ u => Restarts i m is rd dest u ↔ Linked i m is rd dest) (fun _ _ => True) m := by
    apply after_execute_insn i hInsn
    apply (after_exec_jump i hJump is.len hJumped).mono
    · exact fun _ _ h => h.elim
    · rintro _ t ⟨rfl, ht⟩
      apply (after_trap_saved i tr t).mono
      · exact fun _ _ hu => restarts_iff i ht hu
      · exact fun _ _ _ => trivial
  have hIff := after_of_run_ok hDone hRun
  exact hIff

end Restart

/-- A cpu sets its trap handler and jumps to address 0, where there is nothing. -/
def jumpAway (jump : Word) : List (Act Unit) :=
  [.poke 0 0xc00002b7, .poke 1 0x10529073, .poke 2 jump, .setEntrypoint 0 0xc0000000, .turn 0,
    .turn 0]

/-- The third turn of the script: what is issued, how the jump ends and what the trap leaves. -/
structure Stranded where
  is : Issue
  pc : Word
  zero : Word
  stop : Option Stop
  left : Option (Word × Word)
  deriving DecidableEq

def strandedJump : Machine Unit → Option Stranded :=
  yields (issue bareBoard 0) fun is m =>
    { is := is
      pc := (m.mycpus 0).pc
      zero := (m.mycpus 0).x 0
      stop := thrown (rxJump bareBoard 0 0) m
      left := yields (execute bareBoard 0 is) (fun _ u => ((u.mycpus 0).sepc, (u.mycpus 0).x 1)) m }

theorem strandedJump_runs (jump : Word) (hSeen : yields (runAll (Act.exec bareBoard) (jumpAway jump))
      (fun _ => strandedJump) (machineInit () true) = some (some ⟨.long jump, 0xc0000008, 0,
        some (.trap (.exception .iaccess 0)), some (0, 0)⟩)) :
    ∃ p m₀ m t r u, Path (Step bareBoard) (machineInit () true) p m₀ ∧
      (issue bareBoard 0).run m₀ = .ok (.long jump) m ∧ (m.mycpus 0).pc = 0xc0000008 ∧
      (m.mycpus 0).x 0 = 0 ∧
      (rxJump bareBoard 0 0).run m = .error (.trap (.exception .iaccess 0)) t ∧
      (execute bareBoard 0 (.long jump)).run m = .ok r u ∧ (u.mycpus 0).sepc = 0 ∧
      (u.mycpus 0).x 1 = 0 := by
  have hValid : ∀ a ∈ jumpAway jump, a.Valid bareBoard := by
    simp [jumpAway, Act.Valid, bareBoard, Mips.bareBoard]
  obtain ⟨p, m₀, hPath, _, hLook⟩ := path_of_seen hSeen hValid
  obtain ⟨is, m, hIssue, hRest⟩ := run_of_yields hLook
  injection hRest with hIs hPc hZero hThrown hYields
  subst hIs
  obtain ⟨t, hFault⟩ := run_of_thrown hThrown
  obtain ⟨r, u, hRun, hLeft⟩ := run_of_yields hYields
  injection hLeft with hSepc hLink
  exact ⟨p, m₀, m, t, r, u, hPath, hIssue, hPc, hZero, hFault, hRun, hSepc, hLink⟩

/-- `jalr x0, 0(x0)`. -/
theorem jump_restartable_unlinked : ∃ p m₀ m u r, Path (Step bareBoard) (machineInit () true) p m₀ ∧
    (issue bareBoard 0).run m₀ = .ok (.long 0x00000067) m ∧
    (execute bareBoard 0 (.long 0x00000067)).run m = .ok r u ∧
    Restarts 0 m (.long 0x00000067) 0 0 u := by
  obtain ⟨p, m₀, m, t, r, u, hPath, hIssue, _, hZero, hFault, hRun, _, _⟩ :=
    strandedJump_runs 0x00000067 (by decide +kernel)
  have hJump : (Insn.jalr 0 0 0).linkTo (m.mycpus 0) = some (0, 0) := by
    rw [Insn.linkTo, hZero]
    rfl
  exact ⟨p, m₀, m, u, r, hPath, hIssue, hRun,
    (jump_restartable 0 rfl hJump hFault hRun).mpr (.inr (.inr (.inl rfl)))⟩

/-- `jalr x1, 0(x0)`: the return address is lost. -/
theorem not_jump_restartable : ¬∀ p (m₀ m t u : Machine Unit) is insn rd dest tr r,
    Path (Step bareBoard) (machineInit () true) p m₀ → (issue bareBoard 0).run m₀ = .ok is m →
    is.insn = some insn → insn.linkTo (m.mycpus 0) = some (rd, dest) →
    (rxJump bareBoard 0 dest).run m = .error (.trap tr) t →
    (execute bareBoard 0 is).run m = .ok r u → Restarts 0 m is rd dest u := by
  intro h
  obtain ⟨p, m₀, m, t, r, u, hPath, hIssue, hPc, hZero, hFault, hRun, hSepc, hLink⟩ :=
    strandedJump_runs 0x000000e7 (by decide +kernel)
  have hJump : (Insn.jalr 1 0 0).linkTo (m.mycpus 0) = some (1, 0) := by
    rw [Insn.linkTo, hZero]
    rfl
  have hDone := h p m₀ m t u (.long 0x000000e7) (.jalr 1 0 0) 1 0 _ r hPath hIssue rfl hJump
    hFault hRun
  rcases hDone with ⟨hSelf, _⟩ | ⟨_, hHeld⟩
  · rw [hSepc, hPc] at hSelf
    exact absurd hSelf (by decide)
  · have hLost := hHeld (by decide)
    rw [hLink, hPc] at hLost
    exact absurd hLost (by decide)

end Sys161.Riscv
