import Sys161.Riscv.Lookup

/-!
# The control register instructions

What is read back after a write: the register keeps the bits that it has, and
some of them do not change from software.
-/

namespace Sys161.Riscv

open Exec

set_option autoImplicit false

variable {δ : Type} (i : Nat)

/-! ## Flags -/

theorem flag_and (val : Word) {mask : Word} (k : Nat) (hMask : mask = BitVec.twoPow 32 k) :
    flag (val &&& mask ≠ 0) mask = val &&& mask :=
  Flags.ite_and_eq val k hMask

theorem flag_and_mask (set : Bool) (mask val : Word) :
    flag set mask &&& val = flag set (mask &&& val) := by
  cases set with
  | false => exact BitVec.zero_and
  | true => rfl

theorem flag_zero (set : Bool) : flag set 0 = 0 := by
  cases set <;> rfl

/-! ## Registers -/

namespace Csr

/-- The bits that can be read and are not changed by a write. -/
def fixed : Csr → Word
  | sip => 0x00000220
  | _ => 0

/-- The bits that a write changes. -/
def writable (cext : Bool) : Csr → Word
  | sstatus => 0x000c0133
  | sie => 0x00000222
  | stvec => 0xfffffffc
  | sscratch | stval => 0xffffffff
  | sepc => if cext then 0xfffffffe else 0xfffffffc
  | scause => 0x8000000f
  | sip => 0x00000002
  | satp => 0xffcfffff
  | _ => 0

end Csr

namespace Riscvcpu

variable (c : Riscvcpu) (val : Word)

theorem readCsrSstatus_write : (c.writeCsrSstatus val).readCsrSstatus = val &&& 0x000c0133 := by
  unfold readCsrSstatus writeCsrSstatus
  dsimp only
  rw [flag_and val 19 (by decide), flag_and val 18 (by decide), flag_and val 8 (by decide),
    flag_and val 5 (by decide), flag_and val 4 (by decide), flag_and val 1 (by decide),
    flag_and val 0 (by decide)]
  simp only [← BitVec.and_or_distrib_left]
  rfl

theorem readCsrSie_write : (c.writeCsrSie val).readCsrSie = val &&& 0x00000222 := by
  unfold readCsrSie writeCsrSie
  dsimp only
  rw [flag_and val 9 (by decide), flag_and val 5 (by decide), flag_and val 1 (by decide)]
  simp only [← BitVec.and_or_distrib_left]
  rfl

theorem readCsrSip_write :
    (c.writeCsrSip val).readCsrSip = (c.readCsrSip &&& 0x00000220) ||| (val &&& 0x00000002) := by
  unfold readCsrSip writeCsrSip
  dsimp only
  rw [flag_and val 1 (by decide)]
  simp only [BitVec.and_or_distrib_right, flag_and_mask]
  cases c.irqLamebus <;> cases c.irqTimer <;> cases c.irqIpi <;> rfl

theorem readCsrSepc_write :
    (c.writeCsrSepc val).readCsrSepc = val &&& Csr.sepc.writable c.cext := by
  unfold readCsrSepc writeCsrSepc Csr.writable
  dsimp only
  cases c.cext with
  | false =>
    rw [if_neg Bool.false_ne_true, if_neg Bool.false_ne_true, BitVec.and_assoc]
    rfl
  | true => rw [if_pos rfl, if_pos rfl]

theorem readCsrScause_write : (c.writeCsrScause val).readCsrScause = val &&& 0x8000000f := by
  unfold readCsrScause writeCsrScause
  dsimp only
  rw [flag_and val 31 (by decide), BitVec.and_assoc, ← BitVec.and_or_distrib_left]
  rfl

theorem readCsrSatp_write : (c.writeCsrSatp val).readCsrSatp = val &&& 0xffcfffff := by
  have hAsid : (((val >>> 22) &&& 0x1ff) <<< 22 : Word) = val &&& 0x7fc00000 := by
    rw [BitVec.shiftLeft_and_distrib, BitVec.shiftLeft_ushiftRight, BitVec.and_assoc]
    rfl
  have hBase : ((((val &&& 0x003fffff) &&& 0xfffff) <<< 12) >>> 12 : Word) = val &&& 0x000fffff := by
    have hMask : ((val &&& 0x003fffff) &&& 0xfffff : Word) = val &&& 0xfffff := by
      rw [BitVec.and_assoc]
      rfl
    have hLt : (val &&& 0xfffff : Word).toNat < 1048576 := by
      rw [BitVec.toNat_and]
      exact Nat.and_lt_two_pow _ (n := 20) (by decide)
    apply BitVec.eq_of_toNat_eq
    rw [hMask, BitVec.toNat_ushiftRight, BitVec.toNat_shiftLeft, Nat.shiftRight_eq_div_pow,
      Nat.shiftLeft_eq]
    omega
  unfold readCsrSatp writeCsrSatp
  dsimp only
  rw [flag_and val 31 (by decide), hAsid, hBase, ← BitVec.and_or_distrib_left,
    ← BitVec.and_or_distrib_left]
  rfl

theorem csrwrite_kept {csr : Word} {c' : Riscvcpu} (h : c.csrwrite csr val = some c') :
    ¬c.super = false ∧ c'.super = c.super ∧ c'.x = c.x ∧ c'.cpunum = c.cpunum := by
  unfold csrwrite at h
  split at h
  · cases h
  next hSuper =>
    refine ⟨hSuper, ?_⟩
    split at h
    all_goals cases h
    all_goals exact ⟨rfl, rfl, rfl⟩

/-- Supervisor mode can read what it can write. -/
theorem exists_csrread {csr : Word} {c' : Riscvcpu} (h : c.csrwrite csr val = some c') :
    ∃ old, c.csrread csr = some old := by
  obtain ⟨hSuper, -, -⟩ := c.csrwrite_kept val h
  unfold csrwrite at h
  rw [if_neg hSuper] at h
  unfold csrread
  cases hCsr : Csr.ofBits csr with
  | mvendorid | marchid | mimpid | mhartid | other =>
    rw [hCsr] at h
    cases h
  | sys161Timer => exact ⟨_, rfl⟩
  | _ =>
    dsimp only
    rw [if_neg hSuper]
    exact ⟨_, rfl⟩

/-- What is read back is what was written, in the bits that a write changes. -/
theorem csrread_csrwrite {csr old : Word} {c' : Riscvcpu} (hRead : c.csrread csr = some old)
    (hWrite : c.csrwrite csr val = some c') (hTimer : Csr.ofBits csr ≠ .sys161Timer) :
    c'.csrread csr = some ((old &&& (Csr.ofBits csr).fixed) |||
      (val &&& (Csr.ofBits csr).writable c.cext)) := by
  have hNone : ∀ w : Word, (old &&& 0) ||| w = w := by
    intro w
    change old &&& 0#32 ||| w = w
    rw [BitVec.and_zero, BitVec.zero_or]
  obtain ⟨hSuper, hSame, -⟩ := c.csrwrite_kept val hWrite
  have hSuper' : ¬c'.super = false := by rwa [hSame]
  unfold csrread at hRead ⊢
  unfold csrwrite at hWrite
  rw [if_neg hSuper] at hWrite
  cases hCsr : Csr.ofBits csr with
  | mvendorid | marchid | mimpid | mhartid | other =>
    rw [hCsr] at hWrite
    cases hWrite
  | sys161Timer => exact absurd hCsr hTimer
  | sip =>
    rw [hCsr] at hWrite hRead
    obtain rfl := Option.some.inj hWrite
    dsimp only at hRead ⊢
    rw [if_neg hSuper] at hRead
    rw [if_neg hSuper', ← Option.some.inj hRead]
    exact congrArg some (c.readCsrSip_write val)
  | sstatus =>
    rw [hCsr] at hWrite
    obtain rfl := Option.some.inj hWrite
    dsimp only [Csr.fixed]
    rw [if_neg hSuper', hNone]
    exact congrArg some (c.readCsrSstatus_write val)
  | sie =>
    rw [hCsr] at hWrite
    obtain rfl := Option.some.inj hWrite
    dsimp only [Csr.fixed]
    rw [if_neg hSuper', hNone]
    exact congrArg some (c.readCsrSie_write val)
  | sepc =>
    rw [hCsr] at hWrite
    obtain rfl := Option.some.inj hWrite
    dsimp only [Csr.fixed]
    rw [if_neg hSuper', hNone]
    exact congrArg some (c.readCsrSepc_write val)
  | scause =>
    rw [hCsr] at hWrite
    obtain rfl := Option.some.inj hWrite
    dsimp only [Csr.fixed]
    rw [if_neg hSuper', hNone]
    exact congrArg some (c.readCsrScause_write val)
  | satp =>
    rw [hCsr] at hWrite
    obtain rfl := Option.some.inj hWrite
    dsimp only [Csr.fixed]
    rw [if_neg hSuper', hNone]
    exact congrArg some (c.readCsrSatp_write val)
  | stvec =>
    rw [hCsr] at hWrite
    obtain rfl := Option.some.inj hWrite
    dsimp only [Csr.fixed]
    rw [if_neg hSuper', hNone]
    rfl
  | sscratch | stval =>
    rw [hCsr] at hWrite
    obtain rfl := Option.some.inj hWrite
    dsimp only [Csr.fixed]
    rw [if_neg hSuper', hNone]
    exact congrArg some BitVec.and_allOnes.symm

/-- The other registers stay, but that a write to the timer takes its interrupt back. -/
theorem csrread_other {csr n : Word} {c' : Riscvcpu} (hWrite : c.csrwrite csr val = some c')
    (hOther : Csr.ofBits n ≠ Csr.ofBits csr)
    (hTimer : Csr.ofBits csr = .sys161Timer → Csr.ofBits n ≠ .sip) :
    c'.csrread n = c.csrread n := by
  obtain ⟨hSuper, -, -⟩ := c.csrwrite_kept val hWrite
  unfold csrwrite at hWrite
  rw [if_neg hSuper] at hWrite
  unfold csrread
  cases hCsr : Csr.ofBits csr with
  | mvendorid | marchid | mimpid | mhartid | other =>
    rw [hCsr] at hWrite
    cases hWrite
  | sys161Timer =>
    rw [hCsr] at hWrite
    obtain rfl := Option.some.inj hWrite
    cases hN : Csr.ofBits n with
    | sip => exact absurd hN (hTimer hCsr)
    | sys161Timer => exact absurd (hN.trans hCsr.symm) hOther
    | _ => rfl
  | _ =>
    rw [hCsr] at hWrite
    obtain rfl := Option.some.inj hWrite
    cases hN : Csr.ofBits n
    all_goals first | rfl | exact absurd (hN.trans hCsr.symm) hOther

theorem csrread_setX (rd : Reg) (csr : Word) : (c.setX rd val).csrread csr = c.csrread csr := by
  unfold setX
  split <;> rfl

end Riscvcpu

/-! ## Instructions -/

namespace Csrop

variable (op : Csrop) (c : Riscvcpu) (rd rs1 : Reg)

/-- The instruction also writes the register. -/
def writes : Bool :=
  match op with
  | csrrw | csrrwi => true
  | csrrs | csrrc | csrrsi | csrrci => rs1 ≠ 0

/-- What it writes, from what it has read. -/
def value (old : Word) : Word :=
  match op with
  | csrrw => c.x rs1
  | csrrs => old ||| c.x rs1
  | csrrc => old &&& ~~~c.x rs1
  | csrrwi => rs1.setWidth 32
  | csrrsi => old ||| rs1.setWidth 32
  | csrrci => old &&& ~~~rs1.setWidth 32

/-- The read that `csrrw` leaves out where `rd` is `x0` does not fail. -/
theorem rxDoCsrrw_eq (val csr : Word) :
    c.rxDoCsrrw rd val csr = c.rxDoCsrX rd val csr := by
  unfold Riscvcpu.rxDoCsrrw
  split
  · rfl
  next hZero =>
    rw [not_not] at hZero
    subst hZero
    unfold Riscvcpu.rxDoCsrX
    cases hWrite : c.csrwrite csr val with
    | none => cases c.csrread csr <;> rfl
    | some c' =>
      obtain ⟨old, hRead⟩ := c.exists_csrread val hWrite
      rw [hRead]
      rfl

theorem run_eq (csr : Word) :
    op.run c rd rs1 csr =
      if op.writes rs1 then
        (c.csrread csr).bind fun old =>
          (c.csrwrite csr (op.value c rs1 old)).bind fun c' => some (c'.setX rd old)
      else (c.csrread csr).map fun old => c.setX rd old := by
  have hRc : ∀ (val : Word) (doset : Bool),
      c.rxDoCsrrsc rd rs1 val doset csr =
        if decide (rs1 ≠ 0) = true then
          (c.csrread csr).bind fun old =>
            (c.csrwrite csr (if doset then old ||| val else old &&& ~~~val)).bind
              fun c' => some (c'.setX rd old)
        else (c.csrread csr).map fun old => c.setX rd old := by
    intro val doset
    unfold Riscvcpu.rxDoCsrrsc
    by_cases hRs1 : rs1 ≠ 0
    · rw [if_pos hRs1, if_pos (decide_eq_true hRs1)]
      rfl
    · rw [if_neg hRs1, if_neg fun h => hRs1 (of_decide_eq_true h)]
      rfl
  cases op with
  | csrrw | csrrwi => exact rxDoCsrrw_eq c rd _ csr
  | csrrs | csrrsi => exact hRc _ true
  | csrrc | csrrci => exact hRc _ false

end Csrop

/-- The instruction has come to its end. -/
structure CsrDone (op : Csrop) (rd rs1 : Reg) (csr old : Word) (c c' : Riscvcpu) : Prop where
  read : c.csrread csr = some old
  x : c'.x = (c.setX rd old).x
  /-- Nothing but `rd` has changed. -/
  kept : op.writes rs1 = false → c' = c.setX rd old
  written : op.writes rs1 = true → Csr.ofBits csr ≠ .sys161Timer →
    c'.csrread csr = some ((old &&& (Csr.ofBits csr).fixed) |||
      (op.value c rs1 old &&& (Csr.ofBits csr).writable c.cext))
  others : ∀ n, Csr.ofBits n ≠ Csr.ofBits csr →
    (Csr.ofBits csr = .sys161Timer → Csr.ofBits n ≠ .sip) → c'.csrread n = c.csrread n

theorem x_setX {c c' : Riscvcpu} (h : c'.x = c.x) (rd : Reg) (val : Word) :
    (c'.setX rd val).x = (c.setX rd val).x := by
  unfold Riscvcpu.setX
  split
  · exact h
  · dsimp only
    rw [h]

theorem csrDone_of_run {op : Csrop} {rd rs1 : Reg} {csr : Word} {c c' : Riscvcpu}
    (h : op.run c rd rs1 csr = some c') : ∃ old, CsrDone op rd rs1 csr old c c' := by
  rw [Csrop.run_eq] at h
  split at h
  next hWrites =>
    obtain ⟨old, hRead, hRest⟩ := Option.bind_eq_some_iff.mp h
    obtain ⟨c₁, hWrite, hDone⟩ := Option.bind_eq_some_iff.mp hRest
    obtain rfl := Option.some.inj hDone
    refine ⟨old, hRead, x_setX (c.csrwrite_kept _ hWrite).2.2.1 rd old, fun hNot => ?_,
      fun _ hTimer => ?_, fun n hOther hTimer => ?_⟩
    · rw [hWrites] at hNot
      cases hNot
    · rw [Riscvcpu.csrread_setX]
      exact c.csrread_csrwrite _ hRead hWrite hTimer
    · rw [Riscvcpu.csrread_setX]
      exact c.csrread_other _ hWrite hOther hTimer
  next hNot =>
    obtain ⟨old, hRead, rfl⟩ := Option.map_eq_some_iff.mp h
    refine ⟨old, hRead, rfl, fun _ => rfl, fun hWrites => absurd hWrites hNot, fun n _ _ => ?_⟩
    exact c.csrread_setX old rd n

/-- A control register instruction is illegal and does nothing, or it is carried out; one that does
not write is carried out on every register that can be read. -/
theorem csr_all_or_nothing (op : Csrop) (rd rs1 : Reg) (csr insn : Word) (m : Machine δ) :
    After (rxCsr i op rd rs1 csr insn)
      (fun _ t => ∃ c' old, t = m.setCpu i c' ∧ CsrDone op rd rs1 csr old (m.mycpus i) c')
      (fun e t => e = .trap (.exception .illinst insn) ∧ t = m ∧
        (op.writes rs1 = true ∨ (m.mycpus i).csrread csr = none)) m := by
  unfold rxCsr
  rw [after_bind, after_getCpu]
  cases hRun : op.run (m.mycpus i) rd rs1 csr with
  | some c' =>
    obtain ⟨old, hDone⟩ := csrDone_of_run hRun
    exact ⟨c', old, rfl, hDone⟩
  | none =>
    refine ⟨rfl, rfl, ?_⟩
    rw [Csrop.run_eq] at hRun
    split at hRun
    next hWrites => exact .inl hWrites
    next => exact .inr (Option.map_eq_none_iff.mp hRun)

end Sys161.Riscv
