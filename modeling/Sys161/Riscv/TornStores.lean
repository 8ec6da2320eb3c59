import Sys161.Riscv.Blind
import Sys161.Riscv.StoredBytes

/-!
# Stores that fault halfway

A store that touches two words writes the first of them before it can know of
the second. A fault of the second write leaves what the first one did.
-/

namespace Sys161.Riscv

open Exec
open Mips (Board)

set_option autoImplicit false

variable {δ : Type} (b : Board δ) (i : Nat)

/-! ## Writes that are made, and writes that are refused -/

/-- The address of a word of main memory. -/
def InMemory (paddr : Word) : Prop :=
  paddrRambase ≤ paddr ∧ paddr < paddrRombase ∧ paddr - paddrRambase < b.busRamsize

/-- A write to a word changes main memory, and leaves the machine `m'`. -/
def Overwrites (w val : Word) (m m' : Machine δ) : Prop :=
  ∃ paddr, outcome (translatemem b i w .write) m = .ok paddr ∧ InMemory b paddr ∧
    m.ram (cell paddr) ≠ val ∧
    m' = { final (translatemem b i w .write) m with
      ram := Function.update m.ram (cell paddr) val }

/-- A word may not be written, or what it is mapped to takes no writes. -/
def RefusesWrite (w val : Word) (m : Machine δ) : Prop :=
  (∃ t, outcome (translatemem b i w .write) m = .error (.trap t)) ∨
    ∃ paddr, outcome (translatemem b i w .write) m = .ok paddr ∧
      outcome (storePhys b i paddr val) (final (translatemem b i w .write) m) = .ok false

/-- A part of a word may not be written, or the word cannot be read, or takes no writes. -/
def RefusesModify (addr mask val : Word) (m : Machine δ) : Prop :=
  After (domemFetch b i (alignDown addr) .write)
    (fun wval => RefusesWrite b i (alignDown addr) ((wval &&& ~~~mask) ||| val))
    (fun e _ => e.isTrap = true) m

def RefusesByte (addr val : Word) (m : Machine δ) : Prop :=
  let shift := 8 * (addr &&& 3).toNat
  RefusesModify b i addr (0xff <<< shift) ((val &&& 0xff) <<< shift) (m.modCpu i Riscvcpu.noLr)

/-- A part of a word changes memory, and what follows is `refused`. -/
def TornModify (addr mask val : Word) (refused : Machine δ → Prop) (m : Machine δ) : Prop :=
  After (domemFetch b i (alignDown addr) .write)
    (fun wval t => ∃ m', Overwrites b i (alignDown addr) ((wval &&& ~~~mask) ||| val) t m' ∧
      refused m')
    (fun _ _ => False) m

/-- The first byte of a half changes memory, and the second is refused. -/
def TornHalf (addr val : Word) (m : Machine δ) : Prop :=
  let shift := 8 * (addr &&& 3).toNat
  addr &&& 3 = 3 ∧
    TornModify b i addr (0xff <<< shift) ((val &&& 0xff &&& 0xff) <<< shift)
      (RefusesByte b i (addr + 1) ((val >>> 8) &&& 0xff))
      ((m.modCpu i Riscvcpu.noLr).modCpu i Riscvcpu.noLr)

/-- Both words can be read, the first changes memory, and the second is refused then. -/
def TornWord (addr val : Word) (m : Machine δ) : Prop :=
  addr &&& 3 ≠ 0 ∧
    After (domemFetch b i (alignDown addr) .write)
      (fun val1 => After (domemFetch b i (alignDown addr + 4) .write)
        (fun val2 t => ∃ m', Overwrites b i (alignDown addr) (splitWord addr val val1 val2).1 t m' ∧
          RefusesWrite b i (alignDown addr + 4) (splitWord addr val val1 val2).2 m')
        (fun _ _ => False))
      (fun _ _ => False) (m.modCpu i Riscvcpu.noLr)

def Torn (ms : Memstyles) (addr val : Word) (m : Machine δ) : Prop :=
  match ms with
  | .uhalf => TornHalf b i addr val m
  | .word => TornWord b i addr val m
  | _ => False

/-- A program that traps has not changed main memory. -/
def Atomic {α : Type} (x : M δ α) (m : Machine δ) : Prop :=
  After x (fun _ _ => True) (fun e t => e.isTrap = true → t.ram = m.ram) m

/-! ## What keeps main memory -/

theorem coreBlind_ram (ram : BitVec 30 → Word) : CoreBlind fun t : Machine δ => t.ram = ram where
  bus _ _ hu ht := hu.ram.trans ht
  own _ _ _ _ ht := ht
  enabled _ _ _ ht := ht
  start _ _ _ _ ht := ht

theorem after_storePhys_outside {paddr val : Word} (hOutside : ¬InMemory b paddr) (m : Machine δ) :
    After (storePhys b i paddr val) (fun _ t => t.ram = m.ram) (fun _ t => t.ram = m.ram) m := by
  have hBlind := coreBlind_ram (δ := δ) m.ram
  unfold storePhys
  rw [after_ite]
  split
  · exact rfl
  next hLow =>
    rw [after_ite]
    split
    next hHigh =>
      unfold busMemStore
      rw [after_ite]
      split
      · exact rfl
      next hInside =>
        exact absurd ⟨BitVec.not_lt.mp hLow, hHigh, BitVec.not_le.mp hInside⟩ hOutside
    next hHigh =>
      rw [after_ite]
      split
      · exact rfl
      · rw [after_bind, after_getCpu]
        exact after_busIoStore b _ (J := fun t => t.ram = m.ram) (E := fun _ t => t.ram = m.ram)
          (fun t ht => ht.ram) (fun _ _ => rfl) fun _ _ => hBlind.setCpue val m rfl

/-! ## What a write comes to -/

/-- Traps are taken where they are attempted. -/
theorem attempt_untrapped (x : M δ Unit) (m : Machine δ) :
    After (attempt b i x) (fun _ _ => True) (fun e _ => e.isTrap = false) m := by
  rw [after_attempt]
  apply after_of_forall
  · exact fun _ _ => trivial
  · intro e t
    cases e with
    | trap tr =>
      apply after_trap b i tr
      · exact fun _ => rfl
      · exact fun _ => after_of_forall (fun _ _ => trivial) fun e _ => by cases e <;> rfl
    | crashdie | smoke | undefined => rfl

theorem cpuSetEntrypoint_untrapped (addr : Word) :
    Keeps (fun _ : Machine δ => True) (fun e _ => e.isTrap = false) (cpuSetEntrypoint b i addr) := by
  have hLookup : ∀ pc : Word, Keeps (fun _ : Machine δ => True) (fun e _ => e.isTrap = false) (do
      modCpu i fun c => { c with pc := pc }
      if ← attempt b i (precomputePc b i) then
        pure ()
      else
        hang .entryInvalid) := by
    intro pc t _
    rw [after_bind, after_modCpu, after_bind]
    refine (attempt_untrapped b i _ _).mono ?_ fun _ _ he => he
    rintro (_ | _) u - <;> trivial
  unfold cpuSetEntrypoint
  apply keeps_getCpu i
  intro c
  apply Keeps.ite
  · exact fun _ => Keeps.bind (fun _ _ => trivial) fun _ => hLookup _
  · exact fun _ => hLookup _

theorem storePhys_untrapped (paddr val : Word) (m : Machine δ) :
    After (storePhys b i paddr val) (fun _ _ => True) (fun e _ => e.isTrap = false) m := by
  apply after_storePhys
  · exact fun _ => trivial
  · exact fun _ _ => trivial
  · rintro e (rfl | ⟨-, rfl⟩) <;> rfl
  · intro _ _
    apply keeps_setCpue b val (L := fun _ => True)
    · exact fun _ _ _ _ => trivial
    · exact fun _ _ _ _ => trivial
    · exact fun _ _ _ _ _ => trivial
    · exact fun _ _ _ _ => trivial
    · exact fun k t pcva _ _ _ => cpuSetEntrypoint_untrapped b k pcva t trivial
    · trivial

section Write

variable {w val : Word} {m : Machine δ}

theorem after_storePhys_mem {paddr : Word} (hIn : InMemory b paddr) {Q : Bool → Machine δ → Prop}
    {E : Stop → Machine δ → Prop} :
    After (storePhys b i paddr val) Q E m ↔
      Q true { m with ram := Function.update m.ram (cell paddr) val } := by
  obtain ⟨hLow, hHigh, hInside⟩ := hIn
  unfold storePhys busMemStore
  rw [if_neg (BitVec.not_lt.mpr hLow), if_pos hHigh, if_neg (BitVec.not_le.mpr hInside),
    after_bind, after_modify]
  rfl

theorem after_domemStore_ram :
    After (domemStore b i w val) (fun _ t => t.ram = m.ram ∨ Overwrites b i w val m t)
      (fun _ t => t.ram = m.ram) m := by
  have hLook := after_run ((coreBlind_ram m.ram).translatemem (b := b) i w .write m rfl)
  unfold domemStore
  rw [after_bind]
  refine hLook.mono ?_ fun _ _ he => he.1
  rintro paddr t ⟨hRam, hRun⟩
  rw [after_bind]
  by_cases hIn : InMemory b paddr
  · rw [after_storePhys_mem b i hIn]
    by_cases hVal : m.ram (cell paddr) = val
    · left
      rw [← hVal, ← hRam]
      exact Function.update_eq_self _ _
    · right
      refine ⟨paddr, ?_, hIn, hVal, ?_⟩
      · rw [outcome, hRun]
      · rw [final, hRun, hRam]
  · refine (after_storePhys_outside b i hIn t).mono ?_ fun _ _ he => he.trans hRam
    rintro (_ | _) u hu
    · exact hu.trans hRam
    · exact .inl (hu.trans hRam)

theorem run_overwrites {m' : Machine δ} (h : Overwrites b i w val m m') :
    (domemStore b i w val).run m = .ok () m' ∧ m'.ram ≠ m.ram := by
  obtain ⟨paddr, hOutcome, hIn, hVal, rfl⟩ := h
  have hLook := (coreBlind_ram m.ram).translatemem (b := b) i w .write m rfl
  rw [after_iff_outcome, hOutcome] at hLook
  have hAfter : After (domemStore b i w val)
      (fun _ t => t = { final (translatemem b i w .write) m with
        ram := Function.update m.ram (cell paddr) val }) (fun _ _ => False) m := by
    unfold domemStore
    rw [after_bind, after_iff_outcome, hOutcome]
    dsimp only
    rw [after_bind, after_storePhys_mem b i hIn, hLook]
    exact rfl
  obtain ⟨⟨⟩, t, hRun, rfl⟩ := exists_of_after hAfter
  refine ⟨hRun, fun hSame => hVal ?_⟩
  rw [← congrFun hSame (cell paddr)]
  exact Function.update_self _ _ _

theorem trap_domemStore_iff :
    After (domemStore b i w val) (fun _ _ => False) (fun e _ => e.isTrap = true) m ↔
      RefusesWrite b i w val m := by
  unfold domemStore RefusesWrite
  rw [after_bind, after_iff_outcome]
  cases hLook : outcome (translatemem b i w .write) m with
  | error e => cases e <;> simp [Stop.isTrap]
  | ok paddr =>
    have hUntrapped := storePhys_untrapped b i paddr val (final (translatemem b i w .write) m)
    rw [after_iff_outcome] at hUntrapped
    dsimp only
    rw [after_bind, after_iff_outcome]
    cases hWrite : outcome (storePhys b i paddr val) (final (translatemem b i w .write) m) with
    | error e =>
      rw [hWrite] at hUntrapped
      simp [hWrite, hUntrapped]
    | ok found => cases found <;> simp [hWrite, Stop.isTrap]

end Write

/-! ## One write -/

section Single

variable (m : Machine δ)

theorem after_domemFetch_ram (w : Word) (rwx : Memrwx) :
    After (domemFetch b i w rwx) (fun _ t => t.ram = m.ram) (fun _ t => t.ram = m.ram) m :=
  (coreBlind_ram m.ram).domemFetch i w rwx m rfl

theorem atomic_domemStore (w val : Word) : Atomic (domemStore b i w val) m :=
  (after_domemStore_ram b i).mono (fun _ _ _ => trivial) fun _ _ ht _ => ht

theorem atomic_modifyWord (addr mask val : Word) : Atomic (modifyWord b i addr mask val) m := by
  unfold Atomic modifyWord
  rw [after_bind]
  refine (after_domemFetch_ram b i m _ _).mono ?_ fun _ _ ht _ => ht
  intro wval t ht
  exact (atomic_domemStore b i t _ _).mono (fun _ _ _ => trivial) fun _ _ hu hTrap =>
    (hu hTrap).trans ht

theorem atomic_storeByte (addr val : Word) : Atomic (storeByte b i addr val) m := by
  unfold Atomic storeByte
  rw [after_bind, after_modCpu]
  exact atomic_modifyWord b i (m.modCpu i Riscvcpu.noLr) _ _ _

theorem trap_storeByte_iff (addr val : Word) :
    After (storeByte b i addr val) (fun _ _ => False) (fun e _ => e.isTrap = true) m ↔
      RefusesByte b i addr val m := by
  unfold storeByte modifyWord RefusesByte RefusesModify
  rw [after_bind, after_modCpu, after_bind]
  simp only [trap_domemStore_iff]
  rfl

end Single

/-! ## A write and what follows it -/

/-- The first write is lost on what follows if it changes memory and that traps. -/
theorem after_domemStore_rest {w val : Word} {rest : M δ Unit} {m t : Machine δ}
    (hRest : ∀ u, Atomic rest u) (ht : t.ram = m.ram) :
    After (domemStore b i w val)
        (fun _ => After rest (fun _ _ => True) fun e u => e.isTrap = true → u.ram = m.ram)
        (fun e u => e.isTrap = true → u.ram = m.ram) t ↔
      ¬∃ m', Overwrites b i w val t m' ∧
        After rest (fun _ _ => False) (fun e _ => e.isTrap = true) m' := by
  have hStore : After (domemStore b i w val) _ _ t := after_domemStore_ram b i
  cases hRun : (domemStore b i w val).run t with
  | error e u =>
    have hRam := after_of_run_error hStore hRun
    rw [after_error_iff hRun]
    refine iff_of_true (fun _ => hRam.trans ht) ?_
    rintro ⟨m', hOver, -⟩
    rw [(run_overwrites b i hOver).1] at hRun
    cases hRun
  | ok v u =>
    have hOne : ∀ m', Overwrites b i w val t m' → m' = u ∧ u.ram ≠ t.ram := by
      intro m' hOver
      obtain ⟨hRun', hRam⟩ := run_overwrites b i hOver
      rw [hRun'] at hRun
      cases hRun
      exact ⟨rfl, hRam⟩
    rw [after_ok_iff hRun]
    rcases after_of_run_ok hStore hRun with hSame | hOver
    · refine iff_of_true ((hRest u).mono (fun _ _ h => h) ?_) ?_
      · exact fun e x hx hTrap => (hx hTrap).trans (hSame.trans ht)
      · rintro ⟨m', hOver, -⟩
        exact (hOne m' hOver).2 hSame
    · have hChanged := (hOne u hOver).2
      have hOnly : (∃ m', Overwrites b i w val t m' ∧
          After rest (fun _ _ => False) (fun e _ => e.isTrap = true) m') ↔
          After rest (fun _ _ => False) (fun e _ => e.isTrap = true) u := by
        constructor
        · rintro ⟨m', hOver', hTraps⟩
          rwa [← (hOne m' hOver').1]
        · exact fun hTraps => ⟨u, hOver, hTraps⟩
      rw [hOnly]
      apply after_iff_not
      · simp
      · intro e x hRun'
        have hKept := after_of_run_error (hRest u) hRun'
        constructor
        · intro hBack hTrap
          exact hChanged ((hKept hTrap).symm.trans ((hBack hTrap).trans ht.symm))
        · exact fun hNot hTrap => absurd hTrap hNot

theorem after_modifyWord_rest {addr mask val : Word} {rest : M δ Unit} {m t : Machine δ}
    (hRest : ∀ u, Atomic rest u) (ht : t.ram = m.ram) :
    After (modifyWord b i addr mask val)
        (fun _ => After rest (fun _ _ => True) fun e u => e.isTrap = true → u.ram = m.ram)
        (fun e u => e.isTrap = true → u.ram = m.ram) t ↔
      ¬TornModify b i addr mask val
        (After rest (fun _ _ => False) fun e _ => e.isTrap = true) t := by
  unfold modifyWord TornModify
  rw [after_bind]
  apply after_iff_not
  · intro wval u hRun
    have hRam := after_of_run_ok (after_domemFetch_ram b i _ _ _) hRun
    exact after_domemStore_rest b i hRest (hRam.trans ht)
  · intro e u hRun
    have hRam := after_of_run_error (after_domemFetch_ram b i _ _ _) hRun
    exact iff_of_true (fun _ => hRam.trans ht) id

/-! ## Stores -/

section Stores

variable (addr val : Word) (m : Machine δ)

theorem atomic_storeHalf_iff :
    Atomic (storeHalf b i addr val) m ↔ ¬TornHalf b i addr val m := by
  unfold Atomic storeHalf TornHalf
  rw [after_bind, after_modCpu, after_ite]
  split
  next hSplit =>
    have hRefuses : RefusesByte b i (addr + 1) ((val >>> 8) &&& 0xff) =
        After (storeByte b i (addr + 1) ((val >>> 8) &&& 0xff)) (fun _ _ => False)
          fun e _ => e.isTrap = true :=
      funext fun u => propext (trap_storeByte_iff b i u _ _).symm
    have hSame : ((m.modCpu i Riscvcpu.noLr).modCpu i Riscvcpu.noLr).ram = m.ram := rfl
    rw [and_iff_right hSplit, after_bind, storeByte, after_bind, after_modCpu, hRefuses]
    exact after_modifyWord_rest b i (fun u => atomic_storeByte b i u _ _) hSame
  next hSplit =>
    refine iff_of_true ?_ fun hTorn => hSplit hTorn.1
    exact atomic_modifyWord b i (m.modCpu i Riscvcpu.noLr) _ _ _

theorem atomic_storeWord_iff :
    Atomic (storeWord b i addr val) m ↔ ¬TornWord b i addr val m := by
  unfold Atomic storeWord TornWord
  rw [after_bind, after_modCpu, after_ite]
  split
  next hAlign =>
    refine iff_of_true ?_ fun hTorn => hTorn.1 hAlign
    exact atomic_domemStore b i (m.modCpu i Riscvcpu.noLr) _ _
  next hOff =>
    simp only [ne_eq, hOff, not_false_eq_true, true_and]
    rw [after_bind]
    apply after_iff_not
    · intro val1 t hRun
      have hRam := after_of_run_ok (after_domemFetch_ram b i _ _ _) hRun
      rw [after_bind]
      apply after_iff_not
      · intro val2 u hRun'
        have hRam' := after_of_run_ok (after_domemFetch_ram b i _ _ _) hRun'
        rw [after_bind]
        simp only [← trap_domemStore_iff]
        exact after_domemStore_rest b i (fun v => atomic_domemStore b i v _ _) (hRam'.trans hRam)
      · intro e u hRun'
        have hRam' := after_of_run_error (after_domemFetch_ram b i _ _ _) hRun'
        exact iff_of_true (fun _ => hRam'.trans hRam) id
    · intro e t hRun
      have hRam := after_of_run_error (after_domemFetch_ram b i _ _ _) hRun
      exact iff_of_true (fun _ => hRam) id

/-- A store that traps has not changed main memory, but where a second write is refused after the
first. -/
theorem atomic_dostore_iff (ms : Memstyles) :
    Atomic (dostore b i ms addr val) m ↔ ¬Torn b i ms addr val m := by
  cases ms with
  | ubyte => exact iff_of_true (atomic_storeByte b i m addr val) id
  | uhalf => exact atomic_storeHalf_iff b i addr val m
  | word => exact atomic_storeWord_iff b i addr val m
  | sbyte | shalf =>
    have hSmoke : Atomic (do
        modCpu i fun c => { c with lrActive := false }
        throw (.smoke "dostore: Illegal addressing mode") : M δ Unit) m := by
      unfold Atomic
      rw [after_bind, after_modCpu, after_throw]
      nofun
    exact iff_of_true hSmoke id

end Stores

/-- A half that begins with the last byte of memory. -/
theorem not_atomic_dostore :
    ¬ ∀ (ms : Memstyles) (addr val : Word) (m : Machine Unit),
      Atomic (dostore bareBoard 0 ms addr val) m := by
  intro h
  have hKept := h .uhalf 0xc0001fff 0x1234 (machineInit () true)
  have hFault : outcome (dostore bareBoard 0 .uhalf 0xc0001fff 0x1234) (machineInit () true) =
      .error (.trap (.exception .saccess 0xc0002000)) := by decide +kernel
  have hChanged : (final (dostore bareBoard 0 .uhalf 0xc0001fff 0x1234)
      (machineInit () true)).ram 0x7ff = 0x34000000 := by decide +kernel
  rw [Atomic, after_iff_outcome, hFault] at hKept
  rw [hKept rfl] at hChanged
  exact absurd hChanged (by decide)

end Sys161.Riscv
