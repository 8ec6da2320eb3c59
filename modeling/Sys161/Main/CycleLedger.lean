import Mathlib.Data.List.Nodup
import Sys161.Lib.Scripts
import Sys161.Mips.Cycle

/-!
# Counts of cycles

What the cpu cores count in a call of `cpu_cycle`, and the sums over all cpus
that `meter_report` makes of it. A core is known here by its calls only.
-/

namespace Sys161.Main

open Exec Runs Scripts
open Mips (PercpuStats)

set_option autoImplicit false

/-! ## The counts of one cpu -/

/-- What a call may do to the counts of a cpu: one of three counts of cycles goes up, and with it
the instructions retired in the mode of the cycle may. -/
inductive CycleCounted (sp : PercpuStats) : PercpuStats → Prop where
  | idle : CycleCounted sp sp.idle
  | cycle (usermode : Bool) : CycleCounted sp (sp.cycle usermode)
  | retired (usermode : Bool) : CycleCounted sp ((sp.cycle usermode).retired usermode)

/-- The counts after so many calls, in words that go around. -/
def Tallied (calls : Nat) (sp : PercpuStats) : Prop :=
  ∃ u k i ur kr : Nat, u + k + i = calls ∧ ur ≤ u ∧ kr ≤ k ∧
    sp = ⟨BitVec.ofNat 64 u, BitVec.ofNat 64 k, BitVec.ofNat 64 i, BitVec.ofNat 64 ur,
      BitVec.ofNat 64 kr⟩

theorem ofNat_succ (n : Nat) : BitVec.ofNat 64 n + 1 = BitVec.ofNat 64 (n + 1) :=
  (BitVec.ofNat_add n 1).symm

theorem Tallied.counted {calls : Nat} {sp sp' : PercpuStats} (h : Tallied calls sp)
    (hCounted : CycleCounted sp sp') : Tallied (calls + 1) sp' := by
  obtain ⟨u, k, i, ur, kr, hCalls, hUser, hKernel, rfl⟩ := h
  cases hCounted with
  | idle =>
    refine ⟨u, k, i + 1, ur, kr, by omega, hUser, hKernel, ?_⟩
    rw [← ofNat_succ]
    rfl
  | cycle usermode =>
    cases usermode with
    | true =>
      refine ⟨u + 1, k, i, ur, kr, by omega, by omega, hKernel, ?_⟩
      rw [← ofNat_succ]
      rfl
    | false =>
      refine ⟨u, k + 1, i, ur, kr, by omega, hUser, by omega, ?_⟩
      rw [← ofNat_succ]
      rfl
  | retired usermode =>
    cases usermode with
    | true =>
      refine ⟨u + 1, k, i, ur + 1, kr, by omega, by omega, hKernel, ?_⟩
      rw [← ofNat_succ, ← ofNat_succ]
      rfl
    | false =>
      refine ⟨u, k + 1, i, ur, kr + 1, by omega, hUser, by omega, ?_⟩
      rw [← ofNat_succ, ← ofNat_succ]
      rfl

/-! ## The meter -/

/-- The sums in `meter_report`. -/
structure Totals where
  kcycles : BitVec 64
  ucycles : BitVec 64
  icycles : BitVec 64
  kretired : BitVec 64
  uretired : BitVec 64

/-- The loop over the cpus. The cycles when all were idle are added for each. -/
def totals (sTotIcycles : BitVec 64) (sPercpu : Nat → PercpuStats) (numcpus : Nat) : Totals :=
  (List.range numcpus).foldl (fun t i =>
    { kcycles := t.kcycles + (sPercpu i).spKcycles
      ucycles := t.ucycles + (sPercpu i).spUcycles
      icycles := t.icycles + (sPercpu i).spIcycles + sTotIcycles
      kretired := t.kretired + (sPercpu i).spKretired
      uretired := t.uretired + (sPercpu i).spUretired }) ⟨0, 0, 0, 0, 0⟩

/-- The numbers that `meter_report` prints into `buf2`, or the assertion that fails. -/
def meterReport (t : Totals) : Except String (List (BitVec 64)) :=
  if ¬t.kretired ≤ t.kcycles then .error "kretired <= kcycles"
  else if ¬t.uretired ≤ t.ucycles then .error "uretired <= ucycles"
  else .ok [t.kretired, t.uretired, t.ucycles - t.uretired, t.icycles]

/-- The sums of counts in words that go around. -/
theorem totals_tallied {sPercpu : Nat → PercpuStats} {calls numcpus : Nat}
    (h : ∀ i < numcpus, Tallied calls (sPercpu i)) (sTotIcycles : BitVec 64) :
    ∃ u k ur kr : Nat, u + k ≤ numcpus * calls ∧ ur ≤ u ∧ kr ≤ k ∧
      (totals sTotIcycles sPercpu numcpus).ucycles = BitVec.ofNat 64 u ∧
      (totals sTotIcycles sPercpu numcpus).kcycles = BitVec.ofNat 64 k ∧
      (totals sTotIcycles sPercpu numcpus).uretired = BitVec.ofNat 64 ur ∧
      (totals sTotIcycles sPercpu numcpus).kretired = BitVec.ofNat 64 kr := by
  induction numcpus with
  | zero => exact ⟨0, 0, 0, 0, by omega, le_rfl, le_rfl, rfl, rfl, rfl, rfl⟩
  | succ n ih =>
    obtain ⟨u, k, ur, kr, hSum, hUser, hKernel, hu, hk, hur, hkr⟩ :=
      ih fun i hi => h i (Nat.lt_succ_of_lt hi)
    obtain ⟨u', k', i', ur', kr', hSum', hUser', hKernel', hLast⟩ := h n (Nat.lt_succ_self n)
    have hNext : totals sTotIcycles sPercpu (n + 1) =
        { kcycles := (totals sTotIcycles sPercpu n).kcycles + (sPercpu n).spKcycles
          ucycles := (totals sTotIcycles sPercpu n).ucycles + (sPercpu n).spUcycles
          icycles := (totals sTotIcycles sPercpu n).icycles + (sPercpu n).spIcycles + sTotIcycles
          kretired := (totals sTotIcycles sPercpu n).kretired + (sPercpu n).spKretired
          uretired := (totals sTotIcycles sPercpu n).uretired + (sPercpu n).spUretired } := by
      rw [totals, List.range_succ, List.foldl_append]
      rfl
    refine ⟨u + u', k + k', ur + ur', kr + kr', ?_, by omega, by omega, ?_, ?_, ?_, ?_⟩
    · rw [Nat.succ_mul]
      omega
    · rw [hNext, hu, hLast, BitVec.ofNat_add]
    · rw [hNext, hk, hLast, BitVec.ofNat_add]
    · rw [hNext, hur, hLast, BitVec.ofNat_add]
    · rw [hNext, hkr, hLast, BitVec.ofNat_add]

/-- No more is retired than there were cycles, and `meter_report` finds it so. -/
def Balanced (numcpus : Nat) (sPercpu : Nat → PercpuStats) : Prop :=
  (∀ i < numcpus, (sPercpu i).spKretired ≤ (sPercpu i).spKcycles ∧
    (sPercpu i).spUretired ≤ (sPercpu i).spUcycles) ∧
  ∀ sTotIcycles, ∃ line, meterReport (totals sTotIcycles sPercpu numcpus) = .ok line ∧
    (totals sTotIcycles sPercpu numcpus).uretired ≤ (totals sTotIcycles sPercpu numcpus).ucycles

theorem ofNat_le {m n : Nat} (h : m ≤ n) (hn : n < 2 ^ 64) :
    BitVec.ofNat 64 m ≤ BitVec.ofNat 64 n := by
  rw [BitVec.le_def, BitVec.toNat_ofNat, BitVec.toNat_ofNat]
  omega

theorem balanced_of_tallied {sPercpu : Nat → PercpuStats} {calls numcpus : Nat}
    (h : ∀ i < numcpus, Tallied calls (sPercpu i)) (hFew : numcpus * calls < 2 ^ 64) :
    Balanced numcpus sPercpu := by
  constructor
  · intro i hi
    obtain ⟨u, k, j, ur, kr, hSum, hUser, hKernel, hCounts⟩ := h i hi
    have hOne : calls ≤ numcpus * calls := Nat.le_mul_of_pos_left _ (Nat.zero_lt_of_lt hi)
    rw [hCounts]
    exact ⟨ofNat_le hKernel (by omega), ofNat_le hUser (by omega)⟩
  · intro sTotIcycles
    obtain ⟨u, k, ur, kr, hSum, hUser, hKernel, hu, hk, hur, hkr⟩ := totals_tallied h sTotIcycles
    have hKernelLe : (totals sTotIcycles sPercpu numcpus).kretired ≤
        (totals sTotIcycles sPercpu numcpus).kcycles := by
      rw [hk, hkr]
      exact ofNat_le hKernel (by omega)
    have hUserLe : (totals sTotIcycles sPercpu numcpus).uretired ≤
        (totals sTotIcycles sPercpu numcpus).ucycles := by
      rw [hu, hur]
      exact ofNat_le hUser (by omega)
    rw [meterReport, if_neg (not_not.mpr hKernelLe), if_neg (not_not.mpr hUserLe)]
    exact ⟨_, rfl, hUserLe⟩

/-! ## Calls -/

/-- A cpu core: its calls of `cpu_cycle`, and what else is done to the machine between two. -/
structure Core (ε σ ι : Type) where
  ncpus : Nat
  sPercpu : σ → Nat → PercpuStats
  cpuCycle : EStateM ε σ Bool
  valid : ι → Prop
  exec : ι → EStateM ε σ Unit

variable {ε σ ι : Type}

/-- A call, or what is done between two. -/
def Core.perform (c : Core ε σ ι) : Option ι → EStateM ε σ Unit
  | none => do
    let _ ← c.cpuCycle
  | some a => c.exec a

/-- A call that comes back, or what happens between two. -/
def Core.Step (c : Core ε σ ι) : σ → Option ι → σ → Prop :=
  ScriptStep c.perform fun a => ∀ a' ∈ a, c.valid a'

def calls (p : List (Option ι × σ)) : Nat := p.countP fun e => e.1.isNone

theorem calls_eq (p : List (Option ι × σ)) : calls p = (p.map Prod.fst).countP Option.isNone := by
  rw [List.countP_map]
  rfl

/-- Calls alone that all come back. -/
theorem Core.path_of_calls {c : Core ε σ ι} {n : Nat} {s : σ} {β : Type} {look : σ → β} {y : β}
    (h : yields (runAll c.perform (List.replicate n none)) (fun _ => look) s = some y) :
    ∃ p t, Path c.Step s p t ∧ calls p = n := by
  have hValid : ∀ a ∈ List.replicate n (none : Option ι), ∀ a' ∈ a, c.valid a' := by
    intro a ha
    rw [List.eq_of_mem_replicate ha]
    exact nofun
  obtain ⟨p, t, hPath, hActs, -⟩ := path_of_seen h hValid
  refine ⟨p, t, hPath, ?_⟩
  rw [calls_eq, hActs, List.countP_replicate]
  rfl

/-- A call counts one cycle on every cpu, and nothing is counted between two. -/
def Core.Counts (c : Core ε σ ι) (m : σ) (a : Option ι) (m' : σ) : Prop :=
  ∀ i < c.ncpus, match a with
    | none => CycleCounted (c.sPercpu m i) (c.sPercpu m' i)
    | some _ => c.sPercpu m' i = c.sPercpu m i

/-- A core that counts in the states with `I`, and keeps to these. -/
structure Core.Lawful (c : Core ε σ ι) (I : σ → Prop) : Prop where
  step : ∀ m a m', I m → c.Step m a m' → I m' ∧ c.Counts m a m'

/-- Every call counts, and the counts are those of all calls so far. -/
theorem Core.Lawful.tallied {c : Core ε σ ι} {I : σ → Prop} (h : c.Lawful I) {s t : σ}
    {p : List (Option ι × σ)} (hs : I s) (hZero : ∀ i < c.ncpus, c.sPercpu s i = ⟨0, 0, 0, 0, 0⟩)
    (hRun : Path c.Step s p t) :
    AllSteps c.Counts s p ∧ ∀ i < c.ncpus, Tallied (calls p) (c.sPercpu t i) := by
  have hStart : ∀ i < c.ncpus, Tallied 0 (c.sPercpu s i) := by
    intro i hi
    exact ⟨0, 0, 0, 0, 0, rfl, le_rfl, le_rfl, hZero i hi⟩
  suffices hFrom : ∀ n, (∀ i < c.ncpus, Tallied n (c.sPercpu s i)) →
      AllSteps c.Counts s p ∧ ∀ i < c.ncpus, Tallied (n + calls p) (c.sPercpu t i) by
    simpa using hFrom 0 hStart
  clear hStart hZero
  induction hRun with
  | nil s => exact fun n hn => ⟨trivial, hn⟩
  | @cons s m u a p hStep _ ih =>
    intro n hn
    obtain ⟨hm, hCounts⟩ := h.step _ _ _ hs hStep
    cases a with
    | none =>
      obtain ⟨hAll, hEnd⟩ := ih hm (n + 1) fun i hi => (hn i hi).counted (hCounts i hi)
      refine ⟨⟨hCounts, hAll⟩, fun i hi => ?_⟩
      have hCalls : n + calls ((none, m) :: p) = n + 1 + calls p := by
        simp [calls]
        omega
      rw [hCalls]
      exact hEnd i hi
    | some a =>
      have hSame : ∀ i < c.ncpus, Tallied n (c.sPercpu m i) := by
        intro i hi
        rw [hCounts i hi]
        exact hn i hi
      obtain ⟨hAll, hEnd⟩ := ih hm n hSame
      refine ⟨⟨hCounts, hAll⟩, fun i hi => ?_⟩
      have hCalls : calls ((some a, m) :: p) = calls p := by simp [calls]
      rw [hCalls]
      exact hEnd i hi

/-! ## Turns -/

/-- The turn of a cpu counts one cycle, for this cpu only. -/
def TurnCounted (i : Nat) (sp sp' : Nat → PercpuStats) : Prop :=
  CycleCounted (sp i) (sp' i) ∧ ∀ j, j ≠ i → sp' j = sp j

theorem turnCounted_update {i : Nat} {sp : Nat → PercpuStats} {counts : PercpuStats}
    (h : CycleCounted (sp i) counts) : TurnCounted i sp (Function.update sp i counts) := by
  constructor
  · rwa [Function.update_self]
  · intro j hj
    rw [Function.update_of_ne hj]

/-- The loop in `cpu_cycle`. -/
theorem after_turns {I : σ → Prop} {sPercpu : σ → Nat → PercpuStats}
    {turn : Nat → EStateM ε σ Bool}
    (hTurn : ∀ i m, I m → After (turn i)
      (fun _ t => I t ∧ TurnCounted i (sPercpu m) (sPercpu t)) (fun _ _ => True) m)
    {l : List Nat} (hl : l.Nodup) {m : σ} (hm : I m) :
    After (l.mapM turn)
      (fun _ t => I t ∧ (∀ i ∈ l, CycleCounted (sPercpu m i) (sPercpu t i)) ∧
        ∀ j, j ∉ l → sPercpu t j = sPercpu m j)
      (fun _ _ => True) m := by
  induction l generalizing m with
  | nil =>
    rw [List.mapM_nil]
    exact ⟨hm, fun i hi => absurd hi List.not_mem_nil, fun _ _ => rfl⟩
  | cons i l ih =>
    obtain ⟨hFirst, hRest⟩ := List.nodup_cons.mp hl
    rw [List.mapM_cons, after_bind]
    refine (hTurn i m hm).mono (fun stopped t ht => ?_) fun _ _ _ => trivial
    obtain ⟨hI, hCounted, hOthers⟩ := ht
    rw [after_bind]
    refine (ih hRest hI).mono (fun _ u hu => ?_) fun _ _ _ => trivial
    obtain ⟨hI', hAll, hApart⟩ := hu
    refine ⟨hI', fun j hj => ?_, fun j hj => ?_⟩
    · rcases List.mem_cons.mp hj with rfl | hMem
      · rw [hApart j hFirst]
        exact hCounted
      · have hNe : j ≠ i := fun h => hFirst (h ▸ hMem)
        rw [← hOthers j hNe]
        exact hAll j hMem
    · obtain ⟨hNe, hNot⟩ := not_or.mp (List.mem_cons.not.mp hj)
      rw [hApart j hNot, hOthers j hNe]

/-- A core whose calls give every cpu one turn. -/
theorem Core.lawful_of_turns {c : Core ε σ ι} {I : σ → Prop} {turn : Nat → EStateM ε σ Bool}
    {billed : List Bool → Bool}
    (hCycle : c.cpuCycle = (List.range c.ncpus).mapM turn >>= fun stopped => pure (billed stopped))
    (hTurn : ∀ i m, I m → After (turn i)
      (fun _ t => I t ∧ TurnCounted i (c.sPercpu m) (c.sPercpu t)) (fun _ _ => True) m)
    (hActs : ∀ m a t, I m → c.valid a → (c.exec a).run m = .ok () t →
      I t ∧ c.sPercpu t = c.sPercpu m) :
    c.Lawful I where
  step m a m' hm hStep := by
    obtain ⟨hValid, hRun⟩ := hStep
    cases a with
    | none =>
      have hCall : After (c.perform none)
          (fun _ t => I t ∧ ∀ i < c.ncpus, CycleCounted (c.sPercpu m i) (c.sPercpu t i))
          (fun _ _ => True) m := by
        rw [Core.perform, hCycle, after_bind, after_bind]
        refine (after_turns hTurn List.nodup_range hm).mono (fun _ t ht => ?_) fun _ _ _ => trivial
        exact ⟨ht.1, fun i hi => ht.2.1 i (List.mem_range.mpr hi)⟩
      obtain ⟨hKept, hCounts⟩ := after_of_run_ok hCall hRun
      exact ⟨hKept, hCounts⟩
    | some a =>
      obtain ⟨hKept, hSame⟩ := hActs m a m' hm (hValid a rfl) hRun
      exact ⟨hKept, fun i _ => congrFun hSame i⟩

/-! ## Runs -/

/-- What there is to say of the counts of a run. The bound is that of the sums in the meter. -/
structure Core.Accounted (c : Core ε σ ι) (s : σ) (p : List (Option ι × σ)) (t : σ) : Prop where
  counts : AllSteps c.Counts s p
  balanced : c.ncpus * calls p < 2 ^ 64 → Balanced c.ncpus (c.sPercpu t)

theorem Core.Lawful.accounted {c : Core ε σ ι} {I : σ → Prop} (h : c.Lawful I) {s t : σ}
    {p : List (Option ι × σ)} (hs : I s) (hZero : ∀ i < c.ncpus, c.sPercpu s i = ⟨0, 0, 0, 0, 0⟩)
    (hRun : Path c.Step s p t) : c.Accounted s p t := by
  obtain ⟨hCounts, hTallied⟩ := h.tallied hs hZero hRun
  exact ⟨hCounts, balanced_of_tallied hTallied⟩

end Sys161.Main
