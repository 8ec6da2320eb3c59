import Mathlib.Data.BitVec
import Sys161.Lib.Runs

/-!
# Counting loops on machine words

`while (t < bound) t += step;` and `while (t >= m) { t -= m; n++; }`: when they
end without wrapping around, and what they come to.
-/

namespace Loops

open Runs

universe u

section Clean

variable {σ : Type u} {turn good : σ → σ → Prop} {s s' : σ}

/-- The loop ends, and each of its turns is good. -/
structure Clean (turn good : σ → σ → Prop) (s : σ) : Prop where
  ends : ¬ Diverges turn s
  turns : ∀ t t', Relation.ReflTransGen turn s t → turn t t' → good t t'

theorem Clean.of_rank {P : σ → Prop} (rank : σ → Nat)
    (hTurn : ∀ t t', P t → turn t t' → P t' ∧ good t t' ∧ rank t' < rank t) (hs : P s) :
    Clean turn good s := by
  constructor
  · apply not_diverges_of_rank (R := fun n t => P t ∧ rank t = n) _ ⟨hs, rfl⟩
    rintro _ t t' ⟨ht, rfl⟩ h
    obtain ⟨ht', -, hLess⟩ := hTurn t t' ht h
    exact ⟨rank t', hLess, ht', rfl⟩
  · have hReached : ∀ t, Relation.ReflTransGen turn s t → P t := by
      intro t hReach
      induction hReach with
      | refl => exact hs
      | tail _ hStep ih => exact (hTurn _ _ ih hStep).1
    exact fun t t' hReach h => (hTurn t t' (hReached t hReach) h).2.1

theorem Clean.next (h : Clean turn good s) (hTurn : turn s s') :
    good s s' ∧ Clean turn good s' := by
  refine ⟨h.turns s s' .refl hTurn, fun hLoop => h.ends (hLoop.of_turn hTurn), ?_⟩
  intro t t' hReach hStep
  exact h.turns t t' (.head hTurn hReach) hStep

end Clean

/-! ## Up to a bound -/

section Up

variable {w : Nat}

def UpTurn (bound step t t' : BitVec w) : Prop := t < bound ∧ t' = t + step

/-- The first of `t`, `t + step` and so on that is not below the bound. -/
def firstFrom (t step bound : Nat) : Nat := t + step * ((bound - t + (step - 1)) / step)

theorem firstFrom_of_le {t step bound : Nat} (hStep : 0 < step) (h : bound ≤ t) :
    firstFrom t step bound = t := by
  have hNone : (bound - t + (step - 1)) / step = 0 := Nat.div_eq_of_lt (by omega)
  rw [firstFrom, hNone, Nat.mul_zero, Nat.add_zero]

theorem firstFrom_of_lt {t step bound : Nat} (hStep : 0 < step) (h : t < bound) :
    firstFrom t step bound = firstFrom (t + step) step bound := by
  have hTurns : (bound - t + (step - 1)) / step = (bound - (t + step) + (step - 1)) / step + 1 := by
    by_cases hLast : bound ≤ t + step
    · have hNone : (bound - (t + step) + (step - 1)) / step = 0 := Nat.div_eq_of_lt (by omega)
      rw [hNone]
      exact Nat.div_eq_of_lt_le (by omega) (by omega)
    · have hSplit : bound - t + (step - 1) = bound - (t + step) + (step - 1) + step := by omega
      rw [hSplit, Nat.add_div_right _ hStep]
  rw [firstFrom, firstFrom, hTurns, Nat.mul_add, Nat.mul_one]
  omega

theorem le_firstFrom {t step bound : Nat} (hStep : 0 < step) : bound ≤ firstFrom t step bound := by
  have hDiv := Nat.div_add_mod (bound - t + (step - 1)) step
  have hMod := Nat.mod_lt (bound - t + (step - 1)) hStep
  rw [firstFrom]
  omega

theorem firstFrom_lt {t step bound : Nat} (hStep : 0 < step) :
    firstFrom t step bound < max (bound + step) (t + 1) := by
  have hDiv := Nat.div_add_mod (bound - t + (step - 1)) step
  by_cases h : bound ≤ t
  · rw [firstFrom_of_le hStep h]
    omega
  · rw [firstFrom]
    omega

theorem add_toNat {bound step t : BitVec w} (hRoom : bound.toNat + step.toNat ≤ 2 ^ w)
    (h : t < bound) : (t + step).toNat = t.toNat + step.toNat := by
  rw [BitVec.lt_def] at h
  rw [BitVec.toNat_add]
  exact Nat.mod_eq_of_lt (by omega)

/-- With room for a step above the bound, no turn wraps around. -/
theorem clean_up {bound step : BitVec w} (hStep : 0 < step.toNat)
    (hRoom : bound.toNat + step.toNat ≤ 2 ^ w) (t : BitVec w) :
    Clean (UpTurn bound step) (fun t t' => t'.toNat = t.toNat + step.toNat) t := by
  refine Clean.of_rank (P := fun _ => True) (fun t => bound.toNat - t.toNat) ?_ trivial
  rintro t t' - ⟨hLt, rfl⟩
  have hNext := add_toNat hRoom hLt
  have hLt' := BitVec.lt_def.mp hLt
  exact ⟨trivial, hNext, by omega⟩

end Up

/-! ## A carry -/

section Carry

variable {v w : Nat}

def CarryTurn (m : BitVec w) (p p' : BitVec v × BitVec w) : Prop :=
  m ≤ p.2 ∧ p' = (p.1 + 1, p.2 - m)

theorem succ_toNat (n : BitVec v) : (n + 1).toNat = (n.toNat + 1) % 2 ^ v := by
  have hOne : (1 : BitVec v).toNat = 1 % 2 ^ v := BitVec.toNat_ofNat 1 v
  rw [BitVec.toNat_add, hOne, Nat.add_mod_mod]

/-- No carry wraps around just where the sum of all fits. -/
theorem clean_carry_iff {m : BitVec w} (hm : 0 < m.toNat) (p : BitVec v × BitVec w) :
    Clean (CarryTurn m) (fun p p' => p'.1.toNat = p.1.toNat + 1) p ↔
      p.1.toNat + p.2.toNat / m.toNat < 2 ^ v := by
  have hTurn (p p' : BitVec v × BitVec w) (h : CarryTurn m p p') :
      p'.2.toNat + m.toNat = p.2.toNat ∧ p'.2.toNat / m.toNat + 1 = p.2.toNat / m.toNat := by
    obtain ⟨hLe, rfl⟩ := h
    have hSub := BitVec.toNat_sub_of_le hLe
    rw [BitVec.le_def] at hLe
    refine ⟨by rw [hSub]; omega, ?_⟩
    rw [hSub, Nat.div_eq_sub_div hm hLe]
  constructor
  · intro h
    induction hn : p.2.toNat using Nat.strongRecOn generalizing p with
    | ind n ih =>
      by_cases hMore : m ≤ p.2
      · have hStep : CarryTurn m p (p.1 + 1, p.2 - m) := ⟨hMore, rfl⟩
        obtain ⟨hSucc, hNext⟩ := h.next hStep
        obtain ⟨hLess, hDiv⟩ := hTurn _ _ hStep
        have hRest := ih _ (by omega) _ hNext rfl
        dsimp only at hSucc hRest hDiv
        rw [hSucc] at hRest
        rw [← hn]
        omega
      · rw [BitVec.not_le, BitVec.lt_def] at hMore
        rw [← hn, Nat.div_eq_of_lt hMore]
        exact p.1.isLt
  · intro h
    refine Clean.of_rank (P := fun p => p.1.toNat + p.2.toNat / m.toNat < 2 ^ v)
      (fun p => p.2.toNat) ?_ h
    intro p p' hFits hStep
    obtain ⟨hLess, hDiv⟩ := hTurn p p' hStep
    obtain ⟨-, rfl⟩ := hStep
    dsimp only at hLess hDiv ⊢
    rw [← hDiv] at hFits
    generalize (p.2 - m).toNat / m.toNat = carries at hFits ⊢
    have hSucc : (p.1 + 1).toNat = p.1.toNat + 1 := by
      rw [succ_toNat]
      exact Nat.mod_eq_of_lt (by omega)
    refine ⟨by omega, hSucc, ?_⟩
    rw [← hLess]
    exact Nat.lt_add_of_pos_right hm

end Carry

end Loops
