import Mathlib.Data.BitVec
import Mathlib.Logic.Function.Iterate

/-!
# Counters that start over at a match

A counter counts up and starts over where it meets a limit, and a flag says
that it has. The comparison is for equality, so that a counter that is at its
limit goes all the way around.
-/

namespace MatchCounter

set_option autoImplicit false

variable {w : Nat}

structure Counter (w : Nat) where
  count : BitVec w
  met : Bool

namespace Counter

def next (limit : BitVec w) (c : Counter w) : Counter w :=
  if c.count + 1 = limit then ⟨0, true⟩ else ⟨c.count + 1, c.met⟩

variable {limit : BitVec w} {c : Counter w}

theorem toNat_add_one (h : c.count < limit) : (c.count + 1).toNat = c.count.toNat + 1 := by
  have hLt := limit.isLt
  rw [BitVec.lt_def] at h
  change (c.count + BitVec.ofNat w 1).toNat = _
  rw [BitVec.toNat_add, BitVec.toNat_ofNat, Nat.add_mod_mod]
  exact Nat.mod_eq_of_lt (by omega)

theorem meets_iff (h : c.count < limit) : c.count + 1 = limit ↔ c.count.toNat + 1 = limit.toNat := by
  rw [← toNat_add_one h, BitVec.toNat_inj]

theorem toNat_next (h : c.count < limit) :
    (c.next limit).count.toNat = (c.count.toNat + 1) % limit.toNat := by
  unfold next
  split
  · rename_i hMeets
    rw [(meets_iff h).mp hMeets, Nat.mod_self]
    exact BitVec.toNat_zero
  · rename_i hMeets
    rw [meets_iff h] at hMeets
    rw [BitVec.lt_def] at h
    rw [toNat_add_one (BitVec.lt_def.mpr h), Nat.mod_eq_of_lt (by omega)]

theorem next_lt (h : c.count < limit) : (c.next limit).count < limit := by
  rw [BitVec.lt_def] at h ⊢
  rw [toNat_next (BitVec.lt_def.mpr h)]
  exact Nat.mod_lt _ (by omega)

theorem iterate_next_lt (h : c.count < limit) (n : Nat) : ((next limit)^[n] c).count < limit := by
  induction n with
  | zero => exact h
  | succ n ih =>
    rw [Function.iterate_succ_apply']
    exact next_lt ih

/-- Below its limit the counter counts modulo the limit. -/
theorem toNat_iterate_next (h : c.count < limit) (n : Nat) :
    ((next limit)^[n] c).count.toNat = (c.count.toNat + n) % limit.toNat := by
  induction n with
  | zero =>
    rw [BitVec.lt_def] at h
    exact (Nat.mod_eq_of_lt h).symm
  | succ n ih =>
    rw [Function.iterate_succ_apply', toNat_next (iterate_next_lt h n), ih, Nat.mod_add_mod]
    rfl

theorem mod_add_one_eq_iff {a l : Nat} (hl : 0 < l) : a % l + 1 = l ↔ l ∣ a + 1 := by
  have hSplit : a + 1 = l * (a / l) + (a % l + 1) := by rw [← Nat.add_assoc, Nat.div_add_mod]
  have hLt := Nat.mod_lt a hl
  rw [hSplit, Nat.dvd_add_right (Nat.dvd_mul_right l (a / l))]
  constructor
  · intro hEq
    exact dvd_of_eq hEq.symm
  · intro hDvd
    have hLe := Nat.le_of_dvd (Nat.succ_pos _) hDvd
    omega

/-- It meets its limit again and again, at each multiple of it. -/
theorem iterate_meets_iff (h : c.count < limit) (n : Nat) :
    ((next limit)^[n] c).count + 1 = limit ↔ limit.toNat ∣ c.count.toNat + n + 1 := by
  rw [meets_iff (iterate_next_lt h n), toNat_iterate_next h]
  rw [BitVec.lt_def] at h
  exact mod_add_one_eq_iff (by omega)

theorem met_next (c : Counter w) : (c.next limit).met = (c.met || decide (c.count + 1 = limit)) := by
  unfold next
  split
  · rename_i hMeets
    rw [decide_eq_true hMeets, Bool.or_true]
  · rename_i hMeets
    rw [decide_eq_false hMeets, Bool.or_false]

/-- The flag is there when the limit has been counted up to. -/
theorem met_iterate_next (h : c.count < limit) (n : Nat) :
    ((next limit)^[n] c).met = (c.met || decide (limit.toNat ≤ c.count.toNat + n)) := by
  rw [BitVec.lt_def] at h
  induction n with
  | zero => rw [Function.iterate_zero_apply, decide_eq_false (by omega), Bool.or_false]
  | succ n ih =>
    rw [Function.iterate_succ_apply', met_next, ih, Bool.or_assoc,
      Bool.decide_congr (iterate_meets_iff (BitVec.lt_def.mpr h) n), ← Bool.decide_or]
    congr 1
    refine Bool.decide_congr ⟨fun hMeets => ?_, fun hLe => ?_⟩
    · obtain hLe | hDvd := hMeets
      · omega
      · exact Nat.le_of_dvd (by omega) hDvd
    · by_cases hEarlier : limit.toNat ≤ c.count.toNat + n
      · exact .inl hEarlier
      · have hEq : limit.toNat = c.count.toNat + n + 1 := by omega
        exact .inr (hEq ▸ dvd_rfl)

/-- From the limit itself it takes a whole round to come to it. -/
theorem iterate_next_of_eq (h : c.count = limit) {n : Nat} (hn : n < 2 ^ w) :
    (next limit)^[n] c = ⟨limit + BitVec.ofNat w n, c.met⟩ := by
  induction n with
  | zero =>
    rw [Function.iterate_zero_apply, ← h]
    exact congrArg (Counter.mk · c.met) (BitVec.add_zero c.count).symm
  | succ n ih =>
    have hStep : limit + BitVec.ofNat w n + 1 = limit + BitVec.ofNat w (n + 1) := by
      rw [BitVec.add_assoc, BitVec.ofNat_add]
      rfl
    have hNot : limit + BitVec.ofNat w (n + 1) ≠ limit := by
      intro hEq
      have hZero : (BitVec.ofNat w (n + 1)).toNat = (0#w).toNat :=
        congrArg BitVec.toNat (BitVec.add_right_eq_self.mp hEq)
      rw [BitVec.toNat_ofNat, Nat.mod_eq_of_lt hn, BitVec.toNat_ofNat, Nat.zero_mod] at hZero
      omega
    rw [Function.iterate_succ_apply', ih (by omega), next, hStep, if_neg hNot]

end Counter

end MatchCounter
