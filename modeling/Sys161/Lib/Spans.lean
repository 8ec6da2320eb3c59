import Mathlib.Algebra.BigOperators.Group.List.Basic
import Mathlib.Algebra.GroupWithZero.Nat
import Mathlib.Data.List.GetD

/-!
# Places in spans laid end to end

The places of a list of spans are numbered through. A number is located by
going over the spans, with what the spans passed over hold taken from it.
-/

namespace Spans

set_option autoImplicit false

/-- The span of a number and the offset in it. -/
def locate : List Nat → Nat → Option (Nat × Nat)
  | [], _ => none
  | count :: rest, n =>
    if n < count then some (0, n) else (locate rest (n - count)).map fun p => (p.1 + 1, p.2)

def address (l : List Nat) (i offset : Nat) : Nat := (l.take i).sum + offset

variable {l : List Nat} {n i offset : Nat}

theorem locate_eq_some_iff :
    locate l n = some (i, offset) ↔ offset < l.getD i 0 ∧ address l i offset = n := by
  induction l generalizing n i with
  | nil => simp [locate]
  | cons count rest ih =>
    rw [locate]
    cases i with
    | zero =>
      split
      · next hHere =>
        simp only [Option.some.injEq, Prod.mk.injEq, true_and, List.getD_cons_zero, address,
          List.take_zero, List.sum_nil, Nat.zero_add]
        constructor
        · rintro rfl
          exact ⟨hHere, rfl⟩
        · rintro ⟨-, rfl⟩
          rfl
      · next hLater =>
        simp only [List.getD_cons_zero, address, List.take_zero, List.sum_nil, Nat.zero_add]
        constructor
        · intro h
          obtain ⟨p, -, hp⟩ := Option.map_eq_some_iff.mp h
          cases hp
        · rintro ⟨hIn, rfl⟩
          exact absurd hIn hLater
    | succ i =>
      have hAddress : address (count :: rest) (i + 1) offset = count + address rest i offset := by
        simp only [address, List.take_succ_cons, List.sum_cons, Nat.add_assoc]
      rw [hAddress, List.getD_cons_succ]
      split
      · next hHere =>
        constructor
        · intro h
          cases h
        · rintro ⟨-, hn⟩
          omega
      · next hLater =>
        have hNext := ih (n := n - count) (i := i)
        constructor
        · intro h
          obtain ⟨p, hp, hEq⟩ := Option.map_eq_some_iff.mp h
          cases hEq
          obtain ⟨hIn, hn⟩ := hNext.mp hp
          exact ⟨hIn, by omega⟩
        · rintro ⟨hIn, hn⟩
          exact Option.map_eq_some_iff.mpr ⟨_, hNext.mpr ⟨hIn, by omega⟩, rfl⟩

theorem locate_address (h : offset < l.getD i 0) :
    locate l (address l i offset) = some (i, offset) :=
  locate_eq_some_iff.mpr ⟨h, rfl⟩

theorem exists_locate (h : n < l.sum) : ∃ p, locate l n = some p := by
  induction l generalizing n with
  | nil => cases h
  | cons count rest ih =>
    rw [locate]
    split
    · exact ⟨_, rfl⟩
    · rw [List.sum_cons] at h
      obtain ⟨p, hp⟩ := ih (n := n - count) (by omega)
      exact ⟨_, Option.map_eq_some_iff.mpr ⟨p, hp, rfl⟩⟩

theorem lt_length_of_lt_getD (h : offset < l.getD i 0) : i < l.length := by
  rcases Nat.lt_or_ge i l.length with hIn | hOut
  · exact hIn
  · rw [List.getD_eq_default _ _ hOut] at h
    cases h

theorem address_succ (h : i < l.length) : address l (i + 1) 0 = address l i (l.getD i 0) := by
  rw [address, address, List.sum_take_succ _ _ h, List.getD_eq_getElem _ _ h, Nat.add_zero]

theorem address_lt_sum (h : offset < l.getD i 0) : address l i offset < l.sum := by
  have hIn := lt_length_of_lt_getD h
  have hEnd := address_succ hIn
  have hAll := List.sum_take_add_sum_drop l (i + 1)
  simp only [address] at hEnd ⊢
  omega

/-- The next number is at the next offset, or at the start of the next span. -/
theorem locate_succ (hPos : ∀ count ∈ l, 0 < count) (h : locate l n = some (i, offset))
    (hNext : n + 1 < l.sum) :
    offset + 1 < l.getD i 0 ∧ locate l (n + 1) = some (i, offset + 1) ∨
      offset + 1 = l.getD i 0 ∧ i + 1 < l.length ∧ locate l (n + 1) = some (i + 1, 0) := by
  obtain ⟨hOn, rfl⟩ := locate_eq_some_iff.mp h
  have hIn := lt_length_of_lt_getD hOn
  have hStart := address_succ hIn
  rcases Nat.lt_or_ge (offset + 1) (l.getD i 0) with hMore | hLast
  · exact .inl ⟨hMore, locate_eq_some_iff.mpr ⟨hMore, rfl⟩⟩
  · right
    have hEq : offset + 1 = l.getD i 0 := Nat.le_antisymm hOn hLast
    have hAddress : address l (i + 1) 0 = address l i offset + 1 := by
      rw [hStart, ← hEq]
      rfl
    have hAnother : i + 1 < l.length := by
      rcases Nat.lt_or_ge (i + 1) l.length with hYes | hNo
      · exact hYes
      · rw [address, List.take_of_length_le hNo] at hAddress
        omega
    refine ⟨hEq, hAnother, locate_eq_some_iff.mpr ⟨?_, hAddress⟩⟩
    rw [List.getD_eq_getElem _ _ hAnother]
    exact hPos _ (List.getElem_mem hAnother)

end Spans
