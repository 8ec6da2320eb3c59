import Mathlib.Logic.Basic

/-! # What a computation that may fail comes to -/

namespace Attempt

set_option autoImplicit false

universe u v w

variable {ε : Type u} {α β : Type v}

/-- A condition on the result, and one on the failure. -/
def Yields (x : Except ε α) (Q : α → Prop) (E : ε → Prop) : Prop :=
  match x with
  | .ok a => Q a
  | .error e => E e

variable {x : Except ε α} {Q Q' : α → Prop} {E E' : ε → Prop}

@[simp] theorem yields_ok {a : α} : Yields (.ok a : Except ε α) Q E ↔ Q a := Iff.rfl

@[simp] theorem yields_error {e : ε} : Yields (.error e : Except ε α) Q E ↔ E e := Iff.rfl

@[simp] theorem yields_pure {a : α} : Yields (pure a : Except ε α) Q E ↔ Q a := Iff.rfl

@[simp] theorem yields_throw {e : ε} : Yields (throw e : Except ε α) Q E ↔ E e := Iff.rfl

@[simp] theorem yields_bind {f : α → Except ε β} {R : β → Prop} :
    Yields (x >>= f) R E ↔ Yields x (fun a => Yields (f a) R E) E := by
  cases x with
  | ok a => rfl
  | error e => rfl

theorem Yields.ite {c : Prop} [Decidable c] {y : Except ε α} (hThen : c → Yields x Q E)
    (hElse : ¬c → Yields y Q E) : Yields (if c then x else y) Q E := by
  split
  · next h => exact hThen h
  · next h => exact hElse h

theorem Yields.mono (h : Yields x Q E) (hQ : ∀ a, Q a → Q' a) (hE : ∀ e, E e → E' e) :
    Yields x Q' E' := by
  cases x with
  | ok a => exact hQ a h
  | error e => exact hE e h

/-- A computation that is run, and something that is seen of its result. -/
theorem exists_ok_of_map {f : α → β} {b : β} (h : x.toOption.map f = some b) :
    ∃ a, f a = b ∧ x = .ok a := by
  cases x with
  | ok a => exact ⟨a, Option.some.inj h, rfl⟩
  | error e => cases h

end Attempt
