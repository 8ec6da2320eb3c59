import Mathlib.Logic.Basic

/-!
# Programs that throw

Rules for programs in `EStateM`. A throw keeps the state it is made in, so a
statement about a program speaks of the state after a value and of the state
after a throw.
-/

namespace Exec

set_option autoImplicit false

variable {ε σ α β : Type}

/-- The program started in `s` ends in a state that `Q` allows for its value, or `E` for its
throw. -/
def After (m : EStateM ε σ α) (Q : α → σ → Prop) (E : ε → σ → Prop) (s : σ) : Prop :=
  match m.run s with
  | .ok a t => Q a t
  | .error e t => E e t

section Simp

variable {Q : α → σ → Prop} {E : ε → σ → Prop} {s : σ}

@[simp] theorem after_pure (a : α) : After (pure a : EStateM ε σ α) Q E s ↔ Q a s := Iff.rfl

@[simp] theorem after_throw (e : ε) : After (throw e : EStateM ε σ α) Q E s ↔ E e s := Iff.rfl

@[simp] theorem after_get {Q : σ → σ → Prop} :
    After (get : EStateM ε σ σ) Q E s ↔ Q s s := Iff.rfl

@[simp] theorem after_set {Q : PUnit → σ → Prop} (t : σ) :
    After (set t : EStateM ε σ PUnit) Q E s ↔ Q ⟨⟩ t := Iff.rfl

@[simp] theorem after_modify {Q : PUnit → σ → Prop} (f : σ → σ) :
    After (modify f : EStateM ε σ PUnit) Q E s ↔ Q ⟨⟩ (f s) := Iff.rfl

@[simp] theorem after_modifyGet (f : σ → α × σ) :
    After (modifyGet f : EStateM ε σ α) Q E s ↔ Q (f s).1 (f s).2 := Iff.rfl

@[simp] theorem after_bind (x : EStateM ε σ β) (f : β → EStateM ε σ α) :
    After (x >>= f) Q E s ↔ After x (fun b t => After (f b) Q E t) E s := by
  unfold After
  rw [EStateM.run_bind]
  cases x.run s <;> rfl

@[simp] theorem after_map (x : EStateM ε σ β) (f : β → α) :
    After (f <$> x) Q E s ↔ After x (fun b t => Q (f b) t) E s := by
  rw [map_eq_pure_bind, after_bind]
  simp only [after_pure]

@[simp] theorem after_ite {c : Prop} [Decidable c] (x y : EStateM ε σ α) :
    After (if c then x else y) Q E s ↔ if c then After x Q E s else After y Q E s := by
  split <;> rfl

@[simp] theorem after_tryCatch (x : EStateM ε σ α) (handle : ε → EStateM ε σ α) :
    After (tryCatch x handle) Q E s ↔ After x Q (fun e t => After (handle e) Q E t) s := by
  unfold After
  have hRun : (tryCatch x handle).run s = match x.run s with
      | .ok a t => .ok a t
      | .error e t => (handle e).run t := by
    show EStateM.tryCatch x handle s = _
    delta EStateM.tryCatch EStateM.run
    dsimp only
    cases x s <;> rfl
  rw [hRun]
  cases x.run s <;> rfl

end Simp

theorem After.mono {m : EStateM ε σ α} {Q Q' : α → σ → Prop} {E E' : ε → σ → Prop} {s : σ}
    (h : After m Q E s) (hQ : ∀ a t, Q a t → Q' a t) (hE : ∀ e t, E e t → E' e t) :
    After m Q' E' s := by
  unfold After at h ⊢
  cases hm : m.run s with
  | ok a t =>
    rw [hm] at h
    exact hQ a t h
  | error e t =>
    rw [hm] at h
    exact hE e t h

theorem after_of_forall {m : EStateM ε σ α} {Q : α → σ → Prop} {E : ε → σ → Prop} {s : σ}
    (hQ : ∀ a t, Q a t) (hE : ∀ e t, E e t) : After m Q E s := by
  unfold After
  cases m.run s with
  | ok a t => exact hQ a t
  | error e t => exact hE e t

theorem After.and {m : EStateM ε σ α} {Q Q' : α → σ → Prop} {E E' : ε → σ → Prop} {s : σ}
    (h : After m Q E s) (h' : After m Q' E' s) :
    After m (fun a t => Q a t ∧ Q' a t) (fun e t => E e t ∧ E' e t) s := by
  unfold After at h h' ⊢
  cases hm : m.run s <;> rw [hm] at h h' <;> exact ⟨h, h'⟩

theorem after_of_run_ok {m : EStateM ε σ α} {Q : α → σ → Prop} {E : ε → σ → Prop} {s t : σ} {a : α}
    (h : After m Q E s) (hm : m.run s = .ok a t) : Q a t := by
  unfold After at h
  rwa [hm] at h

theorem after_of_run_error {m : EStateM ε σ α} {Q : α → σ → Prop} {E : ε → σ → Prop} {s t : σ}
    {e : ε} (h : After m Q E s) (hm : m.run s = .error e t) : E e t := by
  unfold After at h
  rwa [hm] at h

/-- Every program ends one way or the other. -/
theorem exists_end {m : EStateM ε σ α} {Q : α → σ → Prop} {E : ε → σ → Prop} {s : σ} {P : Prop}
    (h : After m Q E s) (hQ : ∀ a t, Q a t → P) (hE : ∀ e t, E e t → P) : P := by
  unfold After at h
  cases hm : m.run s with
  | ok a t =>
    rw [hm] at h
    exact hQ a t h
  | error e t =>
    rw [hm] at h
    exact hE e t h

/-- A program that does not throw has an end. -/
theorem exists_of_after {m : EStateM ε σ α} {Q : α → σ → Prop} {s : σ}
    (h : After m Q (fun _ _ => False) s) : ∃ a t, m.run s = .ok a t ∧ Q a t := by
  unfold After at h
  cases hm : m.run s with
  | ok a t =>
    rw [hm] at h
    exact ⟨a, t, rfl, h⟩
  | error e t =>
    rw [hm] at h
    exact h.elim

/-- The run itself may be named in what is shown of its end. -/
theorem after_run {m : EStateM ε σ α} {Q : α → σ → Prop} {E : ε → σ → Prop} {s : σ}
    (h : After m Q E s) :
    After m (fun a t => Q a t ∧ m.run s = .ok a t) (fun e t => E e t ∧ m.run s = .error e t) s := by
  unfold After at h ⊢
  cases hm : m.run s <;> rw [hm] at h <;> exact ⟨h, rfl⟩

theorem after_ok_iff {m : EStateM ε σ α} {Q : α → σ → Prop} {E : ε → σ → Prop} {s t : σ} {a : α}
    (hm : m.run s = .ok a t) : After m Q E s ↔ Q a t := by
  unfold After
  rw [hm]

theorem after_error_iff {m : EStateM ε σ α} {Q : α → σ → Prop} {E : ε → σ → Prop} {s t : σ} {e : ε}
    (hm : m.run s = .error e t) : After m Q E s ↔ E e t := by
  unfold After
  rw [hm]

/-- Two properties that agree at the end of the run. -/
theorem after_congr {m : EStateM ε σ α} {Q Q' : α → σ → Prop} {E E' : ε → σ → Prop} {s : σ}
    (h : After m (fun a t => Q a t ↔ Q' a t) (fun e t => E e t ↔ E' e t) s) :
    After m Q E s ↔ After m Q' E' s := by
  unfold After at h ⊢
  cases hm : m.run s <;> rw [hm] at h <;> exact h

/-- Every run ends in one state, so that what is denied of its end is denied there. -/
theorem after_iff_not {m : EStateM ε σ α} {Q Q' : α → σ → Prop} {E E' : ε → σ → Prop} {s : σ}
    (hQ : ∀ a t, m.run s = .ok a t → (Q a t ↔ ¬Q' a t))
    (hE : ∀ e t, m.run s = .error e t → (E e t ↔ ¬E' e t)) :
    After m Q E s ↔ ¬After m Q' E' s := by
  unfold After
  cases hm : m.run s with
  | ok a t => exact hQ a t hm
  | error e t => exact hE e t hm

/-! ## Programs that keep a property -/

/-- From a state with `I` the program ends in one with `I`, or throws in one with `E`. -/
def Keeps (I : σ → Prop) (E : ε → σ → Prop) (m : EStateM ε σ α) : Prop :=
  ∀ s, I s → After m (fun _ => I) E s

section Keeps

variable {I : σ → Prop} {E : ε → σ → Prop}

theorem Keeps.pure (a : α) : Keeps I E (pure a : EStateM ε σ α) := fun _ hs => hs

theorem Keeps.bind {x : EStateM ε σ β} {f : β → EStateM ε σ α} (hx : Keeps I E x)
    (hf : ∀ b, Keeps I E (f b)) : Keeps I E (x >>= f) := by
  intro s hs
  rw [after_bind]
  exact (hx s hs).mono (fun b t ht => hf b t ht) fun _ _ ht => ht

theorem Keeps.map {x : EStateM ε σ β} {f : β → α} (hx : Keeps I E x) : Keeps I E (f <$> x) := by
  intro s hs
  rw [after_map]
  exact hx s hs

theorem Keeps.modify {f : σ → σ} (hf : ∀ s, I s → I (f s)) :
    Keeps I E (modify f : EStateM ε σ PUnit) := hf

theorem Keeps.error {x : EStateM ε σ α} {E' : ε → σ → Prop} (hx : Keeps I E x)
    (hE : ∀ e s, E e s → E' e s) : Keeps I E' x :=
  fun s hs => (hx s hs).mono (fun _ _ ht => ht) hE

theorem Keeps.throw {e : ε} (he : ∀ s, I s → E e s) : Keeps I E (throw e : EStateM ε σ α) := he

theorem Keeps.get : Keeps I E (get : EStateM ε σ σ) := fun _ hs => hs

/-- What is read first may be used to tell which program follows. -/
theorem Keeps.get_bind {f : σ → EStateM ε σ α}
    (hf : ∀ s, I s → After (f s) (fun _ => I) E s) : Keeps I E (MonadState.get >>= f) := by
  intro s hs
  rw [after_bind]
  exact hf s hs

theorem Keeps.ite {c : Prop} [Decidable c] {x y : EStateM ε σ α} (hx : c → Keeps I E x)
    (hy : ¬c → Keeps I E y) : Keeps I E (if c then x else y) := by
  split
  · exact hx ‹_›
  · exact hy ‹_›

theorem Keeps.tryCatch {x : EStateM ε σ α} {handle : ε → EStateM ε σ α} {E' : ε → σ → Prop}
    (hx : Keeps I E' x) (hh : ∀ e s, E' e s → After (handle e) (fun _ => I) E s) :
    Keeps I E (tryCatch x handle) := by
  intro s hs
  rw [after_tryCatch]
  exact (hx s hs).mono (fun _ _ ht => ht) hh

theorem Keeps.forM {γ : Type} {f : γ → EStateM ε σ PUnit} {l : List γ}
    (hf : ∀ x ∈ l, Keeps I E (f x)) : Keeps I E (l.forM f) := by
  induction l with
  | nil => exact Keeps.pure _
  | cons x l ih =>
    rw [List.forM_eq_forM, List.forM_cons]
    exact Keeps.bind (hf x (by simp)) fun _ => ih fun y hy => hf y (by simp [hy])

theorem Keeps.mapM {γ : Type} {f : γ → EStateM ε σ α} {l : List γ}
    (hf : ∀ x ∈ l, Keeps I E (f x)) : Keeps I E (l.mapM f) := by
  induction l with
  | nil => exact Keeps.pure _
  | cons x l ih =>
    rw [List.mapM_cons]
    exact Keeps.bind (hf x (by simp)) fun _ =>
      Keeps.bind (ih fun y hy => hf y (by simp [hy])) fun _ => Keeps.pure _

end Keeps

/-! ## Outcomes -/

section Outcome

variable {m : EStateM ε σ α} {s : σ}

/-- The value or the throw that a run ends with. -/
def outcome (m : EStateM ε σ α) (s : σ) : Except ε α :=
  match m.run s with
  | .ok a _ => .ok a
  | .error e _ => .error e

/-- The state that a run ends in, one way or the other. -/
def final (m : EStateM ε σ α) (s : σ) : σ :=
  match m.run s with
  | .ok _ t => t
  | .error _ t => t

/-- An outcome where some of the throws only count as a refusal. -/
def refusing (refused : ε → Bool) : Except ε α → Except ε (Option α)
  | .ok a => .ok (some a)
  | .error e => if refused e then .ok none else .error e

theorem after_iff_outcome {Q : α → σ → Prop} {E : ε → σ → Prop} :
    After m Q E s ↔ match outcome m s with
      | .ok a => Q a (final m s)
      | .error e => E e (final m s) := by
  unfold After outcome final
  cases m.run s <;> rfl

theorem run_of_outcome {x : EStateM ε σ α} {a : α} {t : σ} (h : outcome x s = .ok a)
    (hFinal : final x s = t) : x.run s = .ok a t := by
  unfold outcome at h
  unfold final at hFinal
  cases hx : x.run s <;> rw [hx] at h hFinal <;> cases h
  rw [← hFinal]

@[simp] theorem outcome_pure (a : α) : outcome (pure a : EStateM ε σ α) s = .ok a := rfl

@[simp] theorem outcome_throw (e : ε) : outcome (throw e : EStateM ε σ α) s = .error e := rfl

@[simp] theorem outcome_bind (x : EStateM ε σ β) (f : β → EStateM ε σ α) :
    outcome (x >>= f) s = match outcome x s with
      | .ok b => outcome (f b) (final x s)
      | .error e => .error e := by
  unfold outcome final
  rw [EStateM.run_bind]
  cases x.run s <;> rfl

@[simp] theorem outcome_get : outcome (get : EStateM ε σ σ) s = .ok s := rfl

@[simp] theorem final_pure (a : α) : final (pure a : EStateM ε σ α) s = s := rfl

@[simp] theorem final_throw (e : ε) : final (throw e : EStateM ε σ α) s = s := rfl

@[simp] theorem final_get : final (get : EStateM ε σ σ) s = s := rfl

@[simp] theorem final_bind (x : EStateM ε σ β) (f : β → EStateM ε σ α) :
    final (x >>= f) s = match outcome x s with
      | .ok b => final (f b) (final x s)
      | .error _ => final x s := by
  unfold outcome final
  rw [EStateM.run_bind]
  cases x.run s <;> rfl

end Outcome

end Exec
