import Sys161.Lib.Exec

/-!
# Programs that do not see a part of the state

Two runs of such a program, from states that differ in what it does not see, go
the same way. `R` relates the states that look the same to it.
-/

namespace Exec

set_option autoImplicit false

variable {ε σ α β γ : Type} {R : σ → σ → Prop}

/-- From states that `R` relates the program comes to the same end, in states that `R` relates. -/
def Blind (R : σ → σ → Prop) (x : EStateM ε σ α) : Prop :=
  ∀ s t, R s t → After x (fun a s' => ∃ t', x.run t = .ok a t' ∧ R s' t')
    (fun e s' => ∃ t', x.run t = .error e t' ∧ R s' t') s

theorem Blind.run_ok {x : EStateM ε σ α} (hx : Blind R x) {s t s' : σ} {a : α} (h : R s t)
    (hRun : x.run s = .ok a s') : ∃ t', x.run t = .ok a t' ∧ R s' t' :=
  after_of_run_ok (hx s t h) hRun

/-- What is shown of a run of a program names the end of that run. -/
theorem run_of_after {x : EStateM ε σ α} {s : σ} {r : EStateM.Result ε σ α}
    (h : After x (fun a t => r = .ok a t) (fun e t => r = .error e t) s) : x.run s = r := by
  unfold After at h
  cases hx : x.run s with
  | ok a t =>
    rw [hx] at h
    exact Eq.symm h
  | error e t =>
    rw [hx] at h
    exact Eq.symm h

theorem Blind.pure (a : α) : Blind R (pure a : EStateM ε σ α) :=
  fun _ t h => ⟨t, rfl, h⟩

theorem Blind.throw (e : ε) : Blind R (throw e : EStateM ε σ α) :=
  fun _ t h => ⟨t, rfl, h⟩

theorem Blind.modify {f : σ → σ} (hf : ∀ s t, R s t → R (f s) (f t)) :
    Blind R (modify f : EStateM ε σ PUnit) :=
  fun s t h => ⟨f t, rfl, hf s t h⟩

theorem Blind.bind {x : EStateM ε σ β} {f : β → EStateM ε σ α} (hx : Blind R x)
    (hf : ∀ b, Blind R (f b)) : Blind R (x >>= f) := by
  intro s t h
  rw [after_bind]
  refine (hx s t h).mono ?_ ?_
  · rintro b s' ⟨t', hRun, h'⟩
    have hRest : (x >>= f).run t = (f b).run t' := by rw [EStateM.run_bind, hRun]
    rw [hRest]
    exact hf b s' t' h'
  · rintro e s' ⟨t', hRun, h'⟩
    exact ⟨t', by rw [EStateM.run_bind, hRun], h'⟩

/-- What is read of the state is the same in both. -/
theorem Blind.get_bind {f : σ → EStateM ε σ α} (hSame : ∀ s t, R s t → f s = f t)
    (hf : ∀ s, Blind R (f s)) : Blind R (MonadState.get >>= f) := by
  intro s t h
  rw [after_bind, after_get]
  have hRest : (MonadState.get >>= f : EStateM ε σ α).run t = (f s).run t := by
    rw [hSame s t h]
    rfl
  rw [hRest]
  exact hf s s t h

theorem Blind.ite {c : Prop} [Decidable c] {x y : EStateM ε σ α} (hx : c → Blind R x)
    (hy : ¬c → Blind R y) : Blind R (if c then x else y) := by
  split
  · exact hx ‹_›
  · exact hy ‹_›

theorem Blind.tryCatch {x : EStateM ε σ α} {handle : ε → EStateM ε σ α} (hx : Blind R x)
    (hHandle : ∀ e, Blind R (handle e)) : Blind R (tryCatch x handle) := by
  intro s t h
  rw [after_tryCatch]
  refine (hx s t h).mono ?_ ?_
  · rintro a s' ⟨t', hRun, h'⟩
    refine ⟨t', run_of_after ?_, h'⟩
    rw [after_tryCatch, after_ok_iff hRun]
  · rintro e s' ⟨t', hRun, h'⟩
    have hRest : (MonadExcept.tryCatch x handle).run t = (handle e).run t' := by
      refine run_of_after ?_
      rw [after_tryCatch, after_error_iff hRun]
      exact (after_run (after_of_forall (fun _ _ => trivial) fun _ _ => trivial)).mono
        (fun _ _ hEnd => hEnd.2) fun _ _ hEnd => hEnd.2
    rw [hRest]
    exact hHandle e s' t' h'

theorem Blind.forM {f : γ → EStateM ε σ PUnit} {l : List γ} (hf : ∀ x ∈ l, Blind R (f x)) :
    Blind R (l.forM f) := by
  induction l with
  | nil => exact Blind.pure _
  | cons x l ih =>
    rw [List.forM_eq_forM, List.forM_cons]
    exact Blind.bind (hf x (by simp)) fun _ => ih fun y hy => hf y (by simp [hy])

end Exec
