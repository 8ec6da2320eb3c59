import Mathlib.Data.List.Forall2
import Mathlib.Logic.Relation

/-!
# Runs of a labelled step relation

A run is a chain of labelled steps. Invariants are carried along it by one
induction, either from a condition met by every step, or exactly: where a step
outside the condition destroys the invariant, the two hold together.
-/

namespace Runs

universe u v

variable {σ : Type u} {ι : Type v}

/-- The labels taken and the states entered, in order. -/
inductive Path (step : σ → ι → σ → Prop) : σ → List (ι × σ) → σ → Prop where
  | nil (s : σ) : Path step s [] s
  | cons {s s' t : σ} {i : ι} {p : List (ι × σ)} :
      step s i s' → Path step s' p t → Path step s ((i, s') :: p) t

def AllSteps (meets : σ → ι → σ → Prop) : σ → List (ι × σ) → Prop
  | _, [] => True
  | s, (i, s') :: p => meets s i s' ∧ AllSteps meets s' p

def AllStates (P : σ → Prop) (s : σ) (p : List (ι × σ)) : Prop :=
  P s ∧ ∀ e ∈ p, P e.2

@[simp] theorem allSteps_nil (meets : σ → ι → σ → Prop) (s : σ) :
    AllSteps meets s ([] : List (ι × σ)) := trivial

@[simp] theorem allSteps_cons (meets : σ → ι → σ → Prop) (s s' : σ) (i : ι) (p : List (ι × σ)) :
    AllSteps meets s ((i, s') :: p) ↔ meets s i s' ∧ AllSteps meets s' p := Iff.rfl

@[simp] theorem allStates_nil (P : σ → Prop) (s : σ) :
    AllStates P s ([] : List (ι × σ)) ↔ P s := by
  simp [AllStates]

@[simp] theorem allStates_cons (P : σ → Prop) (s s' : σ) (i : ι) (p : List (ι × σ)) :
    AllStates P s ((i, s') :: p) ↔ P s ∧ AllStates P s' p := by
  simp [AllStates]

theorem AllSteps.and {C D : σ → ι → σ → Prop} {s : σ} {p : List (ι × σ)} (hC : AllSteps C s p)
    (hD : AllSteps D s p) : AllSteps (fun s i s' => C s i s' ∧ D s i s') s p := by
  induction p generalizing s with
  | nil => trivial
  | cons e p ih => exact ⟨⟨hC.1, hD.1⟩, ih hC.2 hD.2⟩

theorem AllSteps.mono {C D : σ → ι → σ → Prop} (hCD : ∀ s i s', C s i s' → D s i s') {s : σ}
    {p : List (ι × σ)} (hC : AllSteps C s p) : AllSteps D s p := by
  induction p generalizing s with
  | nil => trivial
  | cons e p ih => exact ⟨hCD _ _ _ hC.1, ih hC.2⟩

/-- What every step with one of the labels of a run meets. -/
theorem AllSteps.of_labels {C : σ → ι → σ → Prop} {s : σ} {p : List (ι × σ)}
    (h : ∀ s i s', i ∈ p.map Prod.fst → C s i s') : AllSteps C s p := by
  induction p generalizing s with
  | nil => trivial
  | cons e p ih =>
    constructor
    · exact h _ _ _ (List.mem_cons_self ..)
    · exact ih fun s i s' hi => h s i s' (List.mem_cons_of_mem _ hi)

theorem AllSteps.of_forall {C : σ → ι → σ → Prop} (h : ∀ s i s', C s i s') (s : σ)
    (p : List (ι × σ)) : AllSteps C s p :=
  AllSteps.of_labels fun s i s' _ => h s i s'

variable {step : σ → ι → σ → Prop} {meets : σ → ι → σ → Prop} {P : σ → Prop}

theorem Path.mono {step' : σ → ι → σ → Prop} (h : ∀ s i t, step s i t → step' s i t) {s t : σ}
    {p : List (ι × σ)} (hp : Path step s p t) : Path step' s p t := by
  induction hp with
  | nil s => exact .nil s
  | cons hStep _ ih => exact .cons (h _ _ _ hStep) ih

theorem Path.append {s t u : σ} {p q : List (ι × σ)} (hp : Path step s p t)
    (hq : Path step t q u) : Path step s (p ++ q) u := by
  induction hp with
  | nil s => exact hq
  | cons hStep _ ih => exact Path.cons hStep (ih hq)

theorem Path.split {s u : σ} {q p : List (ι × σ)} (hp : Path step s (q ++ p) u) :
    ∃ t, Path step s q t ∧ Path step t p u := by
  induction q generalizing s with
  | nil => exact ⟨s, .nil s, hp⟩
  | cons e q ih =>
    cases hp with
    | cons hStep hRest =>
      obtain ⟨t, hq, hp⟩ := ih hRest
      exact ⟨t, .cons hStep hq, hp⟩

theorem Path.last_state {s t : σ} {p : List (ι × σ)} (hp : Path step s p t)
    (h : AllStates P s p) : P t := by
  induction hp with
  | nil s => exact (allStates_nil P s).mp h
  | cons _ _ ih => exact ih ((allStates_cons P _ _ _ _).mp h).2

/-- A property kept by every step that meets the condition holds along the whole run. -/
theorem Path.allStates_of_allSteps (hKeep : ∀ s i s', P s → meets s i s' → step s i s' → P s')
    {s t : σ} {p : List (ι × σ)} (hp : Path step s p t) (hs : P s)
    (hMeets : AllSteps meets s p) : AllStates P s p := by
  induction hp with
  | nil s => exact (allStates_nil P s).mpr hs
  | cons hStep _ ih =>
    obtain ⟨hHead, hTail⟩ := hMeets
    exact (allStates_cons P _ _ _ _).mpr ⟨hs, ih (hKeep _ _ _ hs hHead hStep) hTail⟩

theorem Path.allStates_of_step (hKeep : ∀ s i s', P s → step s i s' → P s') {s t : σ}
    {p : List (ι × σ)} (hp : Path step s p t) (hs : P s) : AllStates P s p := by
  induction hp with
  | nil s => exact (allStates_nil P s).mpr hs
  | cons hStep _ ih => exact (allStates_cons P _ _ _ _).mpr ⟨hs, ih (hKeep _ _ _ hs hStep)⟩

/-- What an invariant shows of each step holds of all steps that meet the condition. -/
theorem Path.allSteps_of_invariant {good : σ → ι → σ → Prop}
    (hKeep : ∀ s i s', P s → meets s i s' → step s i s' → P s' ∧ good s i s')
    {s t : σ} {p : List (ι × σ)} (hp : Path step s p t) (hs : P s)
    (hMeets : AllSteps meets s p) : AllSteps good s p := by
  induction hp with
  | nil s => trivial
  | cons hStep _ ih =>
    obtain ⟨hHead, hTail⟩ := hMeets
    obtain ⟨hs', hGood⟩ := hKeep _ _ _ hs hHead hStep
    exact ⟨hGood, ih hs' hTail⟩

theorem Path.invariant (hKeep : ∀ s i s', P s → step s i s' → P s')
    {s t : σ} {p : List (ι × σ)} (hp : Path step s p t) (hs : P s) : P t := by
  induction hp with
  | nil s => exact hs
  | cons hStep _ ih => exact ih (hKeep _ _ _ hs hStep)

/-- An invariant may speak of the steps that led to the state. -/
theorem Path.invariant_history {P : List (ι × σ) → σ → Prop} {s : σ} (hs : P [] s)
    (hKeep : ∀ p t i t', Path step s p t → P p t → step t i t' → P (p ++ [(i, t')]) t')
    {p : List (ι × σ)} {t : σ} (hp : Path step s p t) : P p t := by
  suffices hExtend : ∀ {u : σ} {r : List (ι × σ)}, Path step u r t →
      ∀ q, Path step s q u → P q u → P (q ++ r) t from hExtend hp [] (.nil s) hs
  intro u r hr
  induction hr with
  | nil u =>
    intro q _ hu
    rw [List.append_nil]
    exact hu
  | @cons u u' t i r hStep _ ih =>
    intro q hq hu
    have hLater := ih hp (q ++ [(i, u')]) (hq.append (.cons hStep (.nil _)))
      (hKeep q u i u' hq hu hStep)
    rwa [List.append_assoc] at hLater

theorem Path.unique {s t t' : σ} {p : List (ι × σ)} (hp : Path step s p t)
    (hp' : Path step s p t') : t = t' := by
  induction hp with
  | nil s =>
    cases hp'
    rfl
  | cons _ _ ih =>
    cases hp' with
    | cons _ hRest => exact ih hRest

/-- Where every step is matched by a step of another system, every run is matched by a run of it.
What relates the states may depend on the number of steps that are still to come. -/
theorem Path.matched {τ : Type u} {κ : Type v} {step' : τ → κ → τ → Prop}
    {R : Nat → σ → τ → Prop} {same : ι × σ → κ × τ → Prop}
    (hStep : ∀ n s i s' t, R (n + 1) s t → step s i s' →
      ∃ j t', step' t j t' ∧ R n s' t' ∧ same (i, s') (j, t'))
    {s s' : σ} {p : List (ι × σ)} (hp : Path step s p s') {t : τ} (h : R p.length s t) :
    ∃ q t', Path step' t q t' ∧ List.Forall₂ same p q := by
  induction hp generalizing t with
  | nil s => exact ⟨[], t, .nil t, .nil⟩
  | cons hFirst _ ih =>
    obtain ⟨j, t₁, hFirst', h₁, hSame⟩ := hStep _ _ _ _ _ h hFirst
    obtain ⟨q, t', hRest, hAll⟩ := ih h₁
    exact ⟨(j, t₁) :: q, t', .cons hFirst' hRest, .cons hSame hAll⟩

theorem Path.allSteps_append_iff {s t : σ} {p q : List (ι × σ)} (hp : Path step s p t) :
    AllSteps meets s (p ++ q) ↔ AllSteps meets s p ∧ AllSteps meets t q := by
  induction hp with
  | nil s => exact (and_iff_right trivial).symm
  | cons _ _ ih =>
    rw [List.cons_append, allSteps_cons, allSteps_cons, ih, and_assoc]

theorem Path.allSteps_concat {s t t' : σ} {i : ι} {p : List (ι × σ)} (hp : Path step s p t)
    (h : AllSteps meets s p) (hLast : meets t i t') : AllSteps meets s (p ++ [(i, t')]) := by
  induction hp with
  | nil s => exact ⟨hLast, trivial⟩
  | cons _ _ ih => exact ⟨h.1, ih h.2 hLast⟩

/-- Where a step keeps the property and is good exactly when it meets the condition, a run has
only good steps and states exactly when all its steps meet the condition. -/
theorem Path.good_iff_allSteps {Q : σ → Prop} {good : σ → ι → σ → Prop}
    (hFrame : ∀ s i s', Q s → step s i s' → Q s')
    (hExact : ∀ s i s', Q s → P s → step s i s' → (P s' ∧ good s i s' ↔ meets s i s'))
    {s t : σ} {p : List (ι × σ)} (hp : Path step s p t) (hq : Q s) (hs : P s) :
    AllStates P s p ∧ AllSteps good s p ↔ AllSteps meets s p := by
  induction hp with
  | nil s => simp [hs]
  | @cons s s' t i p hStep _ ih =>
    rw [allStates_cons, allSteps_cons, allSteps_cons]
    have hHead := hExact _ _ _ hq hs hStep
    have hFrame' := hFrame _ _ _ hq hStep
    constructor
    · rintro ⟨⟨_, hStates⟩, hGood, hSteps⟩
      have hs' : P s' := hStates.1
      exact ⟨hHead.mp ⟨hs', hGood⟩, (ih hFrame' hs').mp ⟨hStates, hSteps⟩⟩
    · rintro ⟨hi, hTail⟩
      obtain ⟨hs', hGood⟩ := hHead.mpr hi
      obtain ⟨hStates, hSteps⟩ := (ih hFrame' hs').mpr hTail
      exact ⟨⟨hs, hStates⟩, hGood, hSteps⟩

theorem Path.allStates_iff_allSteps {Q : σ → Prop}
    (hFrame : ∀ s i s', Q s → step s i s' → Q s')
    (hExact : ∀ s i s', Q s → P s → step s i s' → (P s' ↔ meets s i s'))
    {s t : σ} {p : List (ι × σ)} (hp : Path step s p t) (hq : Q s) (hs : P s) :
    AllStates P s p ↔ AllSteps meets s p := by
  have hGood : AllSteps (fun _ _ _ => True) s p := AllSteps.of_forall (fun _ _ _ => trivial) s p
  have hExact' : ∀ s i s', Q s → P s → step s i s' → (P s' ∧ True ↔ meets s i s') := by
    intro s i s' hq hs hStep
    rw [and_true]
    exact hExact s i s' hq hs hStep
  rw [← hp.good_iff_allSteps hFrame hExact' hq hs]
  exact (and_iff_left hGood).symm

/-- Where a step that continues a run keeps what the run has come to exactly when it meets the
condition, all parts of a run have come to it exactly when all its steps meet the condition. -/
theorem Path.history_iff_allSteps {P : List (ι × σ) → σ → Prop} {s t : σ} {p : List (ι × σ)}
    (hp : Path step s p t) (hs : P [] s)
    (hExact : ∀ q u i u' r, p = q ++ (i, u') :: r → Path step s q u → P q u → step u i u' →
      (P (q ++ [(i, u')]) u' ↔ meets u i u')) :
    (∀ q u r, p = q ++ r → Path step s q u → P q u) ↔ AllSteps meets s p := by
  suffices hExtend : ∀ {u : σ} {r : List (ι × σ)}, Path step u r t → ∀ q, p = q ++ r →
      Path step s q u → P q u →
      ((∀ r₁ v r₂, r = r₁ ++ r₂ → Path step u r₁ v → P (q ++ r₁) v) ↔ AllSteps meets u r) by
    exact hExtend hp [] rfl (.nil s) hs
  intro u r hr
  induction hr with
  | nil u =>
    intro q _ _ hu
    refine iff_of_true ?_ trivial
    rintro r₁ v r₂ hNil hPath
    obtain ⟨rfl, -⟩ := List.append_eq_nil_iff.mp hNil.symm
    cases hPath
    rwa [List.append_nil]
  | @cons u u' t i r hStep _ ih =>
    intro q hq hPath hu
    have hNext := hPath.append (.cons hStep (.nil u'))
    have hHead := hExact q u i u' r hq hPath hu hStep
    have hq' : p = q ++ [(i, u')] ++ r := by rw [hq, List.append_assoc]; rfl
    constructor
    · intro hAll
      have hu' : P (q ++ [(i, u')]) u' := hAll [(i, u')] u' r rfl (.cons hStep (.nil u'))
      refine ⟨hHead.mp hu', (ih hp _ hq' hNext hu').mp ?_⟩
      intro r₁ v r₂ hr hv
      have hLater := hAll ((i, u') :: r₁) v r₂ (by rw [hr]; rfl) (.cons hStep hv)
      rwa [List.append_assoc]
    · rintro ⟨hi, hTail⟩
      have hu' := hHead.mpr hi
      have hLater := (ih hp _ hq' hNext hu').mpr hTail
      intro r₁ v r₂ hr hv
      cases hv with
      | nil =>
        rwa [List.append_nil]
      | @cons _ v' _ _ r₁ _ hRest =>
        obtain ⟨hFirst, hBehind⟩ := List.cons.inj hr
        obtain ⟨rfl, rfl⟩ := Prod.mk.inj hFirst
        have hv := hLater r₁ v r₂ hBehind hRest
        rwa [List.append_assoc] at hv

/-! ## Loops that may go on forever -/

section Loop

variable {turn : σ → σ → Prop}

/-- Some run from the state never ends. -/
def Diverges (turn : σ → σ → Prop) (s : σ) : Prop :=
  ∃ run : Nat → σ, run 0 = s ∧ ∀ n, turn (run n) (run (n + 1))

theorem Diverges.exists_turn {s : σ} (h : Diverges turn s) : ∃ s', turn s s' ∧ Diverges turn s' := by
  obtain ⟨run, rfl, hRun⟩ := h
  exact ⟨run 1, hRun 0, fun n => run (n + 1), rfl, fun n => hRun (n + 1)⟩

theorem Diverges.of_turn {s s' : σ} (hTurn : turn s s') (h : Diverges turn s') :
    Diverges turn s := by
  obtain ⟨run, rfl, hRun⟩ := h
  refine ⟨fun n => Nat.casesOn n s run, rfl, ?_⟩
  intro n
  cases n with
  | zero => exact hTurn
  | succ n => exact hRun n

/-- A rank that every turn lowers bounds the loop. -/
theorem not_diverges_of_rank {R : Nat → σ → Prop}
    (hTurn : ∀ n s s', R n s → turn s s' → ∃ m, m < n ∧ R m s') {n : Nat} {s : σ}
    (hs : R n s) : ¬ Diverges turn s := by
  induction n using Nat.strongRecOn generalizing s with
  | ind n ih =>
    intro hLoop
    obtain ⟨s', hStep, hLoop'⟩ := hLoop.exists_turn
    obtain ⟨m, hm, hs'⟩ := hTurn n s s' hs hStep
    exact ih m hm hs' hLoop'

/-- An invariant under which there always is a next turn keeps the loop going. -/
theorem diverges_of_invariant {P : σ → Prop} (hTurn : ∀ s, P s → ∃ s', turn s s' ∧ P s') {s : σ}
    (hs : P s) : Diverges turn s := by
  have hNext : ∀ r : {s : σ // P s}, ∃ r' : {s : σ // P s}, turn r.1 r'.1 := by
    rintro ⟨s, hs⟩
    obtain ⟨s', hStep, hs'⟩ := hTurn s hs
    exact ⟨⟨s', hs'⟩, hStep⟩
  let next (r : {s : σ // P s}) : {s : σ // P s} := Classical.choose (hNext r)
  let run : Nat → {s : σ // P s} := fun n => Nat.rec ⟨s, hs⟩ (fun _ r => next r) n
  exact ⟨fun n => (run n).1, rfl, fun n => Classical.choose_spec (hNext (run n))⟩

end Loop

end Runs
