import Mathlib.Logic.Basic
import Sys161.Lib.Exec
import Sys161.Lib.Runs

/-!
# Scripts

A list of acts executed one after the other, and what can be seen at its end. A
script that comes to its end is a run. An act that is refused is the last one.
-/

namespace Scripts

open Runs

set_option autoImplicit false

variable {ε σ ι α β : Type}

/-- The acts of a list in order. -/
def runAll (exec : ι → EStateM ε σ Unit) : List ι → EStateM ε σ Unit
  | [] => pure ()
  | a :: l => do
    exec a
    runAll exec l

/-- What can be seen of what a program comes to, if it comes to its end. -/
def yields (x : EStateM ε σ α) (look : α → σ → β) (s : σ) : Option β :=
  match x.run s with
  | .ok a t => some (look a t)
  | .error _ _ => none

theorem run_of_yields {x : EStateM ε σ α} {look : α → σ → β} {s : σ} {y : β}
    (h : yields x look s = some y) : ∃ a t, x.run s = .ok a t ∧ look a t = y := by
  unfold yields at h
  cases hRun : x.run s with
  | ok a t =>
    rw [hRun] at h
    exact ⟨a, t, rfl, Option.some.inj h⟩
  | error e t => simp [hRun] at h

theorem yields_of_after {x : EStateM ε σ α} {look : α → σ → β} {s : σ} {y : β}
    (h : Exec.After x (fun a t => look a t = y) (fun _ _ => False) s) : yields x look s = some y := by
  obtain ⟨a, t, hRun, rfl⟩ := Exec.exists_of_after h
  rw [yields, hRun]

/-- What a program throws, if anything. -/
def thrown (x : EStateM ε σ α) (s : σ) : Option ε :=
  match x.run s with
  | .ok _ _ => none
  | .error e _ => some e

theorem run_of_thrown {x : EStateM ε σ α} {s : σ} {e : ε} (h : thrown x s = some e) :
    ∃ t, x.run s = .error e t := by
  unfold thrown at h
  cases hRun : x.run s with
  | ok _ _ => simp [hRun] at h
  | error e' t =>
    rw [hRun] at h
    obtain rfl := Option.some.inj h
    exact ⟨t, rfl⟩

section Path

variable {exec : ι → EStateM ε σ Unit} {valid : ι → Prop}

/-- One act of a script. -/
def ScriptStep (exec : ι → EStateM ε σ Unit) (valid : ι → Prop) (s : σ) (a : ι) (t : σ) : Prop :=
  valid a ∧ (exec a).run s = .ok () t

theorem path_of_runAll {l : List ι} (hl : ∀ a ∈ l, valid a) {s t : σ}
    (h : (runAll exec l).run s = .ok () t) :
    ∃ p, Path (ScriptStep exec valid) s p t ∧ p.map Prod.fst = l := by
  induction l generalizing s with
  | nil =>
    obtain rfl : s = t := by simpa [runAll] using h
    exact ⟨[], .nil s, rfl⟩
  | cons a l ih =>
    rw [runAll, EStateM.run_bind] at h
    cases hAct : (exec a).run s with
    | error e u => simp [hAct] at h
    | ok u u' =>
      rw [hAct] at h
      obtain ⟨p, hPath, hActs⟩ := ih (fun a' ha' => hl a' (List.mem_cons_of_mem _ ha')) h
      exact ⟨(a, u') :: p, .cons ⟨hl a (List.mem_cons_self ..), hAct⟩ hPath, by simp [hActs]⟩

/-- A script whose end can be seen is a run. -/
theorem path_of_seen {l : List ι} {s : σ} {look : σ → β} {y : β}
    (h : yields (runAll exec l) (fun _ => look) s = some y) (hl : ∀ a ∈ l, valid a) :
    ∃ p t, Path (ScriptStep exec valid) s p t ∧ p.map Prod.fst = l ∧ look t = y := by
  obtain ⟨⟨⟩, t, hRun, hLook⟩ := run_of_yields h
  obtain ⟨p, hPath, hActs⟩ := path_of_runAll hl hRun
  exact ⟨p, t, hPath, hActs, hLook⟩

/-- What can be seen at the end of a script of which every step passes a check. -/
def seenBy (check : σ → ι → Bool) (exec : ι → EStateM ε σ Unit) (look : σ → β) :
    List ι → σ → Option β
  | [], s => some (look s)
  | a :: l, s =>
    match check s a, (exec a).run s with
    | true, .ok _ t => seenBy check exec look l t
    | _, _ => none

variable (valid) in
theorem path_of_seenBy {check : σ → ι → Bool} {look : σ → β} {y : β} {l : List ι} {s : σ}
    (h : seenBy check exec look l s = some y) (hl : ∀ a ∈ l, valid a) :
    ∃ p t, Path (ScriptStep exec valid) s p t ∧ p.map Prod.fst = l ∧ look t = y ∧
      AllSteps (fun s a _ => check s a = true) s p := by
  induction l generalizing s with
  | nil => exact ⟨[], s, .nil s, rfl, Option.some.inj h, trivial⟩
  | cons a l ih =>
    rw [seenBy] at h
    split at h
    · next u t hCheck hAct =>
      obtain ⟨p, t', hPath, hActs, hLook, hAll⟩ :=
        ih h fun a' ha' => hl a' (List.mem_cons_of_mem _ ha')
      have hStep : ScriptStep exec valid s a t := ⟨hl a (List.mem_cons_self ..), hAct⟩
      exact ⟨(a, t) :: p, t', .cons hStep hPath, by simp [hActs], hLook, hCheck, hAll⟩
    · cases h

end Path

/-! ## Acts that can be refused -/

section InTurn

variable {act : ι → EStateM ε σ (Option (List β))}

/-- Acts one after the other, with all that they give; there is nothing where one of them is
refused. -/
inductive InTurn (act : ι → EStateM ε σ (Option (List β))) :
    List ι → σ → Option (List β) → σ → Prop where
  | nil (s : σ) : InTurn act [] s (some []) s
  | cons {a : ι} {l : List ι} {s t u : σ} {out : List β} {rest : Option (List β)} :
      (act a).run s = .ok (some out) t → InTurn act l t rest u →
        InTurn act (a :: l) s (rest.map (out ++ ·)) u
  | refused {a : ι} {l : List ι} {s t : σ} : (act a).run s = .ok none t →
      InTurn act (a :: l) s none t

theorem InTurn.append {l l' : List ι} {s t u : σ} {out : List β} {rest : Option (List β)}
    (h : InTurn act l s (some out) t) (h' : InTurn act l' t rest u) :
    InTurn act (l ++ l') s (rest.map (out ++ ·)) u := by
  generalize hSome : some out = found at h
  induction h generalizing out with
  | nil =>
    cases hSome
    cases rest <;> exact h'
  | @cons a l s t u' first more hAct _ ih =>
    cases more with
    | none => cases hSome
    | some more =>
      cases hSome
      have hRest := InTurn.cons hAct (ih h' rfl)
      rw [Option.map_map] at hRest
      have hSame : (first ++ ·) ∘ (more ++ ·) = (first ++ more ++ · : List β → List β) :=
        funext fun l => (List.append_assoc first more l).symm
      rwa [hSame] at hRest
  | refused => cases hSome

/-- What is behind a refused act does not matter. -/
theorem InTurn.append_none {l : List ι} {s t : σ} (h : InTurn act l s none t) (l' : List ι) :
    InTurn act (l ++ l') s none t := by
  generalize hNone : none = found at h
  induction h with
  | nil => cases hNone
  | @cons a l s t u first more hAct _ ih =>
    cases more with
    | none => exact .cons hAct (ih rfl)
    | some more => cases hNone
  | refused hAct => exact .refused hAct

/-- Everything that is given has been given by an act. -/
theorem InTurn.forall_mem {l : List ι} {s t : σ} {out : List β} {P : β → Prop}
    (hAct : ∀ a s out t, (act a).run s = .ok (some out) t → ∀ x ∈ out, P x)
    (h : InTurn act l s (some out) t) : ∀ x ∈ out, P x := by
  generalize hSome : some out = found at h
  induction h generalizing out with
  | nil =>
    cases hSome
    exact fun x hx => absurd hx List.not_mem_nil
  | @cons a l s t u first more hFirst _ ih =>
    cases more with
    | none => cases hSome
    | some more =>
      cases hSome
      exact List.forall_mem_append.mpr ⟨hAct a s first t hFirst, ih rfl⟩
  | refused => cases hSome

/-- What every act keeps. -/
theorem InTurn.keeps {l : List ι} {s t : σ} {r : Option (List β)} {I : σ → Prop}
    (hAct : ∀ a, Exec.Keeps I (fun _ _ => True) (act a)) (hs : I s) (h : InTurn act l s r t) :
    I t := by
  induction h with
  | nil s => exact hs
  | cons hFirst _ ih => exact ih (Exec.after_of_run_ok (hAct _ _ hs) hFirst)
  | refused hFirst => exact Exec.after_of_run_ok (hAct _ _ hs) hFirst

end InTurn

end Scripts
