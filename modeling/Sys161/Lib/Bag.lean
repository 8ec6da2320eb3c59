import Mathlib.Algebra.Order.Group.Multiset
import Sys161.Lib.Runs

/-!
# Things that come, are used, and go

A run over a bag of things uses nothing that is not there, and takes nothing out
that has not come in.
-/

namespace Bag

open Runs

set_option autoImplicit false

universe u

variable {σ : Type u}

inductive Deed (σ : Type u) where
  | entered (s : σ)
  | used (s : σ)
  | left (s : σ)
deriving DecidableEq

def step (b : Multiset σ) : Deed σ → Multiset σ → Prop
  | .entered s, b' => b' = s ::ₘ b
  | .used s, b' => s ∈ b ∧ b' = b
  | .left s, b' => b = s ::ₘ b'

/-- The deeds are a run from one bag to the other. -/
def Runs (b : Multiset σ) (ds : List (Deed σ)) (b' : Multiset σ) : Prop :=
  ∃ p, Path step b p b' ∧ p.map Prod.fst = ds

variable {b b' b'' : Multiset σ} {ds ds' : List (Deed σ)} {d : Deed σ}

theorem Runs.nil (b : Multiset σ) : Runs b [] b := ⟨[], .nil b, rfl⟩

theorem Runs.single (h : step b d b') : Runs b [d] b' := ⟨[(d, b')], .cons h (.nil b'), rfl⟩

theorem Runs.append (h : Runs b ds b') (h' : Runs b' ds' b'') : Runs b (ds ++ ds') b'' := by
  obtain ⟨p, hp, rfl⟩ := h
  obtain ⟨q, hq, rfl⟩ := h'
  exact ⟨p ++ q, hp.append hq, List.map_append⟩

theorem Runs.cons_iff : Runs b (d :: ds) b'' ↔ ∃ b', step b d b' ∧ Runs b' ds b'' := by
  constructor
  · rintro ⟨p, hp, hMap⟩
    cases hp with
    | nil => cases hMap
    | cons hStep hRest =>
      obtain ⟨rfl, rfl⟩ := List.cons.inj hMap
      exact ⟨_, hStep, _, hRest, rfl⟩
  · rintro ⟨b', hStep, h⟩
    exact (Runs.single hStep).append h

end Bag
