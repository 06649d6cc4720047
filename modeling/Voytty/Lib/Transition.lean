import Mathlib

/-!
# Runs of a transition relation

A run is the reflexive transitive closure of a step relation
(`Relation.ReflTransGen`). `Preserved` invariants carry over whole runs, and a
fold whose every step is a run is a run.
-/

namespace Voytty.Lib

open Relation

variable {σ α γ : Type*} {r : σ → σ → Prop}

/-- Every step keeps `P`. -/
def Preserved (r : σ → σ → Prop) (P : σ → Prop) : Prop := ∀ s s', r s s' → P s → P s'

theorem Preserved.run {P : σ → Prop} (h : Preserved r P) {s s' : σ} (hr : ReflTransGen r s s')
    (hs : P s) : P s' := by
  induction hr with
  | refl => exact hs
  | tail _ step ih => exact h _ _ step ih

theorem run_const {β : Type*} {f : σ → β} (h : ∀ s s', r s s' → f s' = f s) {s s' : σ}
    (hr : ReflTransGen r s s') : f s' = f s := by
  induction hr with
  | refl => rfl
  | tail _ step ih => exact (h _ _ step).trans ih

/-- A fold over an accumulator that carries the state in `state`. -/
theorem run_foldl (state : γ → σ) {f : γ → α → γ}
    (h : ∀ g a, ReflTransGen r (state g) (state (f g a))) (as : List α) (g : γ) :
    ReflTransGen r (state g) (state (as.foldl f g)) := by
  induction as generalizing g with
  | nil => exact .refl
  | cons a as ih => exact (h g a).trans (ih (f g a))

end Voytty.Lib
