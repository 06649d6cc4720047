import Mathlib

/-!
# Endless runs

A `Schedule` is an endless run of a labelled step relation. `leadsTo` is the
rule of progress under fairness: a condition that every step keeps until the
goal is reached, a helpful one reaching it, and under which a helpful event
comes sooner or later, leads to the goal.
-/

namespace Voytty.Lib

variable {σ α : Type*} {step : σ → α → σ → Prop}

/-- An endless run: the events taken and the states between them. -/
structure Schedule (step : σ → α → σ → Prop) where
  state : ℕ → σ
  event : ℕ → α
  next : ∀ n, step (state n) (event n) (state (n + 1))

namespace Schedule

variable (ρ : Schedule step)

/-- What every step keeps holds from then on. -/
theorem always {P : σ → Prop} (hstep : ∀ s e s', step s e s' → P s → P s') {n m : ℕ} (hnm : n ≤ m)
    (h : P (ρ.state n)) : P (ρ.state m) := by
  induction m, hnm using Nat.le_induction with
  | base => exact h
  | succ m _ ih => exact hstep _ _ _ (ρ.next m) ih

theorem leadsTo {P Q : σ → Prop} {H : α → Prop}
    (hstep : ∀ s e s', step s e s' → P s → Q s' ∨ P s' ∧ ¬H e)
    (hfair : ∀ n, P (ρ.state n) → ∃ m, n ≤ m ∧ H (ρ.event m)) {n : ℕ}
    (h : P (ρ.state n)) : ∃ m, n ≤ m ∧ Q (ρ.state m) := by
  -- until the helpful event, either the goal was reached or the condition still holds
  have huntil : ∀ m, n ≤ m → (∃ k, n ≤ k ∧ Q (ρ.state k)) ∨ P (ρ.state m) := by
    intro m hnm
    induction m, hnm using Nat.le_induction with
    | base => exact .inr h
    | succ m hnm ih =>
      rcases ih with hdone | hp
      · exact .inl hdone
      · rcases hstep _ _ _ (ρ.next m) hp with hq | hp
        · exact .inl ⟨m + 1, by omega, hq⟩
        · exact .inr hp.1
  obtain ⟨m, hnm, hevent⟩ := hfair n h
  rcases huntil m hnm with hdone | hp
  · exact hdone
  · rcases hstep _ _ _ (ρ.next m) hp with hq | hp
    · exact ⟨m + 1, by omega, hq⟩
    · exact absurd hevent hp.2

end Schedule

end Voytty.Lib
