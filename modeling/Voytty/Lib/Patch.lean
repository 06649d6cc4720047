import Mathlib

/-!
# Element-wise differences of lists

`diff f xs ys` lists the positions at which two lists differ, each with the
image under `f` of the second list's element; `patch` writes such a list into
another. Patching the image of `xs` with the difference gives the image of
`ys` (`patch_diff`), and the positions of a difference are in bounds and
strictly increasing (`diff_sorted`).

`checkAll` runs a check over a list and stops at the first failure.
-/

namespace Voytty.Lib

variable {α β ε : Type}

def diffFrom [DecidableEq α] (f : α → β) : Nat → List α → List α → List (Nat × β)
  | i, x :: xs, y :: ys =>
    if x ≠ y then (i, f y) :: diffFrom f (i + 1) xs ys else diffFrom f (i + 1) xs ys
  | _, _, _ => []

def diff [DecidableEq α] (f : α → β) (xs ys : List α) : List (Nat × β) := diffFrom f 0 xs ys

def patch (ps : List (Nat × β)) (zs : List β) : List β :=
  ps.foldl (fun zs p => zs.set p.1 p.2) zs

theorem patch_cons_succ (z : β) (ps : List (Nat × β)) (zs : List β) :
    patch (ps.map fun p => (p.1 + 1, p.2)) (z :: zs) = z :: patch ps zs := by
  induction ps generalizing zs with
  | nil => rfl
  | cons p ps ih => simpa [patch] using ih (zs.set p.1 p.2)

theorem diffFrom_succ [DecidableEq α] (f : α → β) (i : Nat) (xs ys : List α) :
    diffFrom f (i + 1) xs ys = (diffFrom f i xs ys).map fun p => (p.1 + 1, p.2) := by
  induction xs generalizing i ys with
  | nil => simp [diffFrom]
  | cons x xs ih =>
    cases ys with
    | nil => simp [diffFrom]
    | cons y ys => by_cases h : x = y <;> simp [diffFrom, h, ih]

theorem patch_diff [DecidableEq α] (f : α → β) {xs ys : List α} (h : xs.length = ys.length) :
    patch (diff f xs ys) (xs.map f) = ys.map f := by
  induction xs generalizing ys with
  | nil => cases ys with
    | nil => rfl
    | cons y ys => simp at h
  | cons x xs ih =>
    cases ys with
    | nil => simp at h
    | cons y ys =>
      have ih' := @ih ys (by simpa using h)
      simp only [diff, diffFrom, diffFrom_succ f 0, List.map_cons] at ih' ⊢
      split
      · simp only [patch, List.foldl_cons, List.set_cons_zero]
        exact (patch_cons_succ _ _ _).trans (by rw [ih'])
      · rename_i hxy
        rw [patch_cons_succ, ih', not_not.mp hxy]

theorem diffFrom_bounds [DecidableEq α] {f : α → β} {i : Nat} {xs ys : List α} :
    ∀ p ∈ diffFrom f i xs ys, i ≤ p.1 ∧ p.1 < i + xs.length ∧ ∃ y ∈ ys, p.2 = f y := by
  induction xs generalizing i ys with
  | nil => simp [diffFrom]
  | cons x xs ih =>
    cases ys with
    | nil => simp [diffFrom]
    | cons y ys =>
      have later : ∀ p ∈ diffFrom f (i + 1) xs ys,
          i ≤ p.1 ∧ p.1 < i + (x :: xs).length ∧ ∃ z ∈ y :: ys, p.2 = f z := by
        intro p hp
        obtain ⟨h1, h2, z, hz, hf⟩ := ih p hp
        simp only [List.length_cons]
        exact ⟨by omega, by omega, z, List.mem_cons_of_mem _ hz, hf⟩
      intro p hp
      simp only [diffFrom] at hp
      split at hp
      · rcases List.mem_cons.mp hp with rfl | hp
        · exact ⟨le_rfl, by simp, y, List.mem_cons_self, rfl⟩
        · exact later p hp
      · exact later p hp

theorem diffFrom_sorted [DecidableEq α] (f : α → β) (i : Nat) (xs ys : List α) :
    (diffFrom f i xs ys).Pairwise fun p q => p.1 < q.1 := by
  induction xs generalizing i ys with
  | nil => simp [diffFrom]
  | cons x xs ih =>
    cases ys with
    | nil => simp [diffFrom]
    | cons y ys =>
      simp only [diffFrom]
      split
      · refine List.pairwise_cons.mpr ⟨fun q hq => ?_, ih (i + 1) ys⟩
        have := (diffFrom_bounds q hq).1
        simp only; omega
      · exact ih (i + 1) ys

/-- Runs a check over a list, stopping at the first failure. -/
def checkAll (check : α → Except ε Unit) : List α → Except ε Unit
  | [] => .ok ()
  | a :: as =>
    match check a with
    | .ok () => checkAll check as
    | .error e => .error e

theorem checkAll_ok {check : α → Except ε Unit} {as : List α} :
    checkAll check as = .ok () ↔ ∀ a ∈ as, check a = .ok () := by
  induction as with
  | nil => simp [checkAll]
  | cons a as ih =>
    simp only [checkAll, List.mem_cons, forall_eq_or_imp]
    cases h : check a with
    | ok u => simpa using ih
    | error e => simp

end Voytty.Lib
