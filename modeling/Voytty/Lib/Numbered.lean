import Mathlib

/-!
# Consecutively numbered lists

`Numbered number k as` says that the elements of `as` carry the numbers `k + 1`,
`k + 2` and so on. Under a cumulative acknowledgement, the elements above a
number are the ones left after dropping from the front.
-/

namespace Voytty.Lib

variable {α : Type*} {number : α → Nat} {k m : Nat} {a : α} {as bs : List α}

/-- Numbers from `k + 1` on. -/
def Numbered (number : α → Nat) : Nat → List α → Prop
  | _, [] => True
  | k, a :: as => number a = k + 1 ∧ Numbered number (k + 1) as

namespace Numbered

theorem append (h : Numbered number k as) (h' : Numbered number (k + as.length) bs) :
    Numbered number k (as ++ bs) := by
  induction as generalizing k with
  | nil => exact h'
  | cons a as ih =>
    refine ⟨h.1, ih h.2 ?_⟩
    rwa [List.length_cons, Nat.add_comm as.length, ← Nat.add_assoc] at h'

theorem concat (h : Numbered number k as) (ha : number a = k + as.length + 1) :
    Numbered number k (as ++ [a]) :=
  h.append ⟨ha, trivial⟩

theorem drop (h : Numbered number k as) {n : Nat} (hn : n ≤ as.length) :
    Numbered number (k + n) (as.drop n) := by
  induction as generalizing k n with
  | nil =>
    rw [List.drop_nil]
    trivial
  | cons a as ih =>
    cases n with
    | zero => exact h
    | succ n =>
      have hdrop := ih h.2 (Nat.le_of_succ_le_succ hn)
      rwa [Nat.add_assoc, Nat.add_comm 1] at hdrop

theorem filter_lt (h : Numbered number k as) :
    as.filter (m < number ·) = as.drop (m - k) := by
  induction as generalizing k with
  | nil => simp
  | cons a as ih =>
    rw [List.filter_cons, ih h.2]
    by_cases hm : m ≤ k
    · rw [if_pos (by rw [h.1]; exact decide_eq_true (by omega)), Nat.sub_eq_zero_of_le hm,
        Nat.sub_eq_zero_of_le (by omega), List.drop_zero, List.drop_zero]
    · rw [if_neg (by rw [h.1]; simp; omega), show m - k = (m - (k + 1)) + 1 by omega,
        List.drop_succ_cons]

end Numbered

end Voytty.Lib
