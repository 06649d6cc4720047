import Mathlib

/-!
# Bounded queues

`boundedAppend` appends to a queue and drops the oldest elements beyond its
capacity. `Grown` is what any number of such steps leaves: the old elements are
still the first ones, or the queue is full.

`latest` is what a bounded queue retains of everything appended to it. When
elements are also taken from its front, what is left of it is a suffix of the
latest ones (`latest_taken`).
-/

namespace Voytty.Lib

variable {α : Type*} {capacity : Nat} {as bs cs : List α}

/-- `as` with `new` appended, without the oldest elements beyond the capacity. -/
def boundedAppend (capacity : Nat) (as new : List α) : List α :=
  (as ++ new).drop ((as ++ new).length - capacity)

/-- `bs` comes from `as` by appending and dropping. -/
structure Grown (capacity : Nat) (as bs : List α) : Prop where
  kept : as <+: bs ∨ bs.length = capacity
  bounded : bs.length ≤ capacity

theorem Grown.refl (h : as.length ≤ capacity) : Grown capacity as as :=
  ⟨.inl (List.prefix_refl as), h⟩

theorem Grown.trans (h : Grown capacity as bs) (h' : Grown capacity bs cs) :
    Grown capacity as cs where
  kept := by
    rcases h'.kept with hbc | hfull
    · rcases h.kept with hab | hfull
      · exact .inl (hab.trans hbc)
      · have := hbc.length_le
        have := h'.bounded
        exact .inr (by omega)
    · exact .inr hfull
  bounded := h'.bounded

theorem Grown.append (capacity : Nat) (as new : List α) :
    Grown capacity as (boundedAppend capacity as new) where
  kept := by
    unfold boundedAppend
    by_cases h : (as ++ new).length ≤ capacity
    · rw [Nat.sub_eq_zero_of_le h]
      exact .inl (List.prefix_append as new)
    · rw [List.length_drop]
      exact .inr (by omega)
  bounded := by
    unfold boundedAppend
    rw [List.length_drop]
    omega

/-! ## The latest elements -/

def latest (capacity : Nat) (as : List α) : List α := as.drop (as.length - capacity)

variable {a : α}

theorem latest_suffix : latest capacity as <:+ as := List.drop_suffix _ _

theorem latest_length : (latest capacity as).length = min as.length capacity := by
  rw [latest, List.length_drop]
  omega

theorem latest_concat (hcapacity : 0 < capacity) :
    latest capacity (as ++ [a]) =
      (if (latest capacity as).length = capacity then (latest capacity as).tail
        else latest capacity as) ++ [a] := by
  rw [latest_length]
  unfold latest
  rw [List.length_append, List.length_singleton]
  split
  · rw [List.tail_drop, List.drop_append_of_le_length (by omega)]
    congr 2
    omega
  · rw [Nat.sub_eq_zero_of_le (by omega), Nat.sub_eq_zero_of_le (by omega), List.drop_zero,
      List.drop_zero]

/-- What is left of a queue after some of its elements were taken from the front: one more element
joins it, and pushes the oldest one out only if nothing was taken. -/
theorem latest_taken {p : α → Bool} {left : List α} (hcapacity : 0 < capacity) (hnodup : as.Nodup)
    (hleft : (latest capacity as).filter p = left) (hsuffix : left <:+ latest capacity as)
    (ha : p a = true) :
    (latest capacity (as ++ [a])).filter p =
        (if left.length = capacity then left.tail else left) ++ [a] ∧
      (if left.length = capacity then left.tail else left) ++ [a] <:+
        latest capacity (as ++ [a]) := by
  have hkept : ∀ window : List α, (window ++ [a]).filter p = window.filter p ++ [a] := by
    intro window
    rw [List.filter_append, List.filter_cons_of_pos ha, List.filter_nil]
  have hgrow : ∀ {l l' : List α}, l <:+ l' → l ++ [a] <:+ l' ++ [a] := by
    rintro l _ ⟨front, rfl⟩
    exact ⟨front, (List.append_assoc ..).symm⟩
  rw [latest_concat hcapacity, hkept]
  by_cases hfull : (latest capacity as).length = capacity
  · rw [if_pos hfull]
    have hnodup : (latest capacity as).Nodup := hnodup.sublist latest_suffix.sublist
    cases hw : latest capacity as with
    | nil => rw [hw] at hfull; exact absurd hfull hcapacity.ne
    | cons first rest =>
      rw [hw] at hleft hsuffix hfull hnodup
      rw [List.tail_cons]
      by_cases hall : left.length = capacity
      · -- nothing was taken, and the oldest one is dropped
        have hsame : left = first :: rest := hsuffix.eq_of_length (hall.trans hfull.symm)
        have hrest : rest.filter p = rest := by
          rw [List.filter_eq_self]
          intro x hx
          exact List.filter_eq_self.1 (hleft.trans hsame) x (List.mem_cons_of_mem _ hx)
        rw [if_pos hall, hsame, List.tail_cons, hrest]
        exact ⟨rfl, List.suffix_refl _⟩
      · -- the oldest one has already been taken
        have hsuffix : left <:+ rest := by
          rcases List.suffix_cons_iff.1 hsuffix with h | h
          · exact absurd (h ▸ hfull) hall
          · exact h
        have hfirst : ¬ p first = true := by
          intro hp
          have hmem : first ∈ left := by
            rw [← hleft]
            exact List.mem_filter.2 ⟨List.mem_cons_self, hp⟩
          exact (List.nodup_cons.1 hnodup).1 (hsuffix.subset hmem)
        rw [List.filter_cons_of_neg hfirst] at hleft
        rw [if_neg hall, hleft]
        exact ⟨rfl, hgrow hsuffix⟩
  · have hroom : left.length ≠ capacity := by
      have hle := hsuffix.length_le
      rw [latest_length] at hle hfull
      omega
    rw [if_neg hfull, if_neg hroom, hleft]
    exact ⟨rfl, hgrow hsuffix⟩

end Voytty.Lib
