import Mathlib

/-!
# Prefix codes

An encoding is a prefix code when what it wrote can be split off from whatever
follows. Fields that are written one after another are read back one after
another, each by the code of its own: fixed widths, length-prefixed strings and
counted lists.
-/

namespace Voytty.Lib

variable {α β γ : Type}

/-- What `f` wrote first, and what follows it, are determined by the whole. -/
def PrefixCode (f : α → List β) : Prop :=
  ∀ ⦃a b : α⦄ ⦃xs ys : List β⦄, f a ++ xs = f b ++ ys → a = b ∧ xs = ys

namespace PrefixCode

theorem of_length {f : α → List β} {n : Nat} (hlength : ∀ a, (f a).length = n)
    (hinj : Function.Injective f) : PrefixCode f := by
  intro a b xs ys h
  obtain ⟨hf, hrest⟩ := List.append_inj h ((hlength a).trans (hlength b).symm)
  exact ⟨hinj hf, hrest⟩

theorem flatMap {f : α → List β} (hf : PrefixCode f) {as bs : List α}
    (hlength : as.length = bs.length) {xs ys : List β}
    (h : as.flatMap f ++ xs = bs.flatMap f ++ ys) : as = bs ∧ xs = ys := by
  induction as generalizing bs with
  | nil =>
    obtain rfl := List.length_eq_zero_iff.mp hlength.symm
    exact ⟨rfl, h⟩
  | cons a as ih =>
    cases bs with
    | nil => cases hlength
    | cons b bs =>
      simp only [List.flatMap_cons, List.append_assoc] at h
      obtain ⟨rfl, htail⟩ := hf h
      obtain ⟨rfl, hrest⟩ := ih (Nat.succ.inj hlength) htail
      exact ⟨rfl, hrest⟩

end PrefixCode

/-- The lowest `width` bytes of `n`, the highest first. -/
def bigEndian : (width n : Nat) → List UInt8
  | 0, _ => []
  | width + 1, n => bigEndian width (n / 256) ++ [UInt8.ofNat n]

theorem bigEndian_length (width n : Nat) : (bigEndian width n).length = width := by
  induction width generalizing n with
  | zero => rfl
  | succ width ih => simp [bigEndian, ih]

theorem bigEndian_inj {width n m : Nat} (hn : n < 256 ^ width) (hm : m < 256 ^ width)
    (h : bigEndian width n = bigEndian width m) : n = m := by
  induction width generalizing n m with
  | zero => simp at hn hm; omega
  | succ width ih =>
    obtain ⟨hhigh, hlow⟩ := List.append_inj' h rfl
    rw [pow_succ] at hn hm
    have hdiv := ih (Nat.div_lt_of_lt_mul (by omega)) (Nat.div_lt_of_lt_mul (by omega)) hhigh
    have hmod : n % 256 = m % 256 := by
      simpa using congrArg UInt8.toNat (List.singleton_inj.mp hlow)
    omega

theorem PrefixCode.bigEndian {value : α → Nat} {width : Nat} (hvalue : Function.Injective value)
    (hbound : ∀ a, value a < 256 ^ width) :
    PrefixCode fun a => Lib.bigEndian width (value a) :=
  .of_length (fun _ => bigEndian_length _ _) fun a b h =>
    hvalue (bigEndian_inj (hbound a) (hbound b) h)

theorem PrefixCode.lengthPrefixed {bytes : α → List UInt8} {width : Nat}
    (hbytes : Function.Injective bytes) (hbound : ∀ a, (bytes a).length < 256 ^ width) :
    PrefixCode fun a => Lib.bigEndian width (bytes a).length ++ bytes a := by
  intro a b xs ys h
  simp only [List.append_assoc] at h
  obtain ⟨hlength, h⟩ := List.append_inj h (by rw [bigEndian_length, bigEndian_length])
  obtain ⟨heq, hrest⟩ := List.append_inj h (bigEndian_inj (hbound a) (hbound b) hlength)
  exact ⟨hbytes heq, hrest⟩

/-- Two labels that differ early make whatever they stand before differ. -/
theorem label_ne {l l' : List β} {n : Nat} (h : l.take n ≠ l'.take n) (hn : n ≤ l.length)
    (hn' : n ≤ l'.length) (xs ys : List β) : l ++ xs ≠ l' ++ ys := by
  intro heq
  refine h ?_
  have := congrArg (List.take n) heq
  rwa [List.take_append_of_le_length hn, List.take_append_of_le_length hn'] at this

end Voytty.Lib
