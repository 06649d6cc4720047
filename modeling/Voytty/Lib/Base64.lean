import Mathlib

/-!
# Base64

The standard alphabet, without and with padding. Every byte of an encoding is
one of the 64 letters or the padding sign, and an encoding of `n` bytes takes
four bytes for every three.
-/

namespace Voytty.Lib

def isBase64Byte (b : UInt8) : Bool :=
  (0x41 ≤ b && b ≤ 0x5a) || (0x61 ≤ b && b ≤ 0x7a) || (0x30 ≤ b && b ≤ 0x39) || b == 0x2b ||
    b == 0x2f

def base64Letter (n : Nat) : UInt8 :=
  if n < 26 then UInt8.ofNat (0x41 + n)
  else if n < 52 then UInt8.ofNat (0x61 + (n - 26))
  else if n < 62 then UInt8.ofNat (0x30 + (n - 52))
  else if n = 62 then 0x2b
  else 0x2f

/-- Encoding in groups of three bytes, each short group followed by `pad`. -/
def base64With (pad : List UInt8) : List UInt8 → List UInt8
  | [] => []
  | [a] => [base64Letter (a.toNat / 4), base64Letter (a.toNat % 4 * 16)] ++ pad ++ pad
  | [a, b] =>
    [base64Letter (a.toNat / 4), base64Letter (a.toNat % 4 * 16 + b.toNat / 16),
      base64Letter (b.toNat % 16 * 4)] ++ pad
  | a :: b :: c :: rest =>
    [base64Letter (a.toNat / 4), base64Letter (a.toNat % 4 * 16 + b.toNat / 16),
      base64Letter (b.toNat % 16 * 4 + c.toNat / 64), base64Letter (c.toNat % 64)] ++
      base64With pad rest

def base64NoPad : List UInt8 → List UInt8 := base64With []

theorem base64Letter_isBase64 (n : Nat) : isBase64Byte (base64Letter n) = true := by
  by_cases h : n < 63
  · have : ∀ n < 63, isBase64Byte (base64Letter n) = true := by decide
    exact this n h
  · have : base64Letter n = 0x2f := by
      unfold base64Letter
      rw [if_neg (by omega), if_neg (by omega), if_neg (by omega), if_neg (by omega)]
    rw [this]; rfl

theorem mem_base64With {pad bytes : List UInt8} {b : UInt8} (h : b ∈ base64With pad bytes) :
    isBase64Byte b = true ∨ b ∈ pad := by
  have letter : ∀ n, b = base64Letter n → isBase64Byte b = true := by
    rintro n rfl
    exact base64Letter_isBase64 n
  fun_induction base64With pad bytes with
  | case1 => cases h
  | case2 | case3 => grind
  | case4 a b c rest ih => grind

theorem base64NoPad_length (bytes : List UInt8) :
    3 * (base64NoPad bytes).length ≤ 4 * bytes.length + 2 := by
  unfold base64NoPad
  fun_induction base64With [] bytes with
  | case1 => simp
  | case2 | case3 => simp
  | case4 a b c rest ih =>
    simp only [List.length_append, List.length_cons, List.length_nil] at ih ⊢
    omega

end Voytty.Lib
