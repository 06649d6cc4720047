import Mathlib

/-!
# UTF-8 scanning

`scan bs` reads one scalar at the head of a byte string, with the three
outcomes of a strict decoder: a scalar and its width, an invalid prefix and its
length, or an incomplete but still extensible prefix. `fromUtf8` iterates it
and reports the first failure; `lossy` replaces every invalid prefix by the
replacement character.

`Scans` is the specification `scan` is held to (`scan_scans`): a scanned scalar
is exactly a `String.utf8EncodeChar` at the head, an invalid prefix has only
high bytes, and an incomplete one extends to an encoding. `scan_snoc` says what
one more byte does to an incomplete prefix.
-/

namespace Voytty.Lib

inductive Scan where
  | char (c : Char) (width : Nat)
  | invalid (len : Nat)
  | incomplete
  deriving DecidableEq, Repr

def isCont (b : UInt8) : Bool := 0x80 ≤ b && b ≤ 0xbf

/-- A lead byte's number of continuation bytes, and the range of the first of them. -/
def utf8Lead (b : UInt8) : Option (Nat × UInt8 × UInt8) :=
  if 0xc2 ≤ b && b ≤ 0xdf then some (1, 0x80, 0xbf)
  else if b = 0xe0 then some (2, 0xa0, 0xbf)
  else if b = 0xed then some (2, 0x80, 0x9f)
  else if 0xe1 ≤ b && b ≤ 0xef then some (2, 0x80, 0xbf)
  else if b = 0xf0 then some (3, 0x90, 0xbf)
  else if 0xf1 ≤ b && b ≤ 0xf3 then some (3, 0x80, 0xbf)
  else if b = 0xf4 then some (3, 0x80, 0x8f)
  else none

def bits6 (b : UInt8) : Nat := b.toNat % 64

def scan : List UInt8 → Scan
  | [] => .incomplete
  | b0 :: r0 =>
    if b0 < 0x80 then .char (Char.ofNat b0.toNat) 1 else
    match utf8Lead b0 with
    | none => .invalid 1
    | some (n, lo, hi) =>
      match r0 with
      | [] => .incomplete
      | b1 :: r1 =>
        if !(lo ≤ b1 && b1 ≤ hi) then .invalid 1 else
        if n = 1 then .char (Char.ofNat (b0.toNat % 32 * 64 + bits6 b1)) 2 else
        match r1 with
        | [] => .incomplete
        | b2 :: r2 =>
          if !isCont b2 then .invalid 2 else
          if n = 2 then
            .char (Char.ofNat (b0.toNat % 16 * 4096 + bits6 b1 * 64 + bits6 b2)) 3
          else
          match r2 with
          | [] => .incomplete
          | b3 :: _ =>
            if !isCont b3 then .invalid 3 else
            .char (Char.ofNat (b0.toNat % 8 * 262144 + bits6 b1 * 4096 + bits6 b2 * 64 +
              bits6 b3)) 4

variable {b : UInt8} {bs : List UInt8}

theorem isCont_iff : isCont b = true ↔ 0x80 ≤ b.toNat ∧ b.toNat ≤ 0xbf := by
  simp [isCont, UInt8.le_iff_toNat_le]

/-- A lead byte and its second byte's range: the narrowed ranges exclude overlong forms,
surrogates and numbers past the last scalar. -/
theorem utf8Lead_some {n : Nat} {lo hi : UInt8} (h : utf8Lead b = some (n, lo, hi)) :
    0x80 ≤ lo.toNat ∧ lo.toNat ≤ hi.toNat ∧ hi.toNat ≤ 0xbf ∧
    ((n = 1 ∧ 0xc2 ≤ b.toNat ∧ b.toNat ≤ 0xdf) ∨
     (n = 2 ∧ 0xe0 ≤ b.toNat ∧ b.toNat ≤ 0xef ∧ (b.toNat = 0xe0 → 0xa0 ≤ lo.toNat) ∧
       (b.toNat = 0xed → hi.toNat ≤ 0x9f)) ∨
     (n = 3 ∧ 0xf0 ≤ b.toNat ∧ b.toNat ≤ 0xf4 ∧ (b.toNat = 0xf0 → 0x90 ≤ lo.toNat) ∧
       (b.toNat = 0xf4 → hi.toNat ≤ 0x8f))) := by
  simp only [utf8Lead, Bool.and_eq_true, decide_eq_true_eq, UInt8.le_iff_toNat_le,
    ← UInt8.toNat_inj, UInt8.toNat_ofNat] at h
  split_ifs at h <;> simp only [Option.some.injEq, Prod.mk.injEq] at h <;>
    obtain ⟨rfl, rfl, rfl⟩ := h <;> simp <;> omega

/-! ## Encodings by their bytes -/

theorem encode_ofNat {v : Nat} (hv : v.isValidChar) :
    String.utf8EncodeChar (Char.ofNat v) =
      if v ≤ 0x7f then [UInt8.ofNat v]
      else if v ≤ 0x7ff then [UInt8.ofNat (v / 64 % 32 + 192), UInt8.ofNat (v % 64 + 128)]
      else if v ≤ 0xffff then
        [UInt8.ofNat (v / 4096 % 16 + 224), UInt8.ofNat (v / 64 % 64 + 128),
          UInt8.ofNat (v % 64 + 128)]
      else
        [UInt8.ofNat (v / 262144 % 8 + 240), UInt8.ofNat (v / 4096 % 64 + 128),
          UInt8.ofNat (v / 64 % 64 + 128), UInt8.ofNat (v % 64 + 128)] := by
  have h : (Char.ofNat v).val.toNat = v := by
    have := Char.toNat_ofNat v
    rw [if_pos hv] at this
    exact this
  simp only [String.utf8EncodeChar, h]

theorem ofNat_eq_byte {v : Nat} (h : v = b.toNat) : UInt8.ofNat v = b := by
  subst h; simp

theorem encode_one (h : b.toNat < 0x80) :
    String.utf8EncodeChar (Char.ofNat b.toNat) = [b] := by
  rw [encode_ofNat (Or.inl (by omega)), if_pos (by omega), ofNat_eq_byte rfl]

theorem encode_two (b0 b1 : UInt8) (h : 0xc2 ≤ b0.toNat ∧ b0.toNat ≤ 0xdf)
    (h1 : 0x80 ≤ b1.toNat ∧ b1.toNat ≤ 0xbf) :
    String.utf8EncodeChar (Char.ofNat (b0.toNat % 32 * 64 + bits6 b1)) = [b0, b1] := by
  simp only [bits6]
  rw [encode_ofNat (Or.inl (by omega)), if_neg (by omega), if_pos (by omega),
    ofNat_eq_byte (b := b0) (by omega), ofNat_eq_byte (b := b1) (by omega)]

theorem encode_three (b0 b1 b2 : UInt8) (h : 0xe0 ≤ b0.toNat ∧ b0.toNat ≤ 0xef)
    (h1 : 0x80 ≤ b1.toNat ∧ b1.toNat ≤ 0xbf) (hlo : b0.toNat = 0xe0 → 0xa0 ≤ b1.toNat)
    (hhi : b0.toNat = 0xed → b1.toNat ≤ 0x9f) (h2 : 0x80 ≤ b2.toNat ∧ b2.toNat ≤ 0xbf) :
    String.utf8EncodeChar (Char.ofNat (b0.toNat % 16 * 4096 + bits6 b1 * 64 + bits6 b2)) =
      [b0, b1, b2] := by
  simp only [bits6]
  rw [encode_ofNat (by simp only [Nat.isValidChar]; omega), if_neg (by omega),
    if_neg (by omega), if_pos (by omega), ofNat_eq_byte (b := b0) (by omega),
    ofNat_eq_byte (b := b1) (by omega), ofNat_eq_byte (b := b2) (by omega)]

theorem encode_four (b0 b1 b2 b3 : UInt8) (h : 0xf0 ≤ b0.toNat ∧ b0.toNat ≤ 0xf4)
    (h1 : 0x80 ≤ b1.toNat ∧ b1.toNat ≤ 0xbf) (hlo : b0.toNat = 0xf0 → 0x90 ≤ b1.toNat)
    (hhi : b0.toNat = 0xf4 → b1.toNat ≤ 0x8f) (h2 : 0x80 ≤ b2.toNat ∧ b2.toNat ≤ 0xbf)
    (h3 : 0x80 ≤ b3.toNat ∧ b3.toNat ≤ 0xbf) :
    String.utf8EncodeChar (Char.ofNat (b0.toNat % 8 * 262144 + bits6 b1 * 4096 +
      bits6 b2 * 64 + bits6 b3)) = [b0, b1, b2, b3] := by
  simp only [bits6]
  rw [encode_ofNat (by simp only [Nat.isValidChar]; omega), if_neg (by omega),
    if_neg (by omega), if_neg (by omega), ofNat_eq_byte (b := b0) (by omega),
    ofNat_eq_byte (b := b1) (by omega), ofNat_eq_byte (b := b2) (by omega),
    ofNat_eq_byte (b := b3) (by omega)]

/-! ## What a scan says about its bytes -/

/-- The relation `scan` computes, by the bytes it reads. -/
inductive Scans : List UInt8 → Scan → Prop where
  | char (c : Char) (rest : List UInt8) :
      Scans (String.utf8EncodeChar c ++ rest) (.char c (String.utf8EncodeChar c).length)
  | invalid (bad rest : List UInt8) (pos : bad ≠ []) (high : ∀ b ∈ bad, 0x80 ≤ b) :
      Scans (bad ++ rest) (.invalid bad.length)
  | incomplete (part : List UInt8) (high : ∀ b ∈ part, 0x80 ≤ b) (c : Char)
      (more : List UInt8) (pos : more ≠ []) (ext : String.utf8EncodeChar c = part ++ more) :
      Scans part .incomplete

theorem scan_scans (bs : List UInt8) : Scans bs (scan bs) := by
  have high : ∀ {b : UInt8}, 0x80 ≤ b.toNat → 0x80 ≤ b := fun h => by
    simpa [UInt8.le_iff_toNat_le] using h
  cases bs with
  | nil => exact .incomplete [] (by simp) 'a' _ (by decide) rfl
  | cons b0 r0 =>
    simp only [scan]
    by_cases hb : b0 < 0x80
    · have hb' : b0.toNat < 0x80 := by simpa [UInt8.lt_iff_toNat_lt] using hb
      simp only [hb, ↓reduceIte]
      simpa [encode_one hb'] using Scans.char (Char.ofNat b0.toNat) r0
    simp only [hb, ↓reduceIte]
    have hb0 : 0x80 ≤ b0 := by simpa using hb
    cases hl : utf8Lead b0 with
    | none => exact .invalid [b0] r0 (by simp) (by simpa using hb0)
    | some l =>
      obtain ⟨n, lo, hi⟩ := l
      obtain ⟨hlo, hlh, hhi, hn⟩ := utf8Lead_some hl
      simp only
      -- the least completion of a truncated sequence: `lo`, then `0x80`s
      have ext1 : ∃ c more, more ≠ [] ∧ String.utf8EncodeChar c = [b0] ++ more := by
        rcases hn with ⟨-, h0⟩ | ⟨-, h0, h0', ha, hb⟩ | ⟨-, h0, h0', ha, hb⟩
        · exact ⟨_, [lo], by simp, encode_two b0 lo h0 (by omega)⟩
        · exact ⟨_, [lo, 0x80], by simp, encode_three b0 lo 0x80 ⟨h0, h0'⟩
            (by omega) (by omega) (by omega) (by decide)⟩
        · exact ⟨_, [lo, 0x80, 0x80], by simp, encode_four b0 lo 0x80 0x80 ⟨h0, h0'⟩ (by omega) (by omega) (by omega) (by decide) (by decide)⟩
      cases r0 with
      | nil =>
        obtain ⟨c, more, hm, he⟩ := ext1
        exact .incomplete [b0] (by simpa using hb0) c more hm he
      | cons b1 r1 =>
        simp only
        by_cases hr : (!(decide (lo ≤ b1) && decide (b1 ≤ hi))) = true
        · simp only [hr, ↓reduceIte]
          exact .invalid [b0] (b1 :: r1) (by simp) (by simpa using hb0)
        simp only [hr, Bool.false_eq_true, ↓reduceIte]
        have hr' : lo.toNat ≤ b1.toNat ∧ b1.toNat ≤ hi.toNat := by
          simpa [UInt8.le_iff_toNat_le] using hr
        have hb1 : 0x80 ≤ b1 := high (by omega)
        rcases hn with ⟨rfl, h0⟩ | ⟨rfl, h0, h0', ha, hb⟩ | ⟨rfl, h0, h0', ha, hb⟩
        · have he := encode_two b0 b1 h0 (by omega)
          simpa [he] using Scans.char (Char.ofNat (b0.toNat % 32 * 64 + bits6 b1)) r1
        · cases r1 with
          | nil =>
            exact .incomplete [b0, b1] (by simp [hb0, hb1]) _ [0x80] (by simp)
              (encode_three b0 b1 0x80 ⟨h0, h0'⟩ (by omega) (by omega) (by omega)
                (by decide))
          | cons b2 r2 =>
            by_cases hc : isCont b2 = true
            · have he := encode_three b0 b1 b2 ⟨h0, h0'⟩ (by omega) (by omega)
                (by omega) (isCont_iff.mp hc)
              simpa [he, hc] using Scans.char
                (Char.ofNat (b0.toNat % 16 * 4096 + bits6 b1 * 64 + bits6 b2)) r2
            · simp only [hc, Bool.not_false, ↓reduceIte]
              simpa using Scans.invalid [b0, b1] (b2 :: r2) (by simp) (by simp [hb0, hb1])
        · cases r1 with
          | nil =>
            exact .incomplete [b0, b1] (by simp [hb0, hb1]) _ [0x80, 0x80] (by simp)
              (encode_four b0 b1 0x80 0x80 ⟨h0, h0'⟩ (by omega) (by omega)
                (by omega) (by decide) (by decide))
          | cons b2 r2 =>
            by_cases hc : isCont b2 = true
            · have hc' := isCont_iff.mp hc
              have hb2 : 0x80 ≤ b2 := high hc'.1
              cases r2 with
              | nil =>
                simp only [hc, Bool.not_true, Bool.false_eq_true, ↓reduceIte]
                exact .incomplete [b0, b1, b2] (by simp [hb0, hb1, hb2]) _ [0x80] (by simp)
                  (encode_four b0 b1 b2 0x80 ⟨h0, h0'⟩ (by omega) (by omega)
                    (by omega) hc' (by decide))
              | cons b3 r3 =>
                by_cases hd : isCont b3 = true
                · have he := encode_four b0 b1 b2 b3 ⟨h0, h0'⟩ (by omega)
                    (by omega) (by omega) hc' (isCont_iff.mp hd)
                  simpa [he, hc, hd] using Scans.char (Char.ofNat (b0.toNat % 8 * 262144 +
                    bits6 b1 * 4096 + bits6 b2 * 64 + bits6 b3)) r3
                · simpa [hc, hd] using Scans.invalid [b0, b1, b2] (b3 :: r3) (by simp)
                    (by simp [hb0, hb1, hb2])
            · simpa [hc] using Scans.invalid [b0, b1] (b2 :: r2) (by simp) (by simp [hb0, hb1])

/-- One byte after an incomplete prefix completes it, breaks it just before that byte, or
leaves it incomplete. -/
theorem scan_snoc {p : List UInt8} (b : UInt8) (hp : p ≠ []) (h : scan p = .incomplete) :
    scan (p ++ [b]) = .incomplete ∨ scan (p ++ [b]) = .invalid p.length ∨
      ∃ c, scan (p ++ [b]) = .char c (p.length + 1) := by
  rcases p with _ | ⟨b0, _ | ⟨b1, _ | ⟨b2, _ | ⟨b3, r⟩⟩⟩⟩
  · exact absurd rfl hp
  all_goals
    simp only [scan, List.cons_append, List.nil_append, List.length_cons, List.length_nil] at h ⊢
    grind

/-! ## Whole texts -/

/-- Where a strict decoder stops: the valid bytes before it, and the length of the invalid
prefix there, `none` at an incomplete end. -/
structure Utf8Error where
  validUpTo : Nat
  errorLen : Option Nat
  deriving DecidableEq, Repr

/-- The fuel bounds the scalars left; every scalar takes a byte. -/
def fromUtf8Aux : Nat → Nat → List UInt8 → Except Utf8Error (List Char)
  | 0, _, _ => .ok []
  | _ + 1, _, [] => .ok []
  | fuel + 1, start, bs =>
    match scan bs with
    | .char c w =>
      match fromUtf8Aux fuel (start + w) (bs.drop w) with
      | .ok cs => .ok (c :: cs)
      | .error e => .error e
    | .invalid n => .error ⟨start, some n⟩
    | .incomplete => .error ⟨start, none⟩

/-- Strict decoding of a whole byte string. -/
def fromUtf8 (bs : List UInt8) : Except Utf8Error (List Char) := fromUtf8Aux bs.length 0 bs

/-- Strict decoding, forgetting where it failed. -/
def decode (bs : List UInt8) : Option (List Char) := (fromUtf8 bs).toOption

def lossyAux : Nat → List UInt8 → List Char
  | 0, _ => []
  | _ + 1, [] => []
  | fuel + 1, bs =>
    match scan bs with
    | .char c w => c :: lossyAux fuel (bs.drop w)
    | .invalid n => Char.ofNat 0xfffd :: lossyAux fuel (bs.drop n)
    | .incomplete => [Char.ofNat 0xfffd]

/-- Decoding with every invalid prefix replaced. -/
def lossy (bs : List UInt8) : List Char := lossyAux bs.length bs

theorem fromUtf8_char {c : Char} (h : scan bs = .char c bs.length) :
    fromUtf8 bs = .ok [c] := by
  cases bs with
  | nil => simp [scan] at h
  | cons b r =>
    have hnil : ∀ fuel start, fromUtf8Aux fuel start [] = .ok [] := by
      intro fuel start; cases fuel <;> rfl
    simp only [fromUtf8, List.length_cons, fromUtf8Aux]
    simp only [List.length_cons] at h
    rw [h]
    simp [hnil]

theorem fromUtf8_invalid {n : Nat} (h : scan bs = .invalid n) :
    fromUtf8 bs = .error ⟨0, some n⟩ := by
  cases bs with
  | nil => simp [scan] at h
  | cons b r => simp only [fromUtf8, List.length_cons, fromUtf8Aux, h]

theorem fromUtf8_incomplete (hne : bs ≠ []) (h : scan bs = .incomplete) :
    fromUtf8 bs = .error ⟨0, none⟩ := by
  cases bs with
  | nil => exact absurd rfl hne
  | cons b r => simp only [fromUtf8, List.length_cons, fromUtf8Aux, h]

/-! ## Byte lengths of texts -/

def byteLen (cs : List Char) : Nat := (cs.map Char.utf8Size).sum

@[simp] theorem byteLen_nil : byteLen [] = 0 := rfl

@[simp] theorem byteLen_cons (c : Char) (cs : List Char) :
    byteLen (c :: cs) = c.utf8Size + byteLen cs := rfl

@[simp] theorem byteLen_append (cs ds : List Char) :
    byteLen (cs ++ ds) = byteLen cs + byteLen ds := by
  simp [byteLen]

def encode (cs : List Char) : List UInt8 := cs.flatMap String.utf8EncodeChar

/-- A control scalar (general category Cc). -/
def isControl (c : Char) : Bool := c.toNat < 0x20 || (0x7f ≤ c.toNat && c.toNat ≤ 0x9f)

end Voytty.Lib
