import Voytty.Lib.Utf8

/-!
# Numbers and fields in texts

The integer syntax of the standard library (`parseUnsigned`: one optional plus
sign, at least one digit, a bound) and the numbers it reads (`Numeral`), decimal
and hexadecimal printing, and splitting at the first separator.
-/

namespace Voytty.Lib

def digitValue (radix : Nat) (c : Char) : Option Nat :=
  let n := c.toNat
  let value :=
    if 0x30 ≤ n ∧ n ≤ 0x39 then some (n - 0x30)
    else if 0x61 ≤ n ∧ n ≤ 0x7a then some (n - 0x61 + 10)
    else if 0x41 ≤ n ∧ n ≤ 0x5a then some (n - 0x41 + 10)
    else none
  value.filter (· < radix)

/-- Accumulates digits, failing on any other character or at `bound`. -/
def parseDigits (radix bound : Nat) : List Char → Nat → Option Nat
  | [], acc => some acc
  | c :: cs, acc =>
    match digitValue radix c with
    | none => none
    | some d => if acc * radix + d < bound then parseDigits radix bound cs (acc * radix + d)
      else none

def parseUnsigned (radix bound : Nat) : List Char → Option Nat
  | [] => none
  | ['+'] => none
  | '+' :: ds => parseDigits radix bound ds 0
  | ds => parseDigits radix bound ds 0

def decimal (n : Nat) : List Char := Nat.toDigits 10 n

def hexDigit (upper : Bool) (n : Nat) : Char :=
  if n < 10 then Char.ofNat (0x30 + n)
  else Char.ofNat ((if upper then 0x41 else 0x61) + (n - 10))

/-- The last `width` hexadecimal digits. -/
def hexPad (upper : Bool) : Nat → Nat → List Char
  | 0, _ => []
  | width + 1, n => hexPad upper width (n / 16) ++ [hexDigit upper (n % 16)]

def splitOnce {α : Type} [DecidableEq α] (sep : α) : List α → Option (List α × List α)
  | [] => none
  | a :: as =>
    if a = sep then some ([], as)
    else (splitOnce sep as).map fun (before, after) => (a :: before, after)

def stripPre {α : Type} [DecidableEq α] : List α → List α → Option (List α)
  | [], as => some as
  | _ :: _, [] => none
  | p :: ps, a :: as => if p = a then stripPre ps as else none

variable {c : Char} {bound v : Nat} {cs : List Char} {α : Type} {bs : List UInt8}

theorem digitValue_lt {radix d : Nat} (h : digitValue radix c = some d) :
    d < radix := by
  simp only [digitValue, Option.filter_eq_some_iff, decide_eq_true_eq] at h
  exact h.2

/-- `n` in digits, the most significant first; without digits it is zero. -/
def Numeral (radix : Nat) (text : List Char) (n : Nat) : Prop :=
  ∃ digits, List.Forall₂ (fun c d => digitValue radix c = some d) text digits ∧
    digits.foldl (fun acc d => acc * radix + d) 0 = n

def unsign [DecidableEq α] (sign : α) : List α → List α
  | a :: b :: rest => if a = sign then b :: rest else a :: b :: rest
  | number => number

theorem unsign_cases [DecidableEq α] (sign : α) (l : List α) :
    unsign sign l = l ∨ l = sign :: unsign sign l := by
  unfold unsign
  split
  · split
    · rename_i ha
      rw [ha]
      exact .inr rfl
    · exact .inl rfl
  · exact .inl rfl

theorem length_unsign_le [DecidableEq α] (sign : α) (l : List α) :
    (unsign sign l).length ≤ l.length := by
  rcases unsign_cases sign l with h | h
  · exact (congrArg List.length h).le
  · exact (Nat.le_succ _).trans (congrArg List.length h).ge

theorem le_foldl_digits {radix : Nat} (hr : 0 < radix) (digits : List Nat) (acc : Nat) :
    acc ≤ digits.foldl (fun acc d => acc * radix + d) acc := by
  induction digits generalizing acc with
  | nil => exact Nat.le_refl _
  | cons d digits ih =>
    have := Nat.le_mul_of_pos_right acc hr
    exact (this.trans (Nat.le_add_right _ _)).trans (ih _)

theorem foldl_digits_lt {radix : Nat} {digits : List Nat} (h : ∀ d ∈ digits, d < radix) (acc : Nat) :
    digits.foldl (fun acc d => acc * radix + d) acc < (acc + 1) * radix ^ digits.length := by
  induction digits generalizing acc with
  | nil => simp
  | cons d digits ih =>
    have hd := h d List.mem_cons_self
    calc digits.foldl _ (acc * radix + d)
        < (acc * radix + d + 1) * radix ^ digits.length :=
          ih (fun d hd => h d (List.mem_cons_of_mem _ hd)) _
      _ ≤ ((acc + 1) * radix) * radix ^ digits.length := by
          apply Nat.mul_le_mul_right; rw [Nat.add_mul]; omega
      _ = (acc + 1) * radix ^ (d :: digits).length := by
          rw [List.length_cons, Nat.pow_succ, Nat.mul_assoc, Nat.mul_comm radix]

theorem forall₂_left {β : Type} {R : α → β → Prop} {p : α → Prop} {l : List α} {u : List β}
    (h : List.Forall₂ R l u) (hp : ∀ a b, R a b → p a) : ∀ a ∈ l, p a :=
  ((List.forall₂_and_left l u).mp (h.imp fun a b hab => ⟨hp a b hab, hab⟩)).1

theorem Numeral.digit {radix n : Nat} (h : Numeral radix cs n) (hc : c ∈ cs) :
    ∃ d, digitValue radix c = some d := by
  obtain ⟨digits, hd, -⟩ := h
  exact forall₂_left (p := fun c => ∃ d, digitValue radix c = some d) hd (fun c d h => ⟨d, h⟩) c hc

theorem Numeral.lt {radix n : Nat} (h : Numeral radix cs n) : n < radix ^ cs.length := by
  obtain ⟨digits, hd, rfl⟩ := h
  have hlt : ∀ d ∈ digits, d < radix := forall₂_left hd.flip fun _ _ => digitValue_lt
  simpa [hd.length_eq] using foldl_digits_lt hlt 0

theorem numeral_iff_unsign {radix n : Nat} :
    Numeral radix cs n ↔ unsign '+' cs = cs ∧ Numeral radix (unsign '+' cs) n := by
  refine ⟨fun h => ?_, fun h => h.1 ▸ h.2⟩
  rcases unsign_cases '+' cs with heq | heq
  · exact ⟨heq, heq.symm ▸ h⟩
  · obtain ⟨d, hd⟩ := h.digit (heq ▸ List.mem_cons_self)
    cases hd

/-- The digits are all read, and a value that reaches the bound is refused. -/
theorem parseDigits_iff {radix acc : Nat} (hr : 0 < radix) (hacc : acc < bound ∨ cs ≠ []) :
    parseDigits radix bound cs acc = some v ↔
      ∃ digits, List.Forall₂ (fun c d => digitValue radix c = some d) cs digits ∧
        digits.foldl (fun acc d => acc * radix + d) acc = v ∧ v < bound := by
  induction cs generalizing acc with
  | nil =>
    have hlt := hacc.resolve_right fun h => h rfl
    simp only [parseDigits, List.forall₂_nil_left_iff, exists_eq_left, List.foldl_nil,
      Option.some.injEq]
    exact ⟨fun h => ⟨h, h ▸ hlt⟩, And.left⟩
  | cons c cs ih =>
    simp only [parseDigits, List.forall₂_cons_left_iff]
    split
    · rename_i hc
      simp [hc]
    · rename_i d hc
      split
      · rw [ih (.inl ‹_›)]
        simp [hc]
      · rename_i hbound
        refine ⟨nofun, ?_⟩
        rintro ⟨_, ⟨d', digits, hd, -, rfl⟩, rfl, hlt⟩
        obtain rfl : d = d' := Option.some.inj (hc.symm.trans hd)
        exact absurd ((le_foldl_digits hr digits _).trans_lt hlt) hbound

/-- What the standard library reads as a number below `bound`. -/
theorem parseUnsigned_iff {radix : Nat} (hr : 0 < radix) :
    parseUnsigned radix bound cs = some v ↔
      cs ≠ [] ∧ Numeral radix (unsign '+' cs) v ∧ v < bound := by
  have hdigits : ∀ ds ≠ [], (parseDigits radix bound ds 0 = some v ↔
      Numeral radix ds v ∧ v < bound) := fun ds hne => by
    simp only [parseDigits_iff hr (.inr hne), Numeral, exists_and_right, ← and_assoc]
  unfold parseUnsigned
  split
  · exact ⟨nofun, fun h => absurd rfl h.1⟩
  · refine ⟨nofun, fun ⟨_, h, _⟩ => ?_⟩
    obtain ⟨d, hd⟩ := Numeral.digit h List.mem_cons_self
    cases hd
  · rename_i ds hds
    cases ds with
    | nil => exact absurd rfl hds
    | cons d ds =>
      rw [hdigits (d :: ds) (List.cons_ne_nil _ _)]
      exact ⟨fun h => ⟨nofun, h⟩, And.right⟩
  · rename_i hne _ hplus
    have hsame : unsign '+' cs = cs :=
      (unsign_cases '+' cs).resolve_right fun h => hplus _ h
    rw [hdigits _ hne, hsame]
    exact ⟨fun h => ⟨hne, h⟩, And.right⟩

theorem decimal_length_le (h : parseUnsigned 10 bound cs = some v) :
    (decimal v).length ≤ cs.length := by
  obtain ⟨hne, hn, -⟩ := (parseUnsigned_iff (by decide)).mp h
  refine (Nat.length_toDigits_le_iff (by decide) (List.length_pos_iff.mpr hne)).mpr ?_
  exact hn.lt.trans_le (Nat.pow_le_pow_right (by decide) (length_unsign_le _ _))

theorem digitValue_isDigit {d : Nat} (h : digitValue 10 c = some d) :
    c.isDigit = true := by
  simp only [digitValue, Option.filter_eq_some_iff, decide_eq_true_eq] at h
  obtain ⟨h, hd⟩ := h
  have hrange : 0x30 ≤ c.toNat ∧ c.toNat ≤ 0x39 := by
    split at h
    · assumption
    split at h
    · have := Option.some.inj h; omega
    split at h
    · have := Option.some.inj h; omega
    · cases h
  simp only [Char.isDigit, Bool.and_eq_true, decide_eq_true_eq, ge_iff_le,
    UInt32.le_iff_toNat_le]
  exact hrange

theorem parseUnsigned_digits (h : parseUnsigned 10 bound cs = some v) :
    cs ≠ [] ∧ ∃ sign ds : List Char, (sign = [] ∨ sign = ['+']) ∧ cs = sign ++ ds ∧
      ∀ c ∈ ds, c.isDigit = true := by
  obtain ⟨hne, hn, -⟩ := (parseUnsigned_iff (by decide)).mp h
  have hdigit : ∀ c ∈ unsign '+' cs, c.isDigit = true := fun c hc =>
    (hn.digit hc).elim fun _ hd => digitValue_isDigit hd
  rcases unsign_cases '+' cs with heq | heq
  · exact ⟨hne, [], _, .inl rfl, heq.symm, hdigit⟩
  · exact ⟨hne, ['+'], _, .inr rfl, heq, hdigit⟩

/-! ## Separated fields -/

theorem splitOnce_some [DecidableEq α] {sep : α} {l before after : List α}
    (h : splitOnce sep l = some (before, after)) : l = before ++ sep :: after := by
  induction l generalizing before with
  | nil => cases h
  | cons a l ih =>
    unfold splitOnce at h
    split at h
    · rename_i ha
      cases h
      rw [ha]; rfl
    · obtain ⟨⟨b, c⟩, hs, he⟩ := Option.map_eq_some_iff.mp h
      cases he
      rw [ih hs]; rfl

theorem stripPre_some [DecidableEq α] {p l rest : List α} (h : stripPre p l = some rest) :
    l = p ++ rest := by
  induction p generalizing l with
  | nil => cases h; rfl
  | cons a p ih =>
    cases l with
    | nil => cases h
    | cons b l =>
      simp only [stripPre] at h
      split at h
      · rename_i hab
        rw [hab, ih h]; rfl
      · cases h

theorem splitOn_sum [DecidableEq α] (w : α → Nat) (sep : α) (l : List α) :
    ((l.splitOn sep).map fun p => (p.map w).sum + w sep).sum = (l.map w).sum + w sep := by
  unfold List.splitOn
  induction l with
  | nil => simp
  | cons a l ih =>
    rw [List.splitOnP_cons_eq_if_modifyHead]
    split
    · rename_i ha
      rw [beq_iff_eq] at ha
      simp only [List.map_cons, List.sum_cons, ih, List.map_nil, List.sum_nil, ha]; omega
    · cases hs : l.splitOnP (· == sep) with
      | nil => exact absurd hs (List.splitOnP_ne_nil _ _)
      | cons p ps =>
        simp only [hs, List.map_cons, List.sum_cons, List.modifyHead_cons] at ih ⊢
        omega

theorem splitOn_length [DecidableEq α] (sep : α) (l : List α) :
    ((l.splitOn sep).map fun p => p.length + 1).sum = l.length + 1 := by
  simpa using splitOn_sum (fun _ => 1) sep l

theorem length_splitOn_le [DecidableEq α] (sep : α) (l : List α) :
    (l.splitOn sep).length ≤ l.length + 1 := by
  rw [← splitOn_length sep l]
  generalize l.splitOn sep = ps
  induction ps with
  | nil => simp
  | cons p ps ih => simp only [List.map_cons, List.sum_cons, List.length_cons]; omega

theorem mem_intercalate {sep : α} {ls : List (List α)} {a : α} (h : a ∈ [sep].intercalate ls) :
    a = sep ∨ ∃ l ∈ ls, a ∈ l := by
  induction ls with
  | nil => simp at h
  | cons l ls ih =>
    cases ls with
    | nil => exact .inr ⟨l, List.mem_cons_self, by simpa using h⟩
    | cons l' ls =>
      simp only [List.intercalate_cons_cons, List.mem_append, List.mem_singleton] at h
      rcases h with (h | h) | h
      · exact .inr ⟨l, List.mem_cons_self, h⟩
      · exact .inl h
      · rcases ih h with h | ⟨k, hk, ha⟩
        · exact .inl h
        · exact .inr ⟨k, List.mem_cons_of_mem _ hk, ha⟩

theorem length_intercalate_le (sep : α) (ls : List (List α)) :
    ([sep].intercalate ls).length ≤ (ls.map fun l => l.length + 1).sum := by
  induction ls with
  | nil => simp
  | cons l ls ih =>
    cases ls with
    | nil => simp
    | cons l' ls =>
      simp only [List.intercalate_cons_cons, List.length_append, List.length_singleton,
        List.map_cons, List.sum_cons] at ih ⊢
      omega

theorem decimal_digit {n : Nat} (h : c ∈ decimal n) :
    0x30 ≤ c.toNat ∧ c.toNat ≤ 0x39 := by
  have := Nat.isDigit_of_mem_toDigits (by decide) (by decide) h
  simp only [Char.isDigit, Bool.and_eq_true, decide_eq_true_eq, ge_iff_le,
    UInt32.le_iff_toNat_le] at this
  exact this

/-! ## ASCII and decoded lengths -/

theorem encode_ascii (h : ∀ c ∈ cs, c.toNat < 0x80) :
    encode cs = cs.map fun c => UInt8.ofNat c.toNat := by
  induction cs with
  | nil => rfl
  | cons c cs ih =>
    have hc := h c List.mem_cons_self
    have : String.utf8EncodeChar c = [UInt8.ofNat c.toNat] := by
      have := encode_ofNat (v := c.toNat) (Or.inl (by omega))
      rw [Char.ofNat_toNat, if_pos (by omega)] at this
      exact this
    have ih' := ih fun d hd => h d (List.mem_cons_of_mem _ hd)
    simp only [encode, List.flatMap_cons, List.map_cons, this] at ih' ⊢
    rw [ih']; rfl

/-- A byte below 0x80 encodes only the character of that number. -/
theorem mem_encodeChar_low {b : UInt8} (h : b ∈ String.utf8EncodeChar c) (hb : b < 0x80) :
    c.toNat = b.toNat := by
  have hv : c.toNat.isValidChar := c.valid
  have henc := encode_ofNat hv
  rw [Char.ofNat_toNat] at henc
  rw [henc] at h
  rw [UInt8.lt_iff_toNat_lt] at hb
  have hlow : (0x80 : UInt8).toNat = 128 := rfl
  have hbyte : ∀ n : Nat, 128 ≤ n → n < 256 → b ≠ UInt8.ofNat n := by
    rintro n h1 h2 rfl
    rw [UInt8.toNat_ofNat', Nat.mod_eq_of_lt h2] at hb
    omega
  split at h
  · obtain rfl := List.mem_singleton.mp h
    rw [UInt8.toNat_ofNat', Nat.mod_eq_of_lt (by omega)]
  · exfalso
    split at h
    · simp only [List.mem_cons, List.not_mem_nil, or_false] at h
      rcases h with h | h <;> exact hbyte _ (by omega) (by omega) h
    split at h
    · simp only [List.mem_cons, List.not_mem_nil, or_false] at h
      rcases h with h | h | h <;> exact hbyte _ (by omega) (by omega) h
    · simp only [List.mem_cons, List.not_mem_nil, or_false] at h
      rcases h with h | h | h | h <;> exact hbyte _ (by omega) (by omega) h

theorem encode_head {b : UInt8} (hb : b < 0x80) (h : encode cs = b :: bs) :
    ∃ rest, cs = Char.ofNat b.toNat :: rest ∧ encode rest = bs := by
  cases cs with
  | nil => cases h
  | cons c cs =>
    have hmem : b ∈ String.utf8EncodeChar c := by
      cases he : String.utf8EncodeChar c with
      | nil => exact absurd he String.utf8EncodeChar_ne_nil
      | cons d ds =>
        simp only [encode, List.flatMap_cons, he, List.cons_append, List.cons.injEq] at h
        simp [h.1]
    have hc : c = Char.ofNat b.toNat := by rw [← mem_encodeChar_low hmem hb, Char.ofNat_toNat]
    have hone : String.utf8EncodeChar c = [b] := by
      rw [hc]; exact encode_one (by simpa [UInt8.lt_iff_toNat_lt] using hb)
    simp only [encode, List.flatMap_cons, hone, List.cons_append, List.nil_append,
      List.cons.injEq, true_and] at h
    exact ⟨cs, by rw [hc], h⟩

theorem length_encode (cs : List Char) : (encode cs).length = byteLen cs := by
  induction cs with
  | nil => rfl
  | cons c cs ih =>
    have hc : (String.utf8EncodeChar c).length = c.utf8Size := String.length_utf8EncodeChar c
    simp only [encode, List.flatMap_cons, List.length_append, byteLen_cons, hc] at ih ⊢
    rw [ih]

theorem byteLen_ascii (h : ∀ c ∈ cs, c.toNat < 0x80) : byteLen cs = cs.length := by
  rw [← length_encode, encode_ascii h, List.length_map]

theorem length_le_byteLen (cs : List Char) : cs.length ≤ byteLen cs := by
  induction cs with
  | nil => simp
  | cons c cs ih =>
    have := c.utf8Size_pos
    simp only [List.length_cons, byteLen_cons]; omega

theorem encode_decode (h : decode bs = some cs) :
    encode cs = bs := by
  have aux : ∀ fuel start bs cs, bs.length ≤ fuel → fromUtf8Aux fuel start bs = .ok cs →
      encode cs = bs := by
    intro fuel
    induction fuel with
    | zero =>
      intro start bs cs hlen h
      cases h
      exact (List.length_eq_zero_iff.mp (Nat.le_zero.mp hlen)).symm
    | succ fuel ih =>
      intro start bs cs hlen h
      cases bs with
      | nil => cases h; rfl
      | cons b r =>
        have hs := scan_scans (b :: r)
        simp only [fromUtf8Aux] at h
        split at h
        · rename_i c w hscan
          rw [hscan] at hs
          split at h
          · rename_i ds hr
            cases h
            generalize hl : b :: r = l at hs
            cases hs with
            | char _ rest =>
              have hpos := String.utf8EncodeChar_ne_nil (c := c)
              have hlt : rest.length ≤ fuel := by
                have := congrArg List.length hl
                have := List.length_pos_iff.mpr hpos
                simp only [List.length_append, List.length_cons] at *
                omega
              rw [hl, List.drop_left] at hr
              simp only [encode, List.flatMap_cons]
              exact congrArg _ (ih _ _ _ hlt hr)
          · cases h
        · cases h
        · cases h
  unfold decode at h
  cases hf : fromUtf8 bs with
  | ok ds =>
    rw [hf] at h
    obtain rfl := Option.some.inj h
    exact aux _ _ _ _ (Nat.le_refl _) hf
  | error e => rw [hf] at h; cases h

theorem decode_ascii (h : ∀ b ∈ bs, b < 0x80) :
    decode bs = some (bs.map fun b => Char.ofNat b.toNat) := by
  have haux : ∀ start, fromUtf8Aux bs.length start bs =
      .ok (bs.map fun b => Char.ofNat b.toNat) := by
    induction bs with
    | nil => exact fun _ => rfl
    | cons b bs ih =>
      intro start
      have hscan : scan (b :: bs) = .char (Char.ofNat b.toNat) 1 := if_pos (h b List.mem_cons_self)
      simp only [List.length_cons, fromUtf8Aux, hscan, List.drop_succ_cons, List.drop_zero,
        ih fun b hb => h b (List.mem_cons_of_mem _ hb), List.map_cons]
  rw [decode, fromUtf8, haux]
  rfl

theorem byteLen_decode (h : decode bs = some cs) :
    byteLen cs = bs.length := by
  rw [← length_encode, encode_decode h]

theorem decode_length_le (h : decode bs = some cs) :
    cs.length ≤ bs.length :=
  byteLen_decode h ▸ length_le_byteLen cs

end Voytty.Lib
