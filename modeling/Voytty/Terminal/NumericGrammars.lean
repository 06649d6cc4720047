import Voytty.Terminal.Runs

/-!
# The numbers of escape sequences

The parameters of a control sequence (`parse_parameters`), the channels of a
numeric colour (`parse_terminal_rgb`) and the pairs of a capability's name
(`decode_hex`) are read by the standard library's integer parsers, which also
take a plus sign before the digits. The grammars below look at a number through
`read`: `id` is the strict grammar, and with `unsign '+'` they are the languages
that the parsers accept. On one input the two agree exactly when no number has a
sign, or when the input is malformed without the signs too (`SignFree`).
-/

namespace Voytty.Terminal

open Voytty.Lib

/-! ## Grammars -/

section Grammar

variable (read : List Char → List Char)

def byteChars (field : List UInt8) : List Char := field.map fun b => Char.ofNat b.toNat

/-- Decimal digits of a 16-bit value; no digit stands for zero. -/
def Parameter (field : List UInt8) (value : Nat) : Prop :=
  Numeral 10 (read (byteChars field)) value ∧ value < 2 ^ 16

def ParameterList (text : List UInt8) (values : List Nat) : Prop :=
  (text = [] → values = []) ∧
    (text ≠ [] → List.Forall₂ (Parameter read) (text.splitOn 0x3b) values)

/-- A byte given by hexadecimal digits, from their number and their value. -/
def HexField (lengths : Nat → Prop) (value : Nat → Nat → Nat) (digits : List Char) (b : UInt8) :
    Prop :=
  lengths digits.length ∧ ∃ n, Numeral 16 (read digits) n ∧ b.toNat = value digits.length n

/-- One to four digits, scaled to a byte. -/
def RgbDigits : List Char → UInt8 → Prop :=
  HexField read (fun width => 1 ≤ width ∧ width ≤ 4) fun width n => n * 255 / (16 ^ width - 1)

/-- Digits of which the first two are the byte. -/
def HashDigits : List Char → UInt8 → Prop :=
  HexField read (fun _ => True) fun width n => n * 16 ^ (4 - width) / 256

/-- Two digits. -/
def HexPair : List Char → UInt8 → Prop := HexField read (· = 2) fun _ n => n

def Channels (digits : List Char → UInt8 → Prop) (fields : List (List Char))
    (color : TerminalColorValue) : Prop :=
  ∃ r g b, color = .rgb r g b ∧ List.Forall₂ digits fields [r, g, b]

/-- What follows `rgb:`. -/
def RgbColor (text : List Char) : TerminalColorValue → Prop :=
  Channels (RgbDigits read) (text.splitOn '/')

def thirds (text : List Char) : List (List Char) :=
  let width := text.length / 3
  [text.take width, (text.drop width).take width, (text.drop (2 * width)).take width]

/-- What follows `#`. -/
def HashColor (text : List Char) (color : TerminalColorValue) : Prop :=
  text.length ∈ [3, 6, 9, 12] ∧ Channels (HashDigits read) (thirds text) color

def pairs : List Char → List (List Char)
  | [] => []
  | [a] => [[a]]
  | a :: b :: rest => [a, b] :: pairs rest

def HexName (text name : List Char) : Prop :=
  ∃ bytes, List.Forall₂ (HexPair read) (pairs text) bytes ∧ decode bytes = some name

end Grammar

/-- No number has a sign, or the text is malformed without the signs too. -/
def SignFree {β : Type} (numbers : List (List Char)) (accepted : β → Prop) : Prop :=
  (∀ number ∈ numbers, unsign '+' number = number) ∨ ∀ value, ¬accepted value

/-! ## What the parsers accept -/

variable {p s text : List Char}

theorem ascii_of_digitValue {radix d : Nat} {c : Char} (h : digitValue radix c = some d) :
    c.toNat < 0x80 := by
  simp only [digitValue, Option.filter_eq_some_iff] at h
  obtain ⟨h, -⟩ := h
  split at h
  · omega
  split at h
  · omega
  split at h
  · omega
  · cases h

theorem ascii_of_numeral {radix n : Nat} (h : Numeral radix (unsign '+' p) n) :
    ∀ c ∈ p, c.toNat < 0x80 := by
  intro c hc
  have hdigit : ∀ c ∈ unsign '+' p, c.toNat < 0x80 := fun c hc =>
    (h.digit hc).elim fun _ hd => ascii_of_digitValue hd
  rcases unsign_cases '+' p with heq | heq
  · exact hdigit c (heq.symm ▸ hc)
  · rw [heq] at hc
    rcases List.mem_cons.mp hc with rfl | hc
    · decide
    · exact hdigit c hc

theorem fields_ascii {lengths : Nat → Prop} {value : Nat → Nat → Nat} {fields : List (List Char)}
    {bytes : List UInt8} (h : List.Forall₂ (HexField (unsign '+') lengths value) fields bytes) :
    ∀ c ∈ fields.flatten, c.toNat < 0x80 := by
  intro c hc
  obtain ⟨p, hp, hc⟩ := List.mem_flatten.mp hc
  obtain ⟨n, hn⟩ := forall₂_left (p := fun p => ∃ n, Numeral 16 (unsign '+' p) n) h
    (fun p x h => h.2.imp fun _ => And.left) p hp
  exact ascii_of_numeral hn c hc

theorem numeral_lt {n : Nat} (h : Numeral 16 (unsign '+' p) n) : n < 16 ^ p.length :=
  h.lt.trans_le (Nat.pow_le_pow_right (by decide) (length_unsign_le _ _))

theorem byteChars_of_decode {bytes : List UInt8} (h : decode bytes = some text)
    (hascii : ∀ c ∈ text, c.toNat < 0x80) : byteChars bytes = text := by
  rw [← encode_decode h, encode_ascii hascii, byteChars, List.map_map]
  refine (List.map_congr_left fun c hc => ?_).trans (List.map_id text)
  have := hascii c hc
  simp only [Function.comp_apply, UInt8.toNat_ofNat', id_eq]
  rw [Nat.mod_eq_of_lt (by omega), Char.ofNat_toNat]

theorem decode_byteChars {bytes : List UInt8} (hascii : ∀ c ∈ byteChars bytes, c.toNat < 0x80) :
    decode bytes = some (byteChars bytes) := by
  refine decode_ascii fun b hb => ?_
  have hc := hascii _ (List.mem_map_of_mem hb)
  have hvalid : b.toNat.isValidChar := .inl (by have := b.toNat_lt; omega)
  rw [Char.toNat_ofNat, if_pos hvalid] at hc
  exact hc

theorem parseParameter_iff {field : List UInt8} {value : Nat} :
    parseParameter field = some value ↔ Parameter (unsign '+') field value := by
  unfold parseParameter Parameter
  split
  · rename_i hempty
    obtain rfl := List.isEmpty_iff.mp hempty
    simp only [byteChars, List.map_nil, unsign, Numeral, List.forall₂_nil_left_iff, exists_eq_left,
      List.foldl_nil, Option.some.injEq]
    exact ⟨fun h => ⟨h, h ▸ by decide⟩, And.left⟩
  · rename_i hne
    rw [Option.bind_eq_some_iff]
    constructor
    · rintro ⟨text, hdecode, hparse⟩
      obtain ⟨-, hn, hlt⟩ := (parseUnsigned_iff (by decide)).mp hparse
      rw [byteChars_of_decode hdecode (ascii_of_numeral hn)]
      exact ⟨hn, hlt⟩
    · rintro ⟨hn, hlt⟩
      refine ⟨_, decode_byteChars (ascii_of_numeral hn), (parseUnsigned_iff (by decide)).mpr ?_⟩
      exact ⟨by simpa [byteChars] using hne, hn, hlt⟩

theorem parseParameters_split (body : List UInt8) :
    ∃ marker params, body = marker.toList ++ params ∧
      marker = body.head?.filter (· ∈ [0x3f, 0x3e, 0x3c, 0x3d]) ∧
      parseParameters body = (marker, if params.isEmpty then some []
        else (params.splitOn 0x3b).mapM parseParameter) := by
  unfold parseParameters
  cases body with
  | nil => exact ⟨none, [], rfl, rfl, rfl⟩
  | cons first rest =>
    by_cases hmarker : first ∈ ([0x3f, 0x3e, 0x3c, 0x3d] : List UInt8)
    · refine ⟨some first, rest, rfl, by simp [Option.filter, hmarker], ?_⟩
      dsimp only
      rw [if_pos hmarker]
      split <;> rfl
    · refine ⟨none, first :: rest, rfl, by simp [Option.filter, hmarker], ?_⟩
      dsimp only
      rw [if_neg hmarker]
      rfl

theorem mapM_some_iff {α β : Type} {f : α → Option β} {l : List α} {values : List β} :
    l.mapM f = some values ↔ List.Forall₂ (fun a b => f a = some b) l values := by
  induction l generalizing values with
  | nil => simp [eq_comm]
  | cons a l ih =>
    simp only [List.mapM_cons, Option.pure_def, Option.bind_eq_bind, Option.bind_eq_some_iff, ih,
      Option.some.injEq, List.forall₂_cons_left_iff]
    grind

theorem hexDigits_iff {n : Nat} (hlength : p.length ≤ 4) :
    parseUnsigned 16 (2 ^ 32) p = some n ↔ p ≠ [] ∧ Numeral 16 (unsign '+' p) n := by
  rw [parseUnsigned_iff (by decide)]
  refine ⟨fun ⟨hne, hn, _⟩ => ⟨hne, hn⟩, fun ⟨hne, hn⟩ => ⟨hne, hn, ?_⟩⟩
  exact (numeral_lt hn).trans_le ((Nat.pow_le_pow_right (by decide) hlength).trans (by decide))

/-- `u8::try_from`. -/
def byteOf (n : Nat) : Option UInt8 := if n < 256 then some (UInt8.ofNat n) else none

theorem bind_byteOf_iff {o : Option Nat} {f : Nat → Nat} {channel : UInt8}
    (hf : ∀ n, o = some n → f n < 256) :
    (o.bind fun n => byteOf (f n)) = some channel ↔ ∃ n, o = some n ∧ channel.toNat = f n := by
  cases o with
  | none => simp
  | some n =>
    have hlt := hf n rfl
    simp only [Option.bind_some, byteOf, if_pos hlt, Option.some.injEq, exists_eq_left']
    exact ⟨fun h => h ▸ Nat.mod_eq_of_lt hlt, fun h => by rw [← h]; simp⟩

theorem rgbChannel_iff {channel : UInt8} :
    rgbChannel p = some channel ↔ RgbDigits (unsign '+') p channel := by
  by_cases hform : (p.isEmpty || decide (byteLen p > 4)) = true
  · rw [rgbChannel, if_pos hform]
    refine ⟨nofun, ?_⟩
    rintro ⟨⟨hpos, hlength⟩, n, hn, -⟩
    rw [byteLen_ascii (ascii_of_numeral hn)] at hform
    simp [List.length_pos_iff.mp hpos, hlength.not_gt] at hform
  · have heq : rgbChannel p = (parseUnsigned 16 (2 ^ 32) p).bind fun n =>
        byteOf (n * 255 / (2 ^ (byteLen p * 4) - 1)) := by
      rw [rgbChannel, if_neg hform]
      cases parseUnsigned 16 (2 ^ 32) p <;> rfl
    simp only [List.isEmpty_iff, Bool.or_eq_true, decide_eq_true_eq, not_or, Nat.not_lt] at hform
    have hlength : p.length ≤ 4 := (length_le_byteLen p).trans hform.2
    have hpow : ∀ {n}, Numeral 16 (unsign '+' p) n → 2 ^ (byteLen p * 4) = 16 ^ p.length :=
      fun hn => by rw [byteLen_ascii (ascii_of_numeral hn), Nat.mul_comm, Nat.pow_mul]
    rw [heq]
    refine (bind_byteOf_iff fun n hparse => ?_).trans ?_
    · obtain ⟨-, hn⟩ := (hexDigits_iff hlength).mp hparse
      have hlt := numeral_lt hn
      rw [hpow hn]
      rcases Nat.eq_zero_or_pos (16 ^ p.length - 1) with hz | hpos
      · simp [hz]
      · exact (Nat.div_lt_iff_lt_mul hpos).mpr (by omega)
    · simp only [hexDigits_iff hlength]
      constructor
      · rintro ⟨n, ⟨hne, hn⟩, hchannel⟩
        rw [hpow hn] at hchannel
        exact ⟨⟨List.length_pos_iff.mpr hne, hlength⟩, n, hn, hchannel⟩
      · rintro ⟨-, n, hn, hchannel⟩
        exact ⟨n, ⟨hform.1, hn⟩, by rw [hpow hn]; exact hchannel⟩

theorem hashChannel_iff {width : Nat} {channel : UInt8} (hp : p.length = width) (hpos : 1 ≤ width)
    (hwidth : width ≤ 4) :
    hashChannel width p = some channel ↔ HashDigits (unsign '+') p channel := by
  have hne : p ≠ [] := List.length_pos_iff.mp (hp ▸ hpos)
  have hpow : 2 ^ (16 - width * 4) = 16 ^ (4 - width) := by
    rw [show 16 - width * 4 = 4 * (4 - width) by omega, Nat.pow_mul]
  have heq : hashChannel width p = (parseUnsigned 16 (2 ^ 32) p).bind fun n =>
      byteOf (n * 2 ^ (16 - width * 4) / 256) := by
    rw [hashChannel]
    cases parseUnsigned 16 (2 ^ 32) p <;> rfl
  rw [heq, hpow]
  refine (bind_byteOf_iff fun n hparse => ?_).trans ?_
  · obtain ⟨-, hn⟩ := (hexDigits_iff (hp ▸ hwidth)).mp hparse
    have hmul : n * 16 ^ (4 - width) < 16 ^ width * 16 ^ (4 - width) :=
      Nat.mul_lt_mul_of_pos_right (hp ▸ numeral_lt hn) (by positivity)
    rw [← Nat.pow_add, Nat.add_sub_cancel' hwidth] at hmul
    omega
  · simp only [hexDigits_iff (hp ▸ hwidth), HashDigits, HexField, hp, true_and]
    simp only [ne_eq, hne, not_false_eq_true, true_and]

theorem channels_iff {a b c : Option UInt8} {color : TerminalColorValue} :
    (match a, b, c with
      | some r, some g, some b => some (.rgb r g b)
      | _, _, _ => none) = some color ↔
      ∃ r g b', color = .rgb r g b' ∧ a = some r ∧ b = some g ∧ c = some b' := by
  split
  · simp [eq_comm]
  · rename_i hnone
    refine ⟨nofun, ?_⟩
    rintro ⟨r, g, b', -, rfl, rfl, rfl⟩
    exact absurd rfl (hnone r g b' rfl rfl)

theorem threeChannels_iff {channel : List Char → Option UInt8} {color : TerminalColorValue} :
    threeChannels channel s = some color ↔
      Channels (fun p x => channel p = some x) (s.splitOn '/') color := by
  unfold threeChannels Channels
  split
  · rename_i hfields
    refine Iff.trans channels_iff ?_
    simp [hfields]
  · rename_i hnot
    refine ⟨nofun, ?_⟩
    rintro ⟨r, g, b, -, hforall⟩
    have hlength := hforall.length_eq
    obtain ⟨x, y, z, hxyz⟩ := List.length_eq_three.mp hlength
    exact absurd hxyz (hnot x y z)

theorem parseTerminalRgb_rgb_iff {v : Vendor} {value : List Char} {color : TerminalColorValue}
    (h : stripAlpha v value = some ("rgb:".toList ++ s)) :
    parseTerminalRgb v value = some color ↔ RgbColor (unsign '+') s color := by
  have hstrip : stripPre "rgb:".toList ("rgb:".toList ++ s) = some s := by simp [stripPre]
  unfold parseTerminalRgb
  rw [h]
  dsimp only
  rw [hstrip]
  simp only [threeChannels_iff, rgbChannel_iff]
  rfl

theorem thirds_spec (h : s.length ∈ [3, 6, 9, 12]) :
    1 ≤ s.length / 3 ∧ s.length / 3 ≤ 4 ∧ (∀ p ∈ thirds s, p.length = s.length / 3) ∧
      (thirds s).flatten = s := by
  have hthree : s.length = 3 * (s.length / 3) ∧ 1 ≤ s.length / 3 ∧ s.length / 3 ≤ 4 := by
    simp only [List.mem_cons, List.not_mem_nil, or_false] at h
    omega
  obtain ⟨hlength, hpos, hwidth⟩ := hthree
  refine ⟨hpos, hwidth, ?_, ?_⟩
  · simp [thirds]
    omega
  · have hrest : (s.drop (2 * (s.length / 3))).take (s.length / 3) = s.drop (2 * (s.length / 3)) :=
      List.take_of_length_le (by simp; omega)
    simp only [thirds, List.flatten_cons, List.flatten_nil, List.append_nil, hrest]
    rw [two_mul, ← List.drop_drop, List.take_append_drop, List.take_append_drop]

theorem parseTerminalRgb_hash_iff {v : Vendor} {value : List Char} {color : TerminalColorValue}
    (h : stripAlpha v value = some ('#' :: s)) :
    parseTerminalRgb v value = some color ↔ HashColor (unsign '+') s color := by
  have hrgb : stripPre "rgb:".toList ('#' :: s) = none := by simp [stripPre]
  have hhash : stripPre ['#'] ('#' :: s) = some s := by simp [stripPre]
  unfold parseTerminalRgb HashColor
  rw [h]
  dsimp only
  rw [hrgb, hhash]
  dsimp only
  by_cases hascii : ∀ c ∈ s, c.toNat < 0x80
  · rw [byteLen_ascii hascii]
    split
    · rename_i hform
      obtain ⟨hpos, hwidth, hlength, -⟩ := thirds_spec hform.1
      simp only [thirds, List.mem_cons, List.not_mem_nil, or_false, forall_eq_or_imp, forall_eq]
        at hlength
      refine Iff.trans channels_iff ?_
      simp only [Channels, thirds, List.forall₂_cons, List.forall₂_nil_left_iff, and_true,
        hashChannel_iff hlength.1 hpos hwidth, hashChannel_iff hlength.2.1 hpos hwidth,
        hashChannel_iff hlength.2.2 hpos hwidth, hform.1, true_and]
    · rename_i hform
      exact ⟨by simp, fun hcolor => absurd ⟨hcolor.1, by simpa using hascii⟩ hform⟩
  · rw [if_neg (by simpa using fun _ => hascii)]
    refine ⟨by simp, ?_⟩
    rintro ⟨hs, r, g, b, -, hforall⟩
    exact absurd ((thirds_spec hs).2.2.2 ▸ fields_ascii hforall) hascii

theorem hexBytes_iff {bytes : List UInt8} :
    hexBytes text = some bytes ↔ List.Forall₂ (HexPair (unsign '+')) (pairs text) bytes := by
  induction text using pairs.induct generalizing bytes with
  | case1 => simp [hexBytes, pairs, eq_comm]
  | case2 a => simp [hexBytes, pairs, HexPair, HexField, List.forall₂_cons_left_iff]
  | case3 a b rest ih =>
    simp only [hexBytes, pairs, List.forall₂_cons_left_iff]
    constructor
    · intro h
      split at h
      · rename_i n bytes' hparse hrest
        obtain ⟨-, hn, hlt⟩ := (parseUnsigned_iff (by decide)).mp hparse
        have hbyte : (UInt8.ofNat n).toNat = n := Nat.mod_eq_of_lt hlt
        exact ⟨_, bytes', ⟨rfl, n, hn, hbyte⟩, ih.mp hrest, (Option.some.inj h).symm⟩
      · cases h
    · rintro ⟨byte, bytes', ⟨-, _, hn, rfl⟩, hrest, rfl⟩
      have hparse : parseUnsigned 16 256 [a, b] = some byte.toNat :=
        (parseUnsigned_iff (by decide)).mpr ⟨by simp, hn, byte.toNat_lt⟩
      rw [hparse, ih.mpr hrest]
      simp

theorem decodeHex_iff {name : List Char} :
    decodeHex text = some name ↔ HexName (unsign '+') text name := by
  unfold decodeHex HexName
  simp only [← hexBytes_iff]
  constructor
  · intro h
    split at h
    · cases h
    · exact Option.bind_eq_some_iff.mp h
  · rintro ⟨bytes, hbytes, hname⟩
    have hflatten : ∀ t, (pairs t).flatten = t := fun t => by
      induction t using pairs.induct with
      | case1 | case2 => rfl
      | case3 a b rest ih => simp [pairs, ih]
    have hascii := fields_ascii (hexBytes_iff.mp hbytes)
    rw [hflatten] at hascii
    have heven : byteLen text % 2 = 0 := by
      rw [byteLen_ascii hascii, ← hexBytes_length hbytes]
      omega
    rw [if_neg (by simpa [heven] using hascii)]
    exact Option.bind_eq_some_iff.mpr ⟨bytes, hbytes, hname⟩

/-! ## Where the grammars agree -/

theorem agree_iff {β : Type} {numbers : List (List Char)} {code strict lax : β → Prop}
    (hcode : ∀ v, code v ↔ lax v)
    (hstrict : ∀ v, strict v ↔ (∀ n ∈ numbers, unsign '+' n = n) ∧ lax v) :
    (∀ v, code v ↔ strict v) ↔ SignFree numbers lax := by
  simp only [hcode, hstrict, SignFree]
  constructor
  · intro h
    by_cases hfree : ∀ n ∈ numbers, unsign '+' n = n
    · exact .inl hfree
    · exact .inr fun v hv => hfree ((h v).mp hv).1
  · rintro (hfree | hnone) v
    · exact ⟨fun h => ⟨hfree, h⟩, And.right⟩
    · exact ⟨fun h => absurd h (hnone v), fun h => absurd h.2 (hnone v)⟩

theorem forall₂_strict {α β : Type} (R : (List Char → List Char) → α → β → Prop)
    (number : α → List Char) {l : List α} {values : List β}
    (h : ∀ a b, R id a b ↔ unsign '+' (number a) = number a ∧ R (unsign '+') a b) :
    List.Forall₂ (R id) l values ↔
      (∀ n ∈ l.map number, unsign '+' n = n) ∧ List.Forall₂ (R (unsign '+')) l values := by
  rw [List.forall_mem_map, ← List.forall₂_and_left]
  exact ⟨fun hf => hf.imp fun a b => (h a b).mp, fun hf => hf.imp fun a b => (h a b).mpr⟩

theorem parameterList_strict {params : List UInt8} {values : List Nat} :
    ParameterList id params values ↔
      (∀ n ∈ (params.splitOn 0x3b).map byteChars, unsign '+' n = n) ∧
        ParameterList (unsign '+') params values := by
  unfold ParameterList
  by_cases hempty : params = []
  · simp [hempty, byteChars, unsign]
  · have hfields : List.Forall₂ (Parameter id) (params.splitOn 0x3b) values ↔ _ :=
      forall₂_strict Parameter byteChars fun field value => by
        simp only [Parameter, id_eq]
        rw [numeral_iff_unsign, and_assoc]
    simpa [hempty] using hfields

theorem hexField_strict (lengths : Nat → Prop) (value : Nat → Nat → Nat) (digits : List Char)
    (b : UInt8) :
    HexField id lengths value digits b ↔
      unsign '+' digits = digits ∧ HexField (unsign '+') lengths value digits b := by
  simp only [HexField, id_eq]
  constructor
  · rintro ⟨hlength, n, hn, hb⟩
    rw [numeral_iff_unsign] at hn
    exact ⟨hn.1, hlength, n, hn.2, hb⟩
  · rintro ⟨hfree, hlength, n, hn, hb⟩
    exact ⟨hlength, n, numeral_iff_unsign.mpr ⟨hfree, hn⟩, hb⟩

theorem hexFields_strict {lengths : Nat → Prop} {value : Nat → Nat → Nat}
    {fields : List (List Char)} {bytes : List UInt8} :
    List.Forall₂ (HexField id lengths value) fields bytes ↔
      (∀ n ∈ fields, unsign '+' n = n) ∧
        List.Forall₂ (HexField (unsign '+') lengths value) fields bytes := by
  have h : List.Forall₂ (HexField id lengths value) fields bytes ↔ _ :=
    forall₂_strict (fun read => HexField read lengths value) id (hexField_strict lengths value)
  rwa [List.map_id] at h

theorem rgbColor_strict {color : TerminalColorValue} :
    RgbColor id s color ↔
      (∀ n ∈ s.splitOn '/', unsign '+' n = n) ∧ RgbColor (unsign '+') s color := by
  simp only [RgbColor, Channels, RgbDigits, hexFields_strict]
  grind

theorem hashColor_strict {color : TerminalColorValue} :
    HashColor id s color ↔
      (∀ n ∈ thirds s, unsign '+' n = n) ∧ HashColor (unsign '+') s color := by
  simp only [HashColor, Channels, HashDigits, hexFields_strict]
  grind

theorem hexName_strict {name : List Char} :
    HexName id text name ↔
      (∀ n ∈ pairs text, unsign '+' n = n) ∧ HexName (unsign '+') text name := by
  simp only [HexName, HexPair, hexFields_strict, exists_and_left, and_assoc]

end Voytty.Terminal
