import Voytty.Terminal.Ingress

/-!
# Byte strings the filter may hand over

`Contained` lists them: single controls, printable characters, fragments that
decode to nothing, complete escape and control sequences within their bounds,
and rebuilt private-mode sequences. A stream of contained strings never opens a
control string (`EscapesFramed`). The rest of the module says when a collected
sequence or a list of modes stays within the bounds.
-/

namespace Voytty.Terminal

open Voytty.Lib

/-- Second bytes that would open a CSI, OSC, DCS, APC, PM or SOS sequence. -/
def introducers : List UInt8 := [0x5b, 0x5d, 0x50, 0x5f, 0x5e, 0x58]

structure IsCsi (bytes body : List UInt8) (final : UInt8) : Prop where
  bytes : bytes = [0x1b, 0x5b] ++ body ++ [final]
  body : ∀ b ∈ body, 0x20 ≤ b ∧ b ≤ 0x3f
  final : 0x40 ≤ final ∧ final ≤ 0x7e

def Printable (c : Char) : Prop := 0x20 ≤ c.toNat ∧ c.toNat ≠ 0x7f

/-- A byte string the filter may hand over. -/
inductive Contained : List UInt8 → Prop where
  | control (b : UInt8) (low : b < 0x20 ∨ b = 0x7f) (esc : b ≠ 0x1b) (bel : b ≠ 0x07) :
      Contained [b]
  | character (c : Char) (printable : Printable c) : Contained (String.utf8EncodeChar c)
  | fragment (bytes : List UInt8) (nonempty : bytes ≠ []) (high : ∀ b ∈ bytes, 0x80 ≤ b)
      (invalid : decode bytes = none) : Contained bytes
  | escape (intermediates : List UInt8) (final : UInt8)
      (middle : ∀ b ∈ intermediates, 0x20 ≤ b ∧ b ≤ 0x2f) (last : 0x30 ≤ final ∧ final ≤ 0x7e)
      (second : ∀ b, (intermediates ++ [final]).head? = some b → b ∉ introducers)
      (short : (0x1b :: intermediates ++ [final]).length ≤ 256) :
      Contained (0x1b :: intermediates ++ [final])
  | csi (bytes body : List UInt8) (final : UInt8) (shape : IsCsi bytes body final)
      (short : bytes.length ≤ 256) : Contained bytes
  | rebuilt (modes : List Nat) (enabled : Bool) (body : List UInt8) (final : UInt8)
      (shape : IsCsi (privateModeSequence modes enabled) body final)
      (short : (privateModeSequence modes enabled).length ≤ 512) :
      Contained (privateModeSequence modes enabled)

/-! ## Rebuilt private-mode sequences -/

def modesCost (modes : List Nat) : Nat := (modes.map fun mode => (decimal mode).length + 1).sum

/-- Modes whose rebuilt sequence stays within its bound. -/
def ModesFit (modes : List Nat) : Prop := modesCost modes ≤ 506

theorem modesCost_sublist {as bs : List Nat} (h : as.Sublist bs) : modesCost as ≤ modesCost bs :=
  (h.map _).sum_le_sum fun _ _ => Nat.zero_le _

theorem contained_rebuilt {modes : List Nat} (h : ModesFit modes) (enabled : Bool) :
    Contained (privateModeSequence modes enabled) := by
  have hchar : ∀ c ∈ [';'].intercalate (modes.map decimal), 0x30 ≤ c.toNat ∧ c.toNat ≤ 0x3b := by
    intro c hc
    rcases mem_intercalate hc with rfl | ⟨l, hl, hc⟩
    · decide
    · obtain ⟨n, -, rfl⟩ := List.mem_map.mp hl
      have := decimal_digit hc
      omega
  have hascii := encode_ascii fun c hc => by have := hchar c hc; omega
  refine .rebuilt modes enabled (0x3f :: encode ([';'].intercalate (modes.map decimal)))
    (if enabled then 0x68 else 0x6c) ⟨rfl, ?_, by cases enabled <;> decide⟩ ?_
  · intro b hb
    rcases List.mem_cons.mp hb with rfl | hb
    · decide
    · rw [hascii] at hb
      obtain ⟨c, hc, rfl⟩ := List.mem_map.mp hb
      have := hchar c hc
      simp only [UInt8.le_iff_toNat_le, UInt8.toNat_ofNat']
      have : c.toNat % 2 ^ 8 = c.toNat := Nat.mod_eq_of_lt (by omega)
      rw [this]; exact ⟨by simp; omega, by simp; omega⟩
  · have hlen := length_intercalate_le ';' (modes.map decimal)
    have hcost : ((modes.map decimal).map fun l => l.length + 1).sum = modesCost modes := by
      simp [modesCost, Function.comp_def]
    unfold ModesFit at h
    simp only [privateModeSequence, hascii, List.length_append, List.length_cons, List.length_nil,
      List.length_map]
    omega

theorem parseParameter_length {value : List UInt8} {v : Nat} (h : parseParameter value = some v) :
    (decimal v).length ≤ value.length + 1 := by
  unfold parseParameter at h
  split at h
  · cases h; simp [decimal]
  · obtain ⟨text, ht, hp⟩ := Option.bind_eq_some_iff.mp h
    have h1 := decimal_length_le hp
    have h2 := decode_length_le ht
    omega

theorem mapM_parseParameter_cost {pieces : List (List UInt8)} {values : List Nat}
    (h : pieces.mapM parseParameter = some values) :
    modesCost values ≤ (pieces.map fun p => p.length + 1).sum + pieces.length := by
  induction pieces generalizing values with
  | nil => simp at h; subst h; simp [modesCost]
  | cons p ps ih =>
    simp only [List.mapM_cons, Option.pure_def, Option.bind_eq_bind, Option.bind_eq_some_iff] at h
    obtain ⟨v, hv, vs, hvs, hv'⟩ := h
    obtain rfl := Option.some.inj hv'
    have h1 := parseParameter_length hv
    have h2 := ih hvs
    simp only [modesCost, List.map_cons, List.sum_cons, List.length_cons] at h2 ⊢
    omega

/-- A parsed private parameter list prints to at most twice its source. -/
theorem parseParameters_cost {body : List UInt8} {marker : UInt8} {values : List Nat}
    (h : parseParameters body = (some marker, some values)) :
    modesCost values ≤ 2 * body.length := by
  cases body with
  | nil => simp [parseParameters] at h
  | cons first rest =>
    simp only [parseParameters] at h
    split at h
    · -- the marker is taken off, the rest split at semicolons
      split at h
      · simp only [Prod.mk.injEq, Option.some.injEq] at h
        simp [modesCost, ← h.2]
      · simp only [Prod.mk.injEq] at h
        have h1 := mapM_parseParameter_cost h.2
        have h2 := splitOn_length 0x3b rest
        have h3 := length_splitOn_le 0x3b rest
        simp only [List.length_cons]
        omega
    · split at h <;> simp at h

/-! ## Sequences being collected -/

/-- A collected sequence is discarded, or is `start` and then only bytes of the class `middle`. -/
def Sequence.Ok (start : List UInt8) (middle : UInt8 → Prop) (s : Sequence) : Prop :=
  s.overflowed = true ∨
    ∃ tail, s.bytes = start ++ tail ∧ (∀ b ∈ tail, middle b) ∧
      s.bytes.length ≤ s.inputBytes ∧ s.inputBytes ≤ maxControlSequenceBytes

def EscapeOk : Sequence → Prop := Sequence.Ok [0x1b] fun b => 0x20 ≤ b ∧ b ≤ 0x2f

/-- A control sequence's parameters and intermediates. -/
def CsiOk : Sequence → Prop := Sequence.Ok [0x1b, 0x5b] fun b => 0x20 ≤ b ∧ b ≤ 0x3f

theorem Sequence.noteInputByte_cases (s : Sequence) :
    s.noteInputByte.2.overflowed = true ∨
      (s.noteInputByte = (true, { s with inputBytes := s.inputBytes + 1 }) ∧
        s.overflowed = false ∧ s.inputBytes < maxControlSequenceBytes) := by
  by_cases h : s.inputBytes < maxControlSequenceBytes ∧ s.overflowed = false
  · exact .inr ⟨by simp [noteInputByte, h], h.2, h.1⟩
  · left
    simp only [noteInputByte]
    grind

theorem Sequence.push_cases (s : Sequence) (byte : UInt8) :
    (s.push byte).overflowed = true ∨
      (s.push byte = { s with inputBytes := s.inputBytes + 1, bytes := s.bytes ++ [byte] } ∧
        s.overflowed = false ∧ s.inputBytes < maxControlSequenceBytes) := by
  have hc := s.noteInputByte_cases
  unfold push
  rcases hn : s.noteInputByte with ⟨retain, s'⟩
  rw [hn] at hc
  rcases hc with h | ⟨h, h1, h2⟩
  · left; cases retain <;> exact h
  · right
    obtain ⟨rfl, rfl⟩ := Prod.mk.inj h
    exact ⟨rfl, h1, h2⟩

section Collect

variable {start : List UInt8} {middle : UInt8 → Prop} {s : Sequence}

theorem Sequence.Ok.note (h : s.Ok start middle) : s.noteInputByte.2.Ok start middle := by
  rcases s.noteInputByte_cases with ho | ⟨hn, hf, hlt⟩
  · exact .inl ho
  · rcases h with h | ⟨tail, hb, hm, hl, -⟩
    · simp [h] at hf
    · rw [hn]
      exact .inr ⟨tail, hb, hm, Nat.le_succ_of_le hl, hlt⟩

theorem Sequence.Ok.push (h : s.Ok start middle) {byte : UInt8} (hb : middle byte) :
    (s.push byte).Ok start middle := by
  rcases s.push_cases byte with ho | ⟨hn, hf, hlt⟩
  · exact .inl ho
  · rcases h with h | ⟨tail, hs, hm, hl, -⟩
    · simp [h] at hf
    · rw [hn]
      refine .inr ⟨tail ++ [byte], by simp [hs], ?_, by simpa using hl, hlt⟩
      simpa [or_imp, forall_and] using And.intro hm hb

/-- A final byte that was kept completes the sequence within its bound. -/
theorem Sequence.Ok.final (h : s.Ok start middle) {byte : UInt8}
    (ho : (s.push byte).overflowed = false) :
    ∃ tail, (s.push byte).bytes = start ++ tail ++ [byte] ∧ (∀ b ∈ tail, middle b) ∧
      s.bytes = start ++ tail ∧ (s.push byte).bytes.length ≤ 256 := by
  rcases s.push_cases byte with h' | ⟨hn, hf, hlt⟩
  · simp [h'] at ho
  · rcases h with h | ⟨tail, hs, hm, hl, -⟩
    · simp [h] at hf
    · rw [hn]
      refine ⟨tail, by simp [hs], hm, hs, ?_⟩
      simp only [List.length_append, List.length_singleton]
      unfold maxControlSequenceBytes at hlt
      omega

end Collect

theorem EscapeOk.new : EscapeOk (.new [0x1b]) :=
  .inr ⟨[], rfl, by simp, by simp [Sequence.new], by simp [Sequence.new, maxControlSequenceBytes]⟩

theorem CsiOk.new : CsiOk (.new [0x1b, 0x5b]) :=
  .inr ⟨[], rfl, by simp, by simp [Sequence.new], by simp [Sequence.new, maxControlSequenceBytes]⟩

theorem EscapeOk.bracket {s : Sequence} (h : EscapeOk s) (hl : s.bytes.length = 1) :
    CsiOk (s.push 0x5b) := by
  rcases s.push_cases 0x5b with ho | ⟨hn, hf, hlt⟩
  · exact .inl ho
  · rcases h with h | ⟨tail, hs, -, hl', -⟩
    · simp [h] at hf
    · rw [hn]
      have : tail = [] := by
        have := congrArg List.length hs
        simp only [hl, List.length_append, List.length_singleton] at this
        exact List.length_eq_zero_iff.mp (by omega)
      refine .inr ⟨[], by simp [hs, this], by simp, ?_, hlt⟩
      simp only [List.length_append, List.length_singleton]
      omega

/-- A control sequence within its bound, by its final byte. -/
theorem CsiOk.contained {s : Sequence} {b : UInt8} (h : CsiOk s) (hb : isCsiFinal b)
    (ho : (s.push b).overflowed = false) : Contained (s.push b).bytes := by
  obtain ⟨body, hbytes, hbody, -, hlen⟩ := h.final ho
  exact .csi _ body b ⟨hbytes, hbody, by simpa [isCsiFinal] using hb⟩ hlen

/-! ## Escapes in a contained stream -/

theorem contained_reset : Contained [0x1b, 0x63] :=
  .escape [] 0x63 (by simp) (by decide) (by simp [introducers]) (by simp)

theorem Printable.no_escape {c : Char} (h : Printable c) : 0x1b ∉ String.utf8EncodeChar c := by
  intro hmem
  have := mem_encodeChar_low hmem (by decide)
  unfold Printable at h
  have hesc : (0x1b : UInt8).toNat = 27 := rfl
  omega

structure Plain (bytes : List UInt8) : Prop where
  contained : Contained bytes
  csi : bytes.take 2 ≠ [0x1b, 0x5b]
  reset : bytes ≠ [0x1b, 0x63]

theorem Contained.plain {bytes : List UInt8} (h : Contained bytes) (hesc : 0x1b ∉ bytes) :
    Plain bytes :=
  ⟨h, fun he => hesc (List.mem_of_mem_take (he ▸ List.mem_cons_self)),
    fun he => hesc (he ▸ List.mem_cons_self)⟩

/-- Every ESC is followed by a byte that opens no string. -/
def EscapesFramed (bytes : List UInt8) : Prop :=
  ∀ before after, bytes = before ++ 0x1b :: after →
    ∃ next rest, after = next :: rest ∧ stringIntroducer next = none

theorem EscapesFramed.append {as bs : List UInt8} (ha : EscapesFramed as) (hb : EscapesFramed bs) :
    EscapesFramed (as ++ bs) := by
  intro before after h
  rcases List.append_eq_append_iff.mp h with ⟨mid, hbefore, hbs⟩ | ⟨mid, has, hafter⟩
  · exact hb mid after hbs
  · cases mid with
    | nil => exact hb [] after (by simpa using hafter.symm)
    | cons b mid =>
      obtain ⟨rfl, rfl⟩ := List.cons.inj hafter
      obtain ⟨next, rest, rfl, hnext⟩ := ha before mid has
      exact ⟨next, rest ++ bs, rfl, hnext⟩

theorem EscapesFramed.flatten {chunks : List (List UInt8)} (h : ∀ bytes ∈ chunks, EscapesFramed bytes) :
    EscapesFramed chunks.flatten := by
  induction chunks with
  | nil => intro before after h; simp at h
  | cons bytes chunks ih =>
    rw [List.flatten_cons]
    exact (h bytes List.mem_cons_self).append (ih fun b hb => h b (List.mem_cons_of_mem _ hb))

theorem escapesFramed_of_not_mem {bytes : List UInt8} (h : 0x1b ∉ bytes) : EscapesFramed bytes := by
  rintro before after rfl
  simp at h

theorem escapesFramed_sequence {next : UInt8} {rest : List UInt8} (hn : stringIntroducer next = none)
    (hne : next ≠ 0x1b) (h : 0x1b ∉ rest) : EscapesFramed (0x1b :: next :: rest) := by
  intro before after heq
  cases before with
  | nil =>
    obtain ⟨-, rfl⟩ := List.cons.inj heq
    exact ⟨next, rest, rfl, hn⟩
  | cons b before =>
    have hmem : 0x1b ∈ next :: rest := by
      rw [(List.cons.inj heq).2]
      simp
    simp [h, Ne.symm hne] at hmem

theorem IsCsi.escapesFramed {bytes body : List UInt8} {final : UInt8}
    (h : IsCsi bytes body final) : EscapesFramed bytes := by
  have hbody := h.body 0x1b
  have hfinal := h.final
  have hesc : 0x1b ∉ body ++ [final] := by grind
  rw [h.bytes]
  exact escapesFramed_sequence rfl (by decide) hesc

theorem Contained.escapesFramed {bytes : List UInt8} (h : Contained bytes) :
    EscapesFramed bytes := by
  cases h with
  | control b low esc bel => exact escapesFramed_of_not_mem (by simpa using Ne.symm esc)
  | character c printable => exact escapesFramed_of_not_mem printable.no_escape
  | fragment _ nonempty high invalid =>
    exact escapesFramed_of_not_mem fun hmem => absurd (high _ hmem) (by decide)
  | escape middle final hmid hlast second short =>
    have hesc : 0x1b ∉ middle ++ [final] := by
      have := hmid 0x1b
      grind
    rw [List.cons_append] at *
    cases hm : middle ++ [final] with
    | nil => simp at hm
    | cons next rest =>
      rw [hm] at hesc second
      have hnext := second next rfl
      simp only [List.mem_cons, not_or] at hesc
      refine escapesFramed_sequence ?_ (Ne.symm hesc.1) hesc.2
      unfold introducers at hnext
      unfold stringIntroducer
      grind
  | csi _ body final shape short => exact shape.escapesFramed
  | rebuilt modes enabled body final shape short => exact shape.escapesFramed

end Voytty.Terminal
