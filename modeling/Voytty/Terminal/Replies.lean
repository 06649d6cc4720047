import Voytty.Lib.Base64
import Voytty.Terminal.Ingress

/-!
# Replies to queries

What the filter answers a child. `ControlReply` is one complete control
sequence whose body is made of `Piece`s: the filter's own fixed texts, and what
it repeats of the child's output or of the terminal's state, each in a narrow
alphabet. An `Answer` is a concatenation of such sequences. Every text the
filter builds is an answer, and each is bounded by the query that asked for it.
-/

namespace Voytty.Terminal

open Voytty.Lib

/-! ## The grammar -/

def isHexDigit (c : Char) : Bool :=
  c.isDigit || (0x61 ≤ c.toNat && c.toNat ≤ 0x66) || (0x41 ≤ c.toNat && c.toNat ≤ 0x46)

def isBase64 (c : Char) : Bool := c.toNat < 0x80 && isBase64Byte (UInt8.ofNat c.toNat)

def ownTexts : List (List Char) :=
  ["?", ";", ":", "=", "/", "$", "#", "m", "rgb:", "unknown=", "1+r", "0+r", "1$r", "0$r"].map
    String.toList

/-- The colour names that may be repeated. -/
def colorKeywords : List (List Char) :=
  ["foreground", "background", "cursor", "cursor_text", "selection_foreground",
    "selection_background"].map String.toList

def replyFinals : List Char := "cnRtuyQ".toList

inductive Piece : List Char → Prop where
  | own {t : List Char} (h : t ∈ ownTexts) : Piece t
  | digits {t : List Char} (h : ∀ c ∈ t, c.isDigit = true) : Piece t
  | plus : Piece ['+']
  | keyword {t : List Char} (h : t ∈ colorKeywords) : Piece t
  | hex {t : List Char} (h : ∀ c ∈ t, isHexDigit c = true) : Piece t
  | base64 {t : List Char} (h : ∀ c ∈ t, isBase64 c = true) : Piece t

inductive Body : List Char → Prop where
  | nil : Body []
  | cons {piece rest : List Char} (h : Piece piece) (hrest : Body rest) : Body (piece ++ rest)

/-- Printable ASCII: no control character, so neither an introducer nor a terminator. -/
def PlainText (text : List Char) : Prop := ∀ c ∈ text, 0x20 ≤ c.toNat ∧ c.toNat ≤ 0x7e

def ParameterText (text : List Char) : Prop := ∀ c ∈ text, 0x20 ≤ c.toNat ∧ c.toNat ≤ 0x3f

/-- The terminators of a string: BEL and ST. -/
def Terminator (text : List Char) : Prop := text = ['\x07'] ∨ text = "\x1b\\".toList

/-- One complete control sequence; ESC and BEL introduce or terminate it and occur nowhere else. -/
inductive ControlReply : List Char → Prop where
  | csi {body : List Char} {final : Char} (h : Body body) (plain : ParameterText body)
      (hfinal : final ∈ replyFinals) : ControlReply ("\x1b[".toList ++ body ++ [final])
  | osc {body finish : List Char} (h : Body body) (plain : PlainText body)
      (hfinish : Terminator finish) :
      ControlReply ("\x1b]".toList ++ body ++ finish)
  | dcs {body : List Char} (h : Body body) (plain : PlainText body) :
      ControlReply ("\x1bP".toList ++ body ++ "\x1b\\".toList)

inductive Answer : List Char → Prop where
  | nil : Answer []
  | cons {sequence rest : List Char} (h : ControlReply sequence) (hrest : Answer rest) :
      Answer (sequence ++ rest)

/-! ## Characters -/

theorem ascii_of_isDigit {c : Char} (h : c.isDigit = true) : 0x30 ≤ c.toNat ∧ c.toNat ≤ 0x39 := by
  simp only [Char.isDigit, Bool.and_eq_true, decide_eq_true_eq, ge_iff_le,
    UInt32.le_iff_toNat_le] at h
  exact h

theorem ascii_of_isHexDigit {c : Char} (h : isHexDigit c = true) :
    0x30 ≤ c.toNat ∧ c.toNat ≤ 0x66 := by
  simp only [isHexDigit, Bool.or_eq_true, Bool.and_eq_true, decide_eq_true_eq] at h
  rcases h with (h | h) | h
  · have := ascii_of_isDigit h
    omega
  · omega
  · omega

theorem ascii_of_isBase64 {c : Char} (h : isBase64 c = true) :
    0x2b ≤ c.toNat ∧ c.toNat ≤ 0x7a := by
  simp only [isBase64, Bool.and_eq_true, decide_eq_true_eq] at h
  have : ∀ n < 0x80, isBase64Byte (UInt8.ofNat n) = true → 0x2b ≤ n ∧ n ≤ 0x7a := by decide
  exact this _ h.1 h.2

theorem isBase64_ofNat {b : UInt8} (h : isBase64Byte b = true) :
    isBase64 (Char.ofNat b.toNat) = true := by
  have hb : b.toNat < 0x80 := by
    simp only [isBase64Byte, Bool.or_eq_true, Bool.and_eq_true, decide_eq_true_eq, beq_iff_eq,
      UInt8.le_iff_toNat_le, ← UInt8.toNat_inj, UInt8.reduceToNat] at h
    omega
  have hn : (Char.ofNat b.toNat).toNat = b.toNat := by
    rw [Char.toNat_ofNat, if_pos (Or.inl (by omega))]
  simp [isBase64, hn, hb, h]

def plainTable (texts : List (List Char)) : Bool :=
  texts.all fun text => text.all fun c => 0x20 ≤ c.toNat && c.toNat ≤ 0x7e

theorem plain_of_table {texts : List (List Char)} (h : plainTable texts = true) {text : List Char}
    (ht : text ∈ texts) : PlainText text := by
  intro c hc
  simpa using List.all_eq_true.mp (List.all_eq_true.mp h text ht) c hc

theorem Piece.plain {text : List Char} (h : Piece text) : PlainText text := by
  cases h with
  | own h => exact plain_of_table (by decide) h
  | digits h => intro c hc; have := ascii_of_isDigit (h c hc); omega
  | plus => intro c hc; obtain rfl := List.mem_singleton.mp hc; decide
  | keyword h => exact plain_of_table (by decide) h
  | hex h => intro c hc; have := ascii_of_isHexDigit (h c hc); omega
  | base64 h => intro c hc; have := ascii_of_isBase64 (h c hc); omega

namespace Body

variable {a b : List Char}

theorem piece (h : Piece a) : Body a := by simpa using Body.cons h .nil

theorem append (ha : Body a) (hb : Body b) : Body (a ++ b) := by
  induction ha with
  | nil => exact hb
  | cons h _ ih => rw [List.append_assoc]; exact .cons h ih

theorem plain (h : Body a) : PlainText a := by
  induction h with
  | nil => intro c hc; cases hc
  | cons h _ ih =>
    intro c hc
    rcases List.mem_append.mp hc with hc | hc
    · exact h.plain c hc
    · exact ih c hc

theorem own (h : a ∈ ownTexts) : Body a := piece (.own h)

theorem decimal (n : Nat) : Body (decimal n) :=
  piece (.digits fun _ h => Nat.isDigit_of_mem_toDigits (by decide) (by decide) h)

end Body

/-! ## Control sequences -/

structure Parameters (text : List Char) : Prop where
  body : Body text
  plain : ParameterText text

namespace Parameters

variable {a b : List Char}

theorem append (ha : Parameters a) (hb : Parameters b) : Parameters (a ++ b) :=
  ⟨ha.body.append hb.body, fun c hc => (List.mem_append.mp hc).elim (ha.plain c) (hb.plain c)⟩

theorem digits (h : ∀ c ∈ a, c.isDigit = true) : Parameters a :=
  ⟨.piece (.digits h), fun c hc => by have := ascii_of_isDigit (h c hc); omega⟩

theorem decimal (n : Nat) : Parameters (decimal n) :=
  digits fun _ h => Nat.isDigit_of_mem_toDigits (by decide) (by decide) h

theorem mark {c : Char} (h : [c] ∈ ownTexts) (hc : 0x20 ≤ c.toNat ∧ c.toNat ≤ 0x3f) :
    Parameters [c] :=
  ⟨.own h, fun d hd => by rw [List.mem_singleton.mp hd]; exact hc⟩

theorem question : Parameters ['?'] := mark (by decide) (by decide)

theorem semicolon : Parameters [';'] := mark (by decide) (by decide)

theorem dollar : Parameters ['$'] := mark (by decide) (by decide)

theorem hash : Parameters ['#'] := mark (by decide) (by decide)

theorem marker (isPrivate : Bool) : Parameters (if isPrivate then ['?'] else []) := by
  cases isPrivate with
  | false => exact ⟨.nil, fun c hc => by cases hc⟩
  | true => exact question

theorem answer (h : Parameters a) (final : Char) (hfinal : final ∈ replyFinals) :
    Answer ("\x1b[".toList ++ a ++ [final]) := by
  simpa using Answer.cons (.csi h.body h.plain hfinal) .nil

end Parameters

theorem Answer.append {a b : List Char} (ha : Answer a) (hb : Answer b) : Answer (a ++ b) := by
  induction ha with
  | nil => exact hb
  | cons h _ ih => rw [List.append_assoc]; exact .cons h ih

theorem Answer.single {a : List Char} (h : ControlReply a) : Answer a := by
  simpa using Answer.cons h .nil

theorem modeReply_answer (isPrivate : Bool) (value state : Nat) :
    Answer ("\x1b[".toList ++ (if isPrivate then ['?'] else []) ++ decimal value ++ [';'] ++
      decimal state ++ "$y".toList) := by
  have h := ((((Parameters.marker isPrivate).append (.decimal value)).append
    .semicolon).append (.decimal state)).append .dollar
  simpa using h.answer 'y' (by decide)

theorem keyboardReply_answer (bits : Nat) : Answer ("\x1b[?".toList ++ decimal bits ++ ['u']) := by
  have h := Parameters.question.append (.decimal bits)
  simpa using h.answer 'u' (by decide)

theorem statusReply_answer : Answer "\x1b[0n".toList := by
  simpa using (Parameters.digits (a := ['0']) (by simp)).answer 'n' (by decide)

theorem attributesReply_answer : Answer "\x1b[?1;2c".toList := by
  have h := ((Parameters.question.append
    (.digits (a := ['1']) (by simp))).append .semicolon).append
      (.digits (a := ['2']) (by simp))
  simpa using h.answer 'c' (by decide)

theorem windowReply_answer (rows columns : Nat) :
    Answer ("\x1b[8;".toList ++ decimal rows ++ [';'] ++ decimal columns ++ ['t']) := by
  have h := ((((Parameters.digits (a := ['8']) (by simp)).append .semicolon).append
    (.decimal rows)).append .semicolon).append (.decimal columns)
  simpa using h.answer 't' (by decide)

theorem cursorReport_answer {R : Type} (e : AlacrittyEngine R) (isPrivate : Bool) :
    Answer (e.cursorReport isPrivate) := by
  have h := fun row column => (((Parameters.marker isPrivate).append (.decimal row)).append
    .semicolon).append (.decimal column)
  unfold AlacrittyEngine.cursorReport
  simpa using (h _ _).answer 'R' (by decide)

theorem stackReport_answer (s : VoyttyColorState) : Answer s.stackReport := by
  have h := (((Parameters.question.append (.decimal s.depth)).append
    .semicolon).append (.decimal s.stored)).append .hash
  unfold VoyttyColorState.stackReport
  simpa using h.answer 'Q' (by decide)

theorem appearanceReply_answer (s : VoyttyColorState) : Answer s.appearanceReply := by
  have h := (Parameters.question.append
    (.digits (a := "997".toList) (by simp))).append .semicolon
  unfold VoyttyColorState.appearanceReply
  cases s.base.appearance with
  | unknown => exact .nil
  | dark => simpa using (h.append (.digits (a := ['1']) (by simp))).answer 'n' (by decide)
  | light => simpa using (h.append (.digits (a := ['2']) (by simp))).answer 'n' (by decide)

/-! ## Colour answers -/

theorem hexDigit_isHexDigit (upper : Bool) {n : Nat} (h : n < 16) :
    isHexDigit (hexDigit upper n) = true := by
  have : ∀ upper, ∀ n < 16, isHexDigit (hexDigit upper n) = true := by decide
  exact this upper n h

theorem hexPad_hex (upper : Bool) (width n : Nat) :
    ∀ c ∈ hexPad upper width n, isHexDigit c = true := by
  induction width generalizing n with
  | zero => intro c hc; cases hc
  | succ width ih =>
    intro c hc
    rcases List.mem_append.mp hc with hc | hc
    · exact ih _ c hc
    · rw [List.mem_singleton.mp hc]
      exact hexDigit_isHexDigit upper (Nat.mod_lt _ (by decide))

theorem hexPad_length (upper : Bool) (width n : Nat) : (hexPad upper width n).length = width := by
  induction width generalizing n with
  | zero => rfl
  | succ width ih => simp [hexPad, ih]

theorem encoded_body {value : TerminalColorValue} {rgb : List Char} (h : encoded value = some rgb) :
    Body rgb ∧ rgb.length = 18 := by
  unfold encoded at h
  split at h
  · rename_i r g b
    obtain rfl := Option.some.inj h
    have channel : ∀ n, Body (hexPad false 4 n) := fun n => .piece (.hex (hexPad_hex false 4 n))
    have slash : Body ['/'] := .own (by decide)
    exact ⟨((((Body.own (by decide)).append (channel _)).append slash).append
      (channel _)).append slash |>.append (channel _), by simp [hexPad_length]⟩
  · cases h

theorem Body.answer {body finish : List Char} (h : Body body) (hf : Terminator finish) :
    Answer ("\x1b]".toList ++ body ++ finish) :=
  .single (.osc h h.plain hf)

/-- A heading that opens a string and continues it with pieces. -/
structure Heading (heading : List Char) : Prop where
  body : ∃ body, Body body ∧ heading = "\x1b]".toList ++ body
  short : heading.length ≤ 8

theorem Terminator.length_le {finish : List Char} (h : Terminator finish) : finish.length ≤ 2 := by
  rcases h with rfl | rfl <;> simp

/-- The reply bytes charged to a queried field of a text, its separator included. -/
def fieldCost (field : List Char) : Nat := 16 * (byteLen field + 1)

def fieldsCost (fields : List (List Char)) : Nat := (fields.map fieldCost).sum

@[simp] theorem fieldsCost_cons (field : List Char) (fields : List (List Char)) :
    fieldsCost (field :: fields) = fieldCost field + fieldsCost fields := by
  simp [fieldsCost]

theorem fieldsCost_splitOn (text : List Char) : fieldsCost (text.splitOn ';') = fieldCost text := by
  have h : ((text.splitOn ';').map fun p => byteLen p + 1).sum = byteLen text + 1 :=
    splitOn_sum Char.utf8Size ';' text
  unfold fieldsCost fieldCost
  rw [← h, ← List.sum_map_mul_left]

/-- `reply'` extends `reply` by an answer of at most `cost` characters. -/
def Extends (cost : Nat) (reply reply' : List Char) : Prop :=
  ∃ text, Answer text ∧ text.length ≤ cost ∧ reply' = reply ++ text

theorem Extends.refl (cost : Nat) (reply : List Char) : Extends cost reply reply :=
  ⟨[], .nil, by simp, by simp⟩

theorem Extends.mono {cost cost' : Nat} {a b : List Char} (hc : cost ≤ cost')
    (h : Extends cost a b) : Extends cost' a b := by
  obtain ⟨text, ha, hl, he⟩ := h
  exact ⟨text, ha, hl.trans hc, he⟩

theorem Extends.trans {cost cost' : Nat} {a b c : List Char} (h : Extends cost a b)
    (h' : Extends cost' b c) : Extends (cost + cost') a c := by
  obtain ⟨s, hs, hl, rfl⟩ := h
  obtain ⟨t, ht, hl', rfl⟩ := h'
  exact ⟨s ++ t, hs.append ht, by simp; omega, by simp⟩

theorem queryOrSet_extends (v : Vendor) {heading finish : List Char} (hh : Heading heading)
    (hf : Terminator finish) (slot : Slot) (value : List Char) (o : OscState) :
    Extends (fieldCost value) o.reply (queryOrSet v heading finish slot value o).reply := by
  unfold queryOrSet
  split
  · rename_i hq
    split
    · rename_i rgb hrgb
      obtain ⟨hbody, hlen⟩ := encoded_body hrgb
      obtain ⟨body, hb, rfl⟩ := hh.body
      refine ⟨"\x1b]".toList ++ body ++ rgb ++ finish, ?_, ?_, by simp⟩
      · simpa using (hb.append hbody).answer hf
      · have h1 := hh.short
        have h2 := hf.length_le
        subst hq
        simp only [List.length_append, fieldCost, byteLen_cons, byteLen_nil] at h1 ⊢
        have : '?'.utf8Size = 1 := rfl
        omega
    · exact .refl ..
  · split <;> exact .refl ..

theorem indexedSlot_some {text : List Char} {slot : Slot} (h : indexedSlot text = some slot) :
    slot.val < 256 ∧ text ≠ [] ∧ Body text := by
  unfold indexedSlot at h
  split at h
  · cases h
  rename_i hn
  split at h
  · obtain ⟨hne, sign, ds, hsign, rfl, hds⟩ := parseUnsigned_digits hn
    have hsign : Body sign := by
      rcases hsign with rfl | rfl
      · exact .nil
      · exact .piece .plus
    exact ⟨by rwa [← Option.some.inj h], hne, hsign.append (.piece (.digits hds))⟩
  · cases h

theorem decimal_length_lt {n k : Nat} (h : n < 10 ^ k) (hk : 0 < k) :
    (decimal n).length ≤ k :=
  (Nat.length_toDigits_le_iff (by decide) hk).mpr h

theorem indexedHeading {n : Nat} (h : n < 256) :
    Heading ("\x1b]4;".toList ++ decimal n ++ [';']) := by
  have hlen := decimal_length_lt (n := n) (k := 3) (by omega) (by decide)
  refine ⟨⟨"4".toList ++ ";".toList ++ decimal n ++ [';'], ?_, by simp⟩, by simp; omega⟩
  exact (((Body.piece (.digits (by simp))).append (.own (by decide))).append
    (.decimal n)).append (.own (by decide))

theorem dynamicHeading {code : Nat} {slot : Slot} (h : dynamicSlot code = some slot) :
    Heading ("\x1b]".toList ++ decimal code ++ [';']) := by
  have hcode : code < 100 := by
    unfold dynamicSlot at h
    split at h <;> first | omega | cases h
  have hlen := decimal_length_lt (n := code) (k := 2) (by omega) (by decide)
  refine ⟨⟨decimal code ++ [';'], ?_, by simp⟩, by simp; omega⟩
  exact (Body.decimal code).append (.own (by decide))

theorem oscIndexed_extends (v : Vendor) {finish : List Char} (hf : Terminator finish)
    (fields : List (List Char)) (o : OscState) :
    Extends (fieldsCost fields) o.reply (oscIndexed v finish fields o).reply := by
  fun_induction oscIndexed v finish fields o with
  | case1 index value fields o ih =>
    rw [fieldsCost_cons, fieldsCost_cons]
    refine Extends.mono (Nat.le_add_left _ _) (Extends.trans ?_ ih)
    split
    · rename_i hs
      exact queryOrSet_extends v (indexedHeading (indexedSlot_some hs).1) hf _ value o
    · exact .refl ..
  | case2 => exact .refl ..

theorem oscDynamic_extends (v : Vendor) {finish : List Char} (hf : Terminator finish) (code : Nat)
    (fields : List (List Char)) (o : OscState) :
    Extends (fieldsCost fields) o.reply (oscDynamic v finish code fields o).reply := by
  fun_induction oscDynamic v finish code fields o with
  | case1 => exact .refl ..
  | case2 code value fields o ih =>
    rw [fieldsCost_cons]
    refine Extends.trans ?_ ih
    split
    · rename_i hs
      exact queryOrSet_extends v (dynamicHeading hs) hf _ value o
    · exact .refl ..

/-- The library's unpadded base64: its alphabet and its length. -/
structure Base64Law (v : Vendor) : Prop where
  alphabet : ∀ bytes, ∀ b ∈ v.base64Encode bytes, isBase64Byte b = true
  length : ∀ bytes, 3 * (v.base64Encode bytes).length ≤ 4 * bytes.length + 2

theorem keySlot_body {key : List Char} {slot : Slot} (h : keySlot key = some slot) : Body key := by
  by_cases hk : key ∈ colorKeywords
  · exact .piece (.keyword hk)
  · simp only [colorKeywords, List.map_cons, List.map_nil, List.mem_cons, List.not_mem_nil,
      or_false, not_or] at hk
    obtain ⟨h1, h2, h3, h4, h5, h6⟩ := hk
    unfold keySlot at h
    rw [if_neg h1, if_neg h2, if_neg h3, if_neg h4, if_neg h5, if_neg h6] at h
    exact (indexedSlot_some h).2.2

/-- The answers collected so far: each a body, together within `cost`. -/
structure KeyAnswers (cost : Nat) (answers : List (List Char)) : Prop where
  body : ∀ a ∈ answers, Body a
  length : (answers.map fun a => a.length + 1).sum ≤ cost

theorem KeyAnswers.mono {cost cost' : Nat} {answers : List (List Char)} (h : KeyAnswers cost answers)
    (hc : cost ≤ cost') : KeyAnswers cost' answers := ⟨h.body, h.length.trans hc⟩

theorem KeyAnswers.snoc {cost cost' : Nat} {answers : List (List Char)} {a : List Char}
    (h : KeyAnswers cost answers) (ha : Body a) (hl : a.length + 1 ≤ cost') :
    KeyAnswers (cost + cost') (answers ++ [a]) where
  body := fun b hb => by
    rcases List.mem_append.mp hb with hb | hb
    · exact h.body b hb
    · rw [List.mem_singleton.mp hb]; exact ha
  length := by
    have := h.length
    simp only [List.map_append, List.map_cons, List.map_nil, List.sum_append, List.sum_cons,
      List.sum_nil]
    omega

theorem keyValue_query {item key : List Char} (h : keyValue item = (key, some ['?'])) :
    byteLen item = byteLen key + 2 := by
  unfold keyValue at h
  split at h
  · rename_i k v hs
    obtain ⟨rfl, hv⟩ := Prod.mk.inj h
    obtain rfl := Option.some.inj hv
    rw [splitOnce_some hs, byteLen_append, byteLen_cons, byteLen_cons, byteLen_nil]
    rfl
  · simp at h

theorem oscKeyItem_answers {v : Vendor} (law : Base64Law v) {cost : Nat}
    {a : List (List Char) × VoyttyColorState} (h : KeyAnswers cost a.1) (item : List Char) :
    KeyAnswers (cost + fieldCost item) (oscKeyItem v a item).1 := by
  obtain ⟨answers, s⟩ := a
  have keep : KeyAnswers (cost + fieldCost item) answers := h.mono (Nat.le_add_right _ _)
  unfold oscKeyItem
  rcases hkv : keyValue item with ⟨key, value⟩
  dsimp only
  split
  · exact keep
  split
  · rename_i slot hslot
    have hlen := keyValue_query hkv
    have hkey := length_le_byteLen key
    refine h.snoc (((keySlot_body hslot).append (.own (by decide))).append ?_) ?_
    · cases hrgb : encoded (s.value slot) with
      | none => exact .nil
      | some rgb => exact (encoded_body hrgb).1
    · have hrgb : ((encoded (s.value slot)).getD []).length ≤ 18 := by
        cases hrgb : encoded (s.value slot) with
        | none => simp
        | some rgb => exact (encoded_body hrgb).2.le
      simp only [List.length_append, List.length_singleton, fieldCost]
      omega
  · have hlen := keyValue_query hkv
    refine h.snoc ((Body.own (by decide)).append (.piece (.base64 ?_))) ?_
    · intro c hc
      obtain ⟨b, hb, rfl⟩ := List.mem_map.mp hc
      exact isBase64_ofNat (law.alphabet _ b hb)
    · have hbase := law.length (encode key)
      rw [length_encode] at hbase
      simp only [List.length_append, List.length_map, fieldCost]
      simp
      omega
  · exact keep
  · exact keep
  · split
    · exact keep
    · split <;> exact keep

theorem oscKey_answers {v : Vendor} (law : Base64Law v) (items : List (List Char)) {cost : Nat}
    {a : List (List Char) × VoyttyColorState} (h : KeyAnswers cost a.1) :
    KeyAnswers (cost + fieldsCost items) (items.foldl (oscKeyItem v) a).1 := by
  induction items generalizing a cost with
  | nil => exact h.mono (Nat.le_add_right _ _)
  | cons item items ih =>
    rw [fieldsCost_cons, ← Nat.add_assoc]
    exact ih (oscKeyItem_answers law h item)

theorem Body.intercalate {ls : List (List Char)} (h : ∀ l ∈ ls, Body l) :
    Body ([';'].intercalate ls) := by
  induction ls with
  | nil => exact .nil
  | cons l ls ih =>
    have hl := h l List.mem_cons_self
    have hls := ih fun k hk => h k (List.mem_cons_of_mem _ hk)
    cases ls with
    | nil => simpa using hl
    | cons l' ls =>
      rw [List.intercalate_cons_cons]
      exact (hl.append (.own (by decide))).append hls

/-- A colour command answers within its payload's cost. -/
theorem osc_extends {v : Vendor} (law : Base64Law v) {s : VoyttyColorState} {command : Nat}
    {payload finish : List Char} (hf : Terminator finish) {o : OscState}
    (h : s.osc v command payload finish = some o) :
    Extends (fieldCost payload + 7) [] o.reply := by
  have hcost := fieldsCost_splitOn payload
  unfold VoyttyColorState.osc at h
  split at h
  · obtain rfl := Option.some.inj h
    exact (oscIndexed_extends v hf (payload.splitOn ';') ⟨[], s⟩).mono (by omega)
  split at h
  · obtain rfl := Option.some.inj h
    exact (oscDynamic_extends v hf command (payload.splitOn ';') ⟨[], s⟩).mono (by omega)
  split at h
  · obtain rfl := Option.some.inj h; exact .refl ..
  split at h
  · split at h <;> obtain rfl := Option.some.inj h <;> exact .refl ..
  split at h
  · have hfold := oscKey_answers law (payload.splitOn ';') (a := ([], s))
      (⟨by simp, by simp⟩ : KeyAnswers 0 _)
    generalize (payload.splitOn ';').foldl (oscKeyItem v) ([], s) = a at h hfold
    obtain ⟨answers, s'⟩ := a
    dsimp only at h
    split at h <;> obtain rfl := Option.some.inj h
    · exact .refl ..
    · refine ⟨"\x1b]21;".toList ++ [';'].intercalate answers ++ finish, ?_, ?_, by simp⟩
      · have hbody := ((Body.piece (.digits (t := "21".toList) (by simp))).append
          (.own (a := [';']) (by decide))).append (.intercalate hfold.body)
        simpa using hbody.answer hf
      · have h1 := length_intercalate_le ';' answers
        have h2 : (answers.map fun a => a.length + 1).sum ≤ _ := hfold.length
        have h3 := hf.length_le
        simp only [List.length_append]
        simp
        omega
  split at h
  · obtain rfl := Option.some.inj h; exact .refl ..
  · cases h

/-! ## Device control strings -/

theorem Body.dcs {body : List Char} (h : Body body) :
    Answer ("\x1bP".toList ++ body ++ "\x1b\\".toList) :=
  .single (.dcs h h.plain)

theorem hex_body (text : List Char) : Body (hex text) := by
  refine .piece (.hex fun c hc => ?_)
  obtain ⟨b, -, hb⟩ := List.mem_flatMap.mp hc
  exact hexPad_hex _ _ _ c hb

theorem hex_length (text : List Char) : (hex text).length = 2 * byteLen text := by
  unfold hex
  rw [List.length_flatMap]
  simp [hexPad_length, length_encode, Nat.mul_comm]

theorem hexBytes_length {text : List Char} {bytes : List UInt8} (h : hexBytes text = some bytes) :
    2 * bytes.length = text.length := by
  fun_induction hexBytes text generalizing bytes with
  | case1 => cases h; rfl
  | case2 => cases h
  | case3 a b rest n bytes' hb hn ih =>
    cases h
    have := ih hb
    simp only [List.length_cons]; omega
  | case4 => cases h

theorem decodeHex_length {field name : List Char} (h : decodeHex field = some name) :
    2 * byteLen name = field.length := by
  unfold decodeHex at h
  split at h
  · cases h
  · obtain ⟨bytes, hb, hd⟩ := Option.bind_eq_some_iff.mp h
    rw [byteLen_decode hd]
    exact hexBytes_length hb

theorem capabilityValue_length {name value : List Char} (h : capabilityValue name = some value) :
    byteLen value ≤ 15 * byteLen name + 4 := by
  unfold capabilityValue at h
  split at h
  · rename_i hn; obtain rfl := Option.some.inj h; rcases hn with rfl | rfl <;> decide
  split at h
  · rename_i hn; obtain rfl := Option.some.inj h; subst hn; decide
  split at h
  · rename_i hn; obtain rfl := Option.some.inj h; rcases hn with rfl | rfl <;> decide
  split at h
  · obtain rfl := Option.some.inj h; simp
  split at h
  · rename_i hn; obtain rfl := Option.some.inj h; subst hn; decide
  split at h
  · rename_i hn; obtain rfl := Option.some.inj h; subst hn; decide
  · cases h

theorem capabilityReplies_answer (fields : List (List Char)) :
    Answer (capabilityReplies fields) ∧
      (capabilityReplies fields).length ≤ fieldsCost fields := by
  induction fields with
  | nil => exact ⟨.nil, by simp [capabilityReplies]⟩
  | cons field fields ih =>
    have hfield := length_le_byteLen field
    rw [fieldsCost_cons, fieldCost]
    unfold capabilityReplies
    split
    · refine ⟨?_, by simp; omega⟩
      simpa using (Body.own (a := "0+r".toList) (by decide)).dcs
    · rename_i name value hname
      obtain ⟨name', hd, hv⟩ := Option.bind_eq_some_iff.mp hname
      obtain ⟨value', hc, he⟩ := Option.map_eq_some_iff.mp hv
      obtain ⟨rfl, rfl⟩ := Prod.mk.inj he
      have h1 := decodeHex_length hd
      have h2 := capabilityValue_length hc
      have hvalue : Body (if value'.isEmpty then [] else '=' :: hex value') ∧
          (if value'.isEmpty then [] else '=' :: hex value').length ≤ 1 + 2 * byteLen value' := by
        split
        · exact ⟨.nil, by simp⟩
        · exact ⟨(Body.own (a := ['=']) (by decide)).append (hex_body value'),
            by simp [hex_length, Nat.add_comm]⟩
      generalize (if value'.isEmpty then [] else '=' :: hex value') = tail at hvalue ⊢
      refine ⟨?_, ?_⟩
      · have hbody := ((Body.own (a := "1+r".toList) (by decide)).append
          (hex_body name')).append hvalue.1
        simpa using hbody.dcs.append ih.1
      · have h3 := hvalue.2
        have h4 := ih.2
        simp only [List.length_append, hex_length]
        simp
        omega

theorem capabilities_answer (payload : List Char) :
    Answer (capabilities payload) ∧ (capabilities payload).length ≤ fieldCost payload := by
  rw [← fieldsCost_splitOn]
  exact capabilityReplies_answer _

/-- A body of at most `n` characters. -/
structure BodyWithin (n : Nat) (text : List Char) : Prop where
  body : Body text
  length : text.length ≤ n

namespace BodyWithin

variable {n m : Nat} {a b : List Char}

theorem append (ha : BodyWithin n a) (hb : BodyWithin m b) : BodyWithin (n + m) (a ++ b) :=
  ⟨ha.body.append hb.body, by have := ha.length; have := hb.length; simp; omega⟩

theorem none (n : Nat) : BodyWithin n [] := ⟨.nil, by simp⟩

theorem own (h : a ∈ ownTexts) (hl : a.length ≤ n) : BodyWithin n a := ⟨.own h, hl⟩

theorem number {k : Nat} (hk : k < 10 ^ n) (hn : 0 < n) : BodyWithin n (decimal k) :=
  ⟨.decimal k, decimal_length_lt hk hn⟩

theorem parameter {k : Nat} (hk : k < 10 ^ n) (hn : 0 < n) :
    BodyWithin (1 + n) ([';'] ++ decimal k) :=
  (own (by decide) (by simp)).append (number hk hn)

theorem flag (active : Bool) {code : Nat} (h : code < 10) :
    BodyWithin 2 (if active then ';' :: decimal code else []) := by
  cases active with
  | false => exact none 2
  | true => exact parameter (n := 1) (by simpa using h) (by decide)

theorem byte (n : UInt8) : BodyWithin 4 ([';'] ++ decimal n.toNat) :=
  parameter (n := 3) (by have := n.toNat_lt; omega) (by decide)

theorem digit {c : Char} (h : c.isDigit = true) : BodyWithin 1 [c] :=
  ⟨.piece (.digits (by simpa using h)), by simp⟩

theorem separator {c : Char} (h : [c] ∈ ownTexts) : BodyWithin 1 [c] := own h (by simp)

theorem underline {c : Char} (h : c.isDigit = true) : BodyWithin 4 [';', '4', ':', c] :=
  (((separator (by decide)).append (digit (c := '4') rfl)).append
    (separator (c := ':') (by decide))).append (digit h)

theorem colorCode {code : Nat} (h : code < 100) {c : Char} (hc : c.isDigit = true) :
    BodyWithin 5 ([';'] ++ decimal code ++ [';', c]) :=
  (parameter (n := 2) h (by decide)).append ((separator (by decide)).append (digit hc))

theorem indexed {code : Nat} (h : code < 100) (n : UInt8) :
    BodyWithin 17 (';' :: decimal code ++ ";5;".toList ++ decimal n.toNat) := by
  have h := (colorCode h (c := '5') rfl).append (byte n)
  exact ⟨by simpa using h.body, le_trans (by simpa using h.length) (by decide)⟩

theorem rgb {code : Nat} (h : code < 100) (r g b : UInt8) :
    BodyWithin 17 (';' :: decimal code ++ ";2;".toList ++ decimal r.toNat ++ [';'] ++
      decimal g.toNat ++ [';'] ++ decimal b.toNat) := by
  have h := (((colorCode h (c := '2') rfl).append (byte r)).append (byte g)).append (byte b)
  exact ⟨by simpa using h.body, by simpa using h.length⟩

end BodyWithin

theorem sgr_within (style : TerminalStyle) : BodyWithin 69 (sgr style) := by
  unfold sgr
  extract_lets flag underlined color
  have hflag : ∀ active, ∀ code < 10, BodyWithin 2 (flag active code) :=
    fun active code h => .flag active h
  have hcolor : ∀ c, ∀ code < 100, BodyWithin 17 (color c code) := by
    intro c code hcode
    cases c with
    | default => exact .none 17
    | indexed n => exact .indexed hcode n
    | rgb r g b => exact .rgb hcode r g b
  have hunderlined : BodyWithin 4 underlined := by
    cases hu : style.underline with
    | none => simp only [underlined, hu]; exact .none 4
    | _ => simp only [underlined, hu]; exact .underline rfl
  have hstart : BodyWithin 1 ['0'] := .digit rfl
  have hfinal : BodyWithin 1 ['m'] := .separator (by decide)
  exact ((((((((((hstart.append (hflag style.bold 1 (by decide))).append
    (hflag style.dim 2 (by decide))).append (hflag style.italic 3 (by decide))).append
    (hflag style.inverse 7 (by decide))).append (hflag style.conceal 8 (by decide))).append
    (hflag style.strike 9 (by decide))).append hunderlined).append
    (hcolor style.foreground 38 (by decide))).append (hcolor style.background 48 (by decide))).append
    (hcolor style.underlineColor 58 (by decide))).append hfinal

/-! ## Strings the filter answers -/

variable {R : Type} {em : Emulator R}

theorem dcsReply_answer {m : Machine R} {text reply : List Char}
    (h : m.dcsReply text = some reply) : Answer reply ∧ reply.length ≤ fieldCost text + 16 := by
  unfold Machine.dcsReply at h
  split at h
  · rename_i payload hs
    obtain rfl := Option.some.inj h
    have hcap := capabilities_answer payload
    refine ⟨hcap.1, hcap.2.trans ?_⟩
    rw [stripPre_some hs]
    simp only [fieldCost, byteLen_append]
    omega
  split at h
  · rename_i request hs
    have hlen := length_le_byteLen text
    rw [stripPre_some hs] at hlen ⊢
    simp only [List.length_append] at hlen
    split at h <;> obtain rfl := Option.some.inj h
    · rename_i hm
      have hsgr := sgr_within (terminalStyle m.engine.term.cursor.template)
      have hl := hsgr.length
      subst hm
      refine ⟨?_, ?_⟩
      · simpa using ((Body.own (a := "1$r".toList) (by decide)).append hsgr.body).dcs
      · simp only [fieldCost, List.length_append]
        simp at hlen ⊢
        omega
    · refine ⟨?_, ?_⟩
      · simpa using (Body.own (a := "0$r".toList) (by decide)).dcs
      · simp only [fieldCost]
        simp
  · cases h

theorem oscColors_extends (law : Base64Law em.toVendor) {m : Machine R} {text finish : List Char}
    (hf : Terminator finish) {o : OscState} (h : m.oscColors em text finish = some o) :
    Extends (fieldCost text) [] o.reply := by
  unfold Machine.oscColors at h
  rcases hs : (splitOnce ';' text).getD (text, []) with ⟨command, payload⟩
  rw [hs] at h
  dsimp only at h
  split at h
  · cases h
  rename_i number hn
  refine (osc_extends law hf h).mono ?_
  have hcommand : 1 ≤ byteLen command := by
    have := List.length_pos_iff.mpr (parseUnsigned_digits hn).1
    have := length_le_byteLen command
    omega
  have htext : byteLen command + byteLen payload ≤ byteLen text := by
    cases hsplit : splitOnce ';' text with
    | none =>
      rw [hsplit] at hs
      cases hs
      simp
    | some p =>
      rw [hsplit] at hs
      cases hs
      rw [splitOnce_some hsplit]
      simp
  simp only [fieldCost]
  omega

end Voytty.Terminal
