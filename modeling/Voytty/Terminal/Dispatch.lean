import Voytty.Terminal.Admission
import Voytty.Terminal.Replies

/-!
# What one byte does

A finished sequence or string may reply (`Replied`), with an answer paid for by
its own bytes. `Took` lists everything one byte can do to the machine: it is
text, it starts or continues a sequence (`Enters`), or it ends one. Facts about
a byte are then proved on `Took` alone.
-/

namespace Voytty.Terminal

open Voytty.Lib Relation

variable {R : Type} {em : Emulator R} {P : List UInt8 → Prop} {m m' m'' : Machine R}

/-! ## Steps with a reply -/

/-- The counters that replies print are machine words, and the colour stack has ten slots. -/
structure Counted (e : AlacrittyEngine R) : Prop where
  lines : e.term.screenLines < 2 ^ 64
  columns : e.term.columns < 2 ^ 64
  depth : e.colors.depth ≤ 10
  stored : e.colors.stored ≤ 10

variable (em) (P) in
/-- A step that leaves the framing alone and replies with an answer of at most `cost` bytes,
which only the update's bound can refuse. -/
structure Replied (cost : Nat) (m : Machine R) (s : Step R) : Prop where
  kept : Kept em P m s.2
  answer : s.1 = .ok () → ∃ text, Answer text ∧ (Counted m.engine → text.length ≤ cost) ∧
    s.2.output.replies = m.output.replies ++ encode text
  fits : Counted m.engine → m.output.replies.length + cost ≤ maxReplyBytesPerUpdate → s.1 = .ok ()

theorem ControlReply.ascii {q : List Char} (h : ControlReply q) : ∀ c ∈ q, c.toNat < 0x80 := by
  have fixed : ∀ {a : List Char}, a.all (·.toNat < 0x80) = true → ∀ c ∈ a, c.toNat < 0x80 :=
    fun ha c hc => by simpa using List.all_eq_true.mp ha c hc
  intro c hc
  cases h with
  | csi hb plain hfinal =>
    simp only [List.mem_append, List.mem_singleton] at hc
    rcases hc with (hc | hc) | rfl
    · exact fixed (by decide) c hc
    · have := plain c hc
      omega
    · exact fixed (by decide) c hfinal
  | osc hb plain hfinish =>
    simp only [List.mem_append] at hc
    rcases hc with (hc | hc) | hc
    · exact fixed (by decide) c hc
    · have := plain c hc
      omega
    · rcases hfinish with rfl | rfl <;> exact fixed (by decide) c hc
  | dcs hb plain =>
    simp only [List.mem_append] at hc
    rcases hc with (hc | hc) | hc
    · exact fixed (by decide) c hc
    · have := plain c hc
      omega
    · exact fixed (by decide) c hc

variable {text : List Char} {e : AlacrittyEngine R} {s : ControlString}

theorem Answer.ascii (h : Answer text) : ∀ c ∈ text, c.toNat < 0x80 := by
  induction h with
  | nil => intro c hc; cases hc
  | cons hq _ ih =>
    intro c hc
    rcases List.mem_append.mp hc with hc | hc
    · exact hq.ascii c hc
    · exact ih c hc

theorem Answer.length_encode (h : Answer text) :
    (encode text).length = text.length := by
  rw [encode_ascii h.ascii, List.length_map]

namespace Replied

variable {cost : Nat}

theorem silent (h : Quiet em P m m') : Replied em P cost m (.ok (), m') :=
  ⟨h.toKept, fun _ => ⟨[], .nil, by simp, by simp [h.replies, encode]⟩, fun _ _ => rfl⟩

theorem reply (h : Quiet em P m m') {text : List Char} (ha : Answer text)
    (hl : Counted m.engine → text.length ≤ cost) : Replied em P cost m (m'.pushReply text) := by
  have hkept := h.toKept.trans (Aside.pushReply text).kept
  unfold Machine.pushReply at hkept ⊢
  rw [ha.length_encode, h.replies] at hkept ⊢
  split at hkept
  · rw [if_pos ‹_›]
    exact ⟨hkept, nofun, fun hc hfit => by have := hl hc; omega⟩
  · rw [if_neg ‹_›]
    exact ⟨hkept, fun _ => ⟨text, ha, hl, by simp⟩, fun _ _ => rfl⟩

theorem ite {c : Prop} [Decidable c] {a b : Step R} (ha : c → Replied em P cost m a)
    (hb : ¬c → Replied em P cost m b) : Replied em P cost m (if c then a else b) := by
  split
  · exact ha ‹_›
  · exact hb ‹_›

theorem mono {cost' : Nat} {s : Step R} (h : Replied em P cost m s) (hc : cost ≤ cost') :
    Replied em P cost' m s := by
  refine ⟨h.kept, fun hok => ?_, fun hcount hfit => h.fits hcount (by omega)⟩
  obtain ⟨text, ha, hl, he⟩ := h.answer hok
  exact ⟨text, ha, fun hcount => (hl hcount).trans hc, he⟩

theorem trans {cost' : Nat} {s : Step R} (h : Replied em P cost m (.ok (), m'))
    (he : m'.engine = m.engine) (h' : Replied em P cost' m' s) : Replied em P (cost + cost') m s := by
  obtain ⟨a, ha, hal, har⟩ := h.answer rfl
  dsimp only at har
  refine ⟨h.kept.trans h'.kept, fun hok => ?_, fun hc hfit => ?_⟩
  · obtain ⟨b, hb, hbl, hbr⟩ := h'.answer hok
    rw [he] at hbl
    refine ⟨a ++ b, ha.append hb, fun hc => ?_, by rw [hbr, har]; simp [encode]⟩
    have := hal hc
    have := hbl hc
    simp; omega
  · have := hal hc
    refine h'.fits (he ▸ hc) ?_
    rw [har, List.length_append, ha.length_encode]
    omega

end Replied

theorem pushReply_engine (m : Machine R) (reply : List Char) :
    (m.pushReply reply).2.engine = m.engine := by
  unfold Machine.pushReply
  split <;> rfl

/-! ### Control sequences -/

theorem cursorReport_length (h : Counted e) (isPrivate : Bool) :
    (e.cursorReport isPrivate).length ≤ 45 := by
  have hlines := h.lines
  have hcolumns := h.columns
  have hrow : (decimal (min e.term.cursor.line.toNat (e.term.screenLines - 1) + 1)).length ≤ 20 :=
    decimal_length_lt (by omega) (by decide)
  have hcolumn : (decimal (min e.term.cursor.column (e.term.columns - 1) + 1)).length ≤ 20 :=
    decimal_length_lt (by omega) (by decide)
  unfold AlacrittyEngine.cursorReport
  cases isPrivate <;> simp <;> omega

theorem stackReport_length {s : VoyttyColorState} (hd : s.depth ≤ 10) (hs : s.stored ≤ 10) :
    s.stackReport.length ≤ 10 := by
  have h1 : (decimal s.depth).length ≤ 2 := decimal_length_lt (by omega) (by decide)
  have h2 : (decimal s.stored).length ≤ 2 := decimal_length_lt (by omega) (by decide)
  unfold VoyttyColorState.stackReport
  simp
  omega

theorem reportMode_le (e : AlacrittyEngine R) (mode : Nat) (isPrivate : Bool) :
    e.reportMode mode isPrivate ≤ 2 := by
  unfold AlacrittyEngine.reportMode
  split <;> omega

theorem keyboardModeBits_lt (e : AlacrittyEngine R) : e.keyboardModeBits < 100 := by
  have hbit : ∀ b : Bool, b.toNat ≤ 1 := fun b => by cases b <;> decide
  unfold AlacrittyEngine.keyboardModeBits
  have h1 := hbit e.term.mode.disambiguateEscCodes
  have h2 := hbit e.term.mode.reportEventTypes
  have h3 := hbit e.term.mode.reportAlternateKeys
  have h4 := hbit e.term.mode.reportAllKeysAsEsc
  have h5 := hbit e.term.mode.reportAssociatedText
  dsimp only
  omega

/-- Each reported mode costs at most four times what its number and separator do. -/
theorem reportModes_replied (isPrivate : Bool) (values : List Nat) (m : Machine R) :
    Replied em P (4 * modesCost values) m (Machine.reportModes isPrivate values m) := by
  induction values generalizing m with
  | nil => exact .silent (.refl m)
  | cons value values ih =>
    have hcost : modesCost (value :: values) = (decimal value).length + 1 + modesCost values := rfl
    simp only [Machine.reportModes]
    generalize hstate : (if isPrivate = true ∧ value = 2026 then _ else _) = state
    have hle : state ≤ 2 := by
      rw [← hstate]
      split
      · split <;> decide
      · exact reportMode_le ..
    have hengine := pushReply_engine m ("\x1b[".toList ++ (if isPrivate then ['?'] else []) ++
      decimal value ++ [';'] ++ decimal state ++ "$y".toList)
    have hreply : Replied em P (4 * ((decimal value).length + 1)) m _ :=
      Replied.reply (.refl m) (modeReply_answer isPrivate value state) fun _ => by
        have h1 : (decimal state).length ≤ 1 := decimal_length_lt (by omega) (by decide)
        have h2 : 0 < (decimal value).length := by simp [decimal, Nat.length_toDigits_pos]
        cases isPrivate <;> simp <;> omega
    split
    · rename_i m' hp
      rw [hp] at hreply hengine
      rw [hcost, Nat.mul_add]
      exact hreply.trans hengine (ih m')
    · rename_i e m' hp
      rw [hp] at hreply
      exact ⟨hreply.kept, by simp, fun hc hfit => hreply.fits hc (by omega)⟩

theorem parseParameters_cost_any {body : List UInt8} {marker : Option UInt8} {values : List Nat}
    (h : parseParameters body = (marker, some values)) : modesCost values ≤ 2 * body.length + 2 := by
  cases marker with
  | some marker => exact (parseParameters_cost h).trans (Nat.le_add_right _ _)
  | none =>
    cases body with
    | nil =>
      obtain rfl : values = [] := by simpa [parseParameters] using h
      simp [modesCost]
    | cons first rest =>
      simp only [parseParameters] at h
      split at h
      · split at h <;> simp at h
      · split at h
        · rename_i hempty
          cases hempty
        · have h1 := mapM_parseParameter_cost (Prod.mk.inj h).2
          dsimp only at h1
          have h2 := splitOn_length 0x3b (first :: rest)
          have h3 := length_splitOn_le 0x3b (first :: rest)
          omega

theorem requestModes_replied (parameters : List UInt8) :
    Replied em P (8 * parameters.length + 8) m (m.requestModes parameters) := by
  unfold Machine.requestModes
  have hmono : ∀ {marker values} {isPrivate : Bool},
      parseParameters parameters = (marker, some values) →
      Replied em P (8 * parameters.length + 8) m (m.reportModes isPrivate values) := fun hp => by
    have := parseParameters_cost_any hp
    exact (reportModes_replied _ _ m).mono (by omega)
  split
  · exact hmono ‹_›
  · exact hmono ‹_›
  · exact .silent (.refl m)

theorem colorStack_replied (body : List UInt8) (b : UInt8) :
    Replied em P 10 m (m.colorStack body b) := by
  unfold Machine.colorStack
  split
  · split
    · exact .reply (.refl m) (stackReport_answer _) fun h => stackReport_length h.depth h.stored
    · exact .silent (.refl m)
  · split
    · exact .silent (Mute.quiet (.setEngine (colors_steps _
        (run_foldl id (fun s i => .single (.stack s _ i)) _ _))))
    · exact .silent (.refl m)

theorem deviceStatus_replied (marker : Option UInt8) (parameters : Option (List Nat)) :
    Replied em P 45 m (m.deviceStatus marker parameters) := by
  unfold Machine.deviceStatus
  split
  · exact .reply (.refl m) statusReply_answer fun _ => by simp
  · exact .reply (.refl m) (cursorReport_answer _ _) fun h => cursorReport_length h _
  · exact .reply (.refl m) (cursorReport_answer _ _) fun h => cursorReport_length h _
  · exact .silent (.output _ rfl)

theorem windowOperation_replied (body : List UInt8) (marker : Option UInt8)
    (parameters : Option (List Nat)) :
    Replied em P 16 m (m.windowOperation body marker parameters) := by
  unfold Machine.windowOperation
  split
  · refine .reply (.refl m) (windowReply_answer _ _) fun _ => ?_
    have hsize : ∀ n, (decimal (saturateU16 n)).length ≤ 5 := fun n =>
      decimal_length_lt (by unfold saturateU16; omega) (by decide)
    have h1 := hsize m.engine.term.screenLines
    have h2 := hsize m.engine.term.columns
    simp only [AlacrittyEngine.size]
    simp
    omega
  · split
    · split <;> exact .silent (.output _ rfl)
    · exact .silent (.output _ rfl)

theorem keyboardMode_replied {s : Sequence} (h : P s.bytes) (marker : Option UInt8)
    (parameters : Option (List Nat)) :
    Replied em P 6 m (m.dispatchKeyboardMode em s marker parameters) := by
  unfold Machine.dispatchKeyboardMode
  extract_lets admitted
  split
  · refine .reply (.refl m) (keyboardReply_answer _) fun _ => ?_
    have : (decimal m.engine.keyboardModeBits).length ≤ 2 :=
      decimal_length_lt (keyboardModeBits_lt _) (by decide)
    simp
    omega
  split
  · exact .silent (.feed h)
  · exact .silent (.output _ rfl)

theorem appearanceReply_length (s : VoyttyColorState) : s.appearanceReply.length ≤ 9 := by
  unfold VoyttyColorState.appearanceReply
  split <;> simp

/-- A control sequence feeds itself, rebuilt modes or characters, and asks for no more than sixteen
bytes for each of its own after ESC. -/
theorem dispatchCsi_replied (hP : Covers P) (hm : MarksOk m.policy) {s : Sequence} {b : UInt8}
    (h : CsiOk s) (hcsi : (s.push b).overflowed = false → P (s.push b).bytes) :
    Replied em P (16 * ((s.push b).bytes.length - 1)) m (m.dispatchCsi em (s.push b)) := by
  unfold Machine.dispatchCsi
  by_cases ho : (s.push b).overflowed ∨ (s.push b).bytes.length < 3
  · rw [if_pos ho]; exact .silent (.output _ rfl)
  rw [if_neg ho]
  replace ho : (s.push b).overflowed = false := by simpa using (not_or.mp ho).1
  replace hcsi := hcsi ho
  obtain ⟨body, hbytes, -, -, hlen⟩ := h.final ho
  have hbody : ((s.push b).bytes.drop 2).dropLast = body := by simp [hbytes]
  have hcost : (s.push b).bytes.length = body.length + 3 := by rw [hbytes]; simp
  dsimp only
  rw [hbody]
  generalize (s.push b).bytes.getLastD 0 = b'
  rcases hp : parseParameters body with ⟨marker, parameters⟩
  dsimp only
  have hstatus : Replied em P (16 * ((s.push b).bytes.length - 1)) m
      (m.deviceStatus marker parameters) := by
    -- an empty body asks for no report
    cases body with
    | nil => cases hp; exact .silent (.output _ rfl)
    | cons c body => exact (deviceStatus_replied ..).mono (by simp only [List.length_cons] at hcost; omega)
  have happearance := appearanceReply_length m.engine.colors
  -- the branches of the dispatch, in its order
  refine .ite (fun _ => .reply (.refl m) (appearanceReply_answer _) fun _ => by omega) fun _ => ?_
  refine .ite (fun _ => (requestModes_replied _).mono (by rw [List.length_dropLast]; omega))
    fun _ => ?_
  refine .ite (fun _ => (colorStack_replied body b').mono (by omega)) fun _ => ?_
  refine .ite (fun _ => .reply (.refl m) attributesReply_answer fun _ => by simp; omega) fun _ => ?_
  refine .ite (fun _ => hstatus) fun _ => ?_
  refine .ite (fun _ => (windowOperation_replied ..).mono (by omega)) fun _ => ?_
  refine .ite (fun _ => .ite (fun _ => .silent (.feed hcsi))
    fun _ => (keyboardMode_replied hcsi ..).mono (by omega)) fun _ => ?_
  refine .ite (fun _ => .silent ((Quiet.repeatCharacter hm ..).mono hP.plain)) fun _ => ?_
  refine .ite (fun hmarker => ?_) fun _ => .ite (fun _ => .silent (.output _ rfl))
    fun _ => .silent (.feed hcsi)
  cases parameters with
  | none => exact .silent (.output _ rfl)
  | some values =>
    refine .silent (.setPrivateModes hP ?_ _)
    have := parseParameters_cost (hmarker.2 ▸ hp)
    unfold ModesFit
    omega

/-! ### Control strings -/

/-- A clipboard string is the one kind that may be long, and it has no reply. -/
structure StringOk (s : ControlString) : Prop where
  clipboard : s.clipboard = true → s.kind = .osc ∧ [0x35, 0x32, 0x3b] <+: s.bytes
  bounded : s.clipboard = false → s.bytes.length ≤ maxControlStringBytes

theorem StringOk.new (kind : StringKind) : StringOk { kind := kind } := ⟨nofun, fun _ => by simp⟩

theorem ControlString.push_cases (s : ControlString) (b : UInt8) :
    (s.push b).kind = s.kind ∧ (s.push b).sawEscape = s.sawEscape ∧
      (((s.push b).bytes = s.bytes ∧ (s.push b).clipboard = s.clipboard) ∨
        ((s.push b).bytes = s.bytes ++ [b] ∧
          (s.clipboard = false → s.bytes.length < maxControlStringBytes) ∧
          (s.push b).clipboard =
            (s.clipboard || (s.kind = .osc && s.bytes ++ [b] = [0x35, 0x32, 0x3b])))) := by
  have htrack : (s.trackUtf8 b).kind = s.kind ∧ (s.trackUtf8 b).sawEscape = s.sawEscape ∧
      (s.trackUtf8 b).bytes = s.bytes ∧ (s.trackUtf8 b).clipboard = s.clipboard := by
    unfold ControlString.trackUtf8
    split <;> exact ⟨rfl, rfl, rfl, rfl⟩
  obtain ⟨hkind, hsaw, hbytes, hclip⟩ := htrack
  unfold ControlString.push
  dsimp only
  rw [hbytes, hclip, hkind]
  generalize hmax : (if s.clipboard = true then _ else _) = maximum
  split
  · rename_i hlt
    refine ⟨rfl, hsaw, .inr ⟨rfl, fun hc => ?_, rfl⟩⟩
    rw [hc, if_neg (by simp)] at hmax
    rwa [hmax]
  · exact ⟨rfl, hsaw, .inl ⟨rfl, rfl⟩⟩

theorem StringOk.push (h : StringOk s) (b : UInt8) : StringOk (s.push b) := by
  obtain ⟨hkind, -, ⟨hbytes, hclip⟩ | ⟨hbytes, hlt, hclip⟩⟩ := s.push_cases b
  · exact ⟨by rw [hkind, hbytes, hclip]; exact h.clipboard, by rw [hbytes, hclip]; exact h.bounded⟩
  · refine ⟨fun hc => ?_, fun hc => ?_⟩
    · rw [hkind, hbytes]
      rw [hclip] at hc
      have hc : s.clipboard = true ∨ s.kind = .osc ∧ s.bytes ++ [b] = [0x35, 0x32, 0x3b] := by
        simpa using hc
      rcases hc with hc | ⟨hosc, heq⟩
      · exact ⟨(h.clipboard hc).1, (h.clipboard hc).2.trans (List.prefix_append _ _)⟩
      · exact ⟨hosc, by rw [heq]⟩
    · rw [hclip, Bool.or_eq_false_iff] at hc
      have := hlt hc.1
      rw [hbytes, List.length_append, List.length_singleton]
      omega

/-- `t` continues `s` by at most `n` bytes, counting a pending ESC. -/
structure Continues (n : Nat) (s t : ControlString) : Prop where
  ok : StringOk s → StringOk t
  clipboard : s.clipboard = true → t.clipboard = true
  length : t.bytes.length + t.sawEscape.toNat ≤ s.bytes.length + s.sawEscape.toNat + n

theorem Continues.push (s : ControlString) (b : UInt8) : Continues 1 s (s.push b) := by
  refine ⟨fun h => h.push b, fun hc => ?_, ?_⟩
  all_goals obtain ⟨-, hsaw, ⟨hbytes, hclip⟩ | ⟨hbytes, -, hclip⟩⟩ := s.push_cases b
  · rw [hclip, hc]
  · rw [hclip, hc]; rfl
  · rw [hbytes, hsaw]; omega
  · rw [hbytes, hsaw]; simp; omega

theorem Continues.trans {n n' : Nat} {t u : ControlString} (h : Continues n s t)
    (h' : Continues n' t u) : Continues (n + n') s u :=
  ⟨h'.ok ∘ h.ok, h'.clipboard ∘ h.clipboard, by have := h.length; have := h'.length; omega⟩

theorem oscColors_clipboard {finish : List Char} {bytes : List UInt8}
    (h : decode bytes = some text) (hp : [0x35, 0x32, 0x3b] <+: bytes) :
    m.oscColors em text finish = none := by
  obtain ⟨rest, rfl⟩ := hp
  obtain ⟨t1, rfl, h1⟩ := encode_head (by decide) (encode_decode h)
  obtain ⟨t2, rfl, h2⟩ := encode_head (by decide) h1
  obtain ⟨t3, rfl, -⟩ := encode_head (by decide) h2
  have hsplit : splitOnce ';' ('5' :: '2' :: ';' :: t3) = some (['5', '2'], t3) := by
    simp [splitOnce]
  have hnumber : parseUnsigned 10 65536 ['5', '2'] = some 52 := by decide
  have hosc : ∀ s : VoyttyColorState, s.osc em.toVendor 52 t3 finish = none := fun s => by
    simp [VoyttyColorState.osc]
  show m.oscColors em ('5' :: '2' :: ';' :: t3) finish = none
  unfold Machine.oscColors
  rw [hsplit]
  simp only [Option.getD_some, hnumber, hosc]

def stringCost (s : ControlString) : Nat := if s.clipboard then 0 else 16 * (s.bytes.length + 2)

theorem dispatchString_replied (law : Base64Law em.toVendor) (hs : StringOk s) {finish : List Char}
    (hf : Terminator finish) :
    Replied em P (stringCost s) m (m.dispatchString em s finish) := by
  unfold Machine.dispatchString
  refine .ite (fun _ => .silent (Mute.dispatchOverflowed s).quiet) fun _ => ?_
  have hcost : ∀ {text : List Char}, decode s.bytes = some text →
      fieldCost text = 16 * (s.bytes.length + 1) := fun h => by rw [fieldCost, byteLen_decode h]
  split
  · rename_i text htext hkind
    -- a device control string is no clipboard string
    have hclip : s.clipboard = false := by
      cases hc : s.clipboard with
      | false => rfl
      | true => rw [(hs.clipboard hc).1] at hkind; cases hkind
    split
    · rename_i reply hr
      obtain ⟨ha, hl⟩ := dcsReply_answer hr
      have := hcost htext
      exact .reply (.refl m) ha fun _ => by rw [stringCost, hclip, if_neg (by simp)]; omega
    · exact .silent (.output _ rfl)
  · rename_i text htext hkind
    split
    · rename_i o ho
      cases hc : s.clipboard with
      | true =>
        rw [oscColors_clipboard htext (hs.clipboard hc).2] at ho
        cases ho
      | false =>
        obtain ⟨reply, ha, hl, hr⟩ := oscColors_extends law hf ho
        have := hcost htext
        rw [List.nil_append] at hr
        rw [hr]
        have hcolors : Mute em m _ := .setEngine (colors_steps _ (Aside.oscColors ho))
        exact .reply hcolors.quiet ha fun _ => by rw [stringCost, hc, if_neg (by simp)]; omega
    · exact .silent (Mute.dispatchOsc _).quiet
  · exact .silent (Mute.dispatchOsc _).quiet
  · exact .silent (.output _ rfl)

/-! ## What is collected -/

/-- The reply bytes that the bytes of an unfinished query have paid for. -/
def credit : PolicyState → Nat
  | .ground => 0
  | .escape _ => 0
  | .csi s => 16 * (s.bytes.length - 1)
  | .string s =>
    if s.clipboard then 0
    else 16 * (min (s.bytes.length + s.sawEscape.toNat) maxControlStringBytes + 1)

/-- A collected sequence retains no more than it has seen, within its bound. -/
structure SequenceOk (s : Sequence) : Prop where
  seen : s.bytes.length ≤ s.inputBytes
  bounded : s.bytes.length ≤ maxControlSequenceBytes

theorem SequenceOk.new {start : List UInt8} (h : start.length ≤ 2) : SequenceOk (.new start) :=
  ⟨Nat.le_refl _, h.trans (by decide)⟩

theorem SequenceOk.note {s : Sequence} (h : SequenceOk s) : SequenceOk s.noteInputByte.2 :=
  ⟨h.seen.trans (Nat.le_succ _), h.bounded⟩

theorem SequenceOk.push {s : Sequence} (h : SequenceOk s) (b : UInt8) : SequenceOk (s.push b) := by
  have h1 := h.seen
  unfold Sequence.push Sequence.noteInputByte
  dsimp only
  split
  · rename_i hr
    have hretain := (Bool.and_eq_true_iff.mp (Prod.mk.inj hr).1).1
    obtain rfl := (Prod.mk.inj hr).2
    rw [decide_eq_true_eq] at hretain
    exact ⟨by simpa using h1, by simp; omega⟩
  · rename_i hr
    obtain ⟨-, rfl⟩ := Prod.mk.inj hr
    exact h.note

theorem Sequence.push_length (s : Sequence) (b : UInt8) :
    (s.push b).bytes.length ≤ s.bytes.length + 1 := by
  unfold Sequence.push Sequence.noteInputByte
  dsimp only
  split <;> rename_i hr <;> obtain ⟨-, rfl⟩ := Prod.mk.inj hr <;> simp

def CollectedOk : PolicyState → Prop
  | .ground => True
  | .escape s | .csi s => SequenceOk s
  | .string s => StringOk s

theorem CollectedOk.credit_le {state : PolicyState} (h : CollectedOk state) :
    credit state ≤ 16 * 1025 := by
  have hmax : maxControlSequenceBytes = 256 ∧ maxControlStringBytes = 1024 := ⟨rfl, rfl⟩
  cases state with
  | ground => simp [credit]
  | escape s => simp [credit]
  | csi s =>
    have := h.bounded
    simp only [credit]; omega
  | string s =>
    simp only [credit]
    split <;> omega

theorem Continues.credit {t : ControlString} (h : Continues 1 s t) :
    credit (.string t) ≤ credit (.string s) + 16 := by
  have hl := h.length
  simp only [Voytty.Terminal.credit]
  cases ht : t.clipboard with
  | true => simp
  | false =>
    have hs : s.clipboard = false := by
      cases hs : s.clipboard with
      | false => rfl
      | true => rw [h.clipboard hs] at ht; cases ht
    simp only [hs, Bool.false_eq_true, ↓reduceIte]
    omega

theorem stringCost_le (hs : StringOk s) :
    stringCost s ≤ credit (.string s) + 16 := by
  simp only [stringCost, credit]
  cases hc : s.clipboard with
  | true => simp
  | false =>
    have := hs.bounded hc
    simp only [Bool.false_eq_true, ↓reduceIte]
    omega

/-! ## One byte -/

def StateOk : PolicyState → Prop
  | .escape sequence => EscapeOk sequence
  | .csi sequence => CsiOk sequence
  | _ => True

/-- What the filter's state satisfies between bytes. -/
structure PolicyInv (p : TerminalIngressPolicy) : Prop where
  state : StateOk p.state
  pending : scan p.utf8 = .incomplete
  idle : p.state ≠ .ground → p.utf8 = []
  marks : MarksOk p

theorem PolicyInv.init : PolicyInv {} := ⟨trivial, rfl, fun _ => rfl, trivial, nofun⟩

/-- The state a byte leaves that ends nothing. -/
inductive Enters (b : UInt8) : PolicyState → PolicyState → Prop where
  | escape {state : PolicyState} : Enters b state (.escape (.new [0x1b]))
  | csi {state : PolicyState} : Enters b state (.csi (.new [0x1b, 0x5b]))
  | opened {state : PolicyState} (kind : StringKind) : Enters b state (.string { kind := kind })
  | notedEscape {s : Sequence} : Enters b (.escape s) (.escape s.noteInputByte.2)
  | notedCsi {s : Sequence} (hb : isCsiFinal b = false) : Enters b (.csi s) (.csi s.noteInputByte.2)
  | bracket {s : Sequence} (hs : s.bytes.length = 1 ∧ !s.overflowed) (hb : b = 0x5b) :
      Enters b (.escape s) (.csi (s.push b))
  | escapes {s : Sequence} (hb : 0x20 ≤ b ∧ b ≤ 0x2f) : Enters b (.escape s) (.escape (s.push b))
  | collects {s : Sequence} (hb : 0x20 ≤ b ∧ b ≤ 0x3f) : Enters b (.csi s) (.csi (s.push b))
  | payload {s t : ControlString} (h : Continues 1 s t) : Enters b (.string s) (.string t)

variable {b : UInt8}

theorem Enters.introducer {state next : PolicyState} (h : c1Introducer b = some next) :
    Enters b state next := by
  unfold c1Introducer at h
  split at h
  · cases h; exact .csi
  · repeat' split at h
    all_goals first | cases h; exact .opened _ | cases h

theorem Enters.ok {state next : PolicyState} (h : Enters b state next) (hs : StateOk state) :
    StateOk next := by
  cases h with
  | escape => exact EscapeOk.new
  | csi => exact CsiOk.new
  | opened | payload => trivial
  | notedEscape | notedCsi => exact Sequence.Ok.note hs
  | bracket hlen hb => exact hb ▸ EscapeOk.bracket hs hlen.1
  | escapes hb | collects hb => exact Sequence.Ok.push hs hb

/-- A byte pays for sixteen bytes of a reply. -/
theorem Enters.collected {state next : PolicyState} (h : Enters b state next)
    (hs : CollectedOk state) : CollectedOk next ∧ credit next ≤ credit state + 16 := by
  cases h with
  | escape => exact ⟨SequenceOk.new (by decide), by simp [credit]⟩
  | csi => exact ⟨SequenceOk.new (by decide), by simp [credit, Sequence.new]⟩
  | opened kind => exact ⟨StringOk.new kind, by simp [credit]⟩
  | notedEscape => exact ⟨hs.note, by simp [credit]⟩
  | notedCsi => exact ⟨hs.note, Nat.le_add_right _ _⟩
  | @escapes s => exact ⟨hs.push b, by simp [credit]⟩
  | @bracket s | @collects s =>
    have := s.push_length b
    exact ⟨hs.push b, by simp only [credit]; omega⟩
  | payload h => exact ⟨h.ok hs, h.credit⟩

/-- What the filter's state satisfies, with the bounds of what it collects. -/
structure Framed (p : TerminalIngressPolicy) : Prop extends PolicyInv p where
  collected : CollectedOk p.state

variable (em) in
/-- What a byte leaves that is handled in the ground state: only plain strings fed, nothing
replied, and a pending prefix that may still grow. -/
structure Passed (m m' : Machine R) : Prop where
  engine : FeedSteps em Plain m.engine m'.engine
  state : m'.policy.state = .ground
  pending : scan m'.policy.utf8 = .incomplete
  marks : MarksOk m.policy → MarksOk m'.policy
  replies : m'.output.replies = m.output.replies

variable (em) in
/-- Everything one byte can do. -/
inductive Took (m : Machine R) (b : UInt8) : Step R → Prop where
  /-- Text, a cancelled sequence, or an escape sequence. -/
  | stays {m' : Machine R} (h : Passed em m m')
      (hidle : m.policy.state ≠ .ground → m'.policy.utf8 = []) : Took m b (.ok (), m')
  | enters {m' : Machine R} {state : PolicyState} (h : Passed em m m')
      (hempty : m'.policy.utf8 = []) (hs : Enters b m.policy.state state) :
      Took m b (.ok (), m'.setState state)
  | reset (hempty : m.policy.utf8 = []) :
      Took m b (.ok (), { m with
        policy := { m.policy with
          state := .ground
          precedingCharacter := none
          synchronizedOutput := false
          boundary := some .reset }
        engine := m.engine.feedReset em [0x1b, 0x63] })
  | csi {s : Sequence} (hs : m.policy.state = .csi s) (hb : isCsiFinal b = true) :
      Took m b ((m.setState .ground).dispatchCsi em (s.push b))
  | string {s : ControlString} (hs : m.policy.state = .string s) (sawEscape : Bool)
      {finish : List Char} (hf : Terminator finish) :
      Took m b ((m.setState .ground).dispatchString em { s with sawEscape } finish)

section Idle

variable (hidle : m.policy.utf8 = [])
include hidle

theorem Quiet.passed (h : Quiet em Plain (m.setState .ground) m') :
    Passed em m m' ∧ m'.policy.utf8 = [] := by
  have hempty : m'.policy.utf8 = [] := h.utf8.trans hidle
  exact ⟨⟨h.engine, h.state, by rw [hempty]; rfl,
    fun hm => h.marks ⟨hm.boundary, hm.preceding⟩, h.replies⟩, hempty⟩

theorem Took.back (h : Quiet em Plain (m.setState .ground) m') : Took em m b (.ok (), m') :=
  .stays (h.passed hidle).1 fun _ => (h.passed hidle).2

theorem Took.moves {state : PolicyState} (h : Quiet em Plain (m.setState .ground) m')
    (hs : Enters b m.policy.state state) : Took em m b (.ok (), m'.setState state) :=
  .enters (h.passed hidle).1 (h.passed hidle).2 hs

variable {s : Sequence}

theorem interruptSequence_took {resume : Sequence → PolicyState}
    (h : (m.setState .ground).interruptSequence em b s resume = some m')
    (hresume : isCsiFinal b = false → Enters b m.policy.state (resume s.noteInputByte.2)) :
    Took em m b (.ok (), m') := by
  unfold Machine.interruptSequence at h
  split at h
  · exact Option.some.inj h ▸ .back hidle (.refl _)
  split at h
  · exact Option.some.inj h ▸ .moves hidle (.refl _) .escape
  split at h
  · exact Option.some.inj h ▸ .moves hidle (.refl _) (.introducer ‹_›)
  dsimp only at h
  split at h
  · rename_i hcontrol
    obtain rfl := Option.some.inj h
    refine .moves hidle ?_ (hresume ?_)
    · split
      · exact .embeddedControl hcontrol
      · exact .refl _
    · unfold isEmbeddedControl at hcontrol
      unfold isCsiFinal
      grind
  split at h
  · obtain rfl := Option.some.inj h
    refine .moves hidle ?_ (hresume ?_)
    · split
      · exact .output _ rfl
      · exact .refl _
    · unfold isCsiFinal
      grind
  · cases h

omit hidle in
theorem interruptSequence_none {resume : Sequence → PolicyState}
    (h : m.interruptSequence em b s resume = none) : 0x20 ≤ b ∧ b ≤ 0x7e := by
  unfold Machine.interruptSequence at h
  dsimp only at h
  grind [isEmbeddedControl]

theorem processEscape_took (hs : m.policy.state = .escape s) (hok : EscapeOk s) :
    Took em m b (.ok (), (m.setState .ground).processEscape em b s) := by
  unfold Machine.processEscape
  split
  · rename_i hi
    exact interruptSequence_took hidle hi fun _ => hs ▸ .notedEscape
  rename_i hi
  have hb := interruptSequence_none hi
  have hcontinue : (s.bytes.length = 1 → s.overflowed = false → b ∉ introducers) →
      Took em m b (.ok (), (m.setState .ground).continueEscape em (s.push b) b) := fun hsecond => by
    unfold Machine.continueEscape
    split
    · rename_i hfinal
      by_cases hplain : (s.push b).overflowed = true ∨ (s.push b).bytes ≠ [0x1b, 0x63]
      · exact .back hidle (.dispatchEscape hok hfinal hsecond hplain)
      · obtain ⟨ho, hreset⟩ := not_or.mp hplain
        have hdispatch : (m.setState .ground).dispatchEscape em (s.push b) = _ :=
          (if_neg ho).trans ((if_neg (by rw [not_not.mp hreset]; decide)).trans
            (if_pos (not_not.mp hreset)))
        rw [hdispatch, not_not.mp hreset]
        exact .reset hidle
    · rename_i hfinal
      refine .moves hidle (.refl _) (hs ▸ .escapes ?_)
      unfold isEscapeFinal at hfinal
      grind
  split
  · rename_i hlen
    split
    · exact .moves hidle (.refl _) (hs ▸ .bracket hlen ‹_›)
    split
    · exact .moves hidle (.refl _) (.opened _)
    · rename_i hbracket _ hnone
      refine hcontinue fun _ _ => ?_
      unfold stringIntroducer at hnone
      unfold introducers
      grind
  · rename_i hlen
    exact hcontinue fun h1 h2 => absurd ⟨h1, by simp [h2]⟩ hlen

theorem processCsi_took (hs : m.policy.state = .csi s) :
    Took em m b ((m.setState .ground).processCsi em b s) := by
  unfold Machine.processCsi
  split
  · rename_i hi
    exact interruptSequence_took hidle hi fun hb => hs ▸ .notedCsi hb
  rename_i hi
  have hb := interruptSequence_none hi
  split
  · exact .csi hs ‹_›
  · rename_i hfinal
    refine .moves hidle (.refl _) (hs ▸ .collects ?_)
    unfold isCsiFinal at hfinal
    grind

end Idle

variable (em) in
theorem processString_cases (m : Machine R) (b : UInt8) (s : ControlString) :
    m.processString em b s = (.ok (), m) ∨
    (∃ sawEscape finish, Terminator finish ∧
      m.processString em b s = m.dispatchString em { s with sawEscape } finish) ∨
    ∃ t, Continues 1 s t ∧ m.processString em b s = (.ok (), m.setState (.string t)) := by
  unfold Machine.processString
  split
  · exact .inl rfl
  split
  · refine .inr (.inl ⟨s.sawEscape, _, ?_, rfl⟩)
    split
    · exact .inl rfl
    · exact .inr rfl
  split
  · exact .inr (.inl ⟨false, _, .inr rfl, rfl⟩)
  dsimp only
  -- a pending ESC becomes payload before the byte does
  have hpending : ∃ t, Continues 0 s t ∧ t.sawEscape = false ∧
      (if s.sawEscape then { s.push 0x1b with sawEscape := false } else s) = t := by
    split
    · rename_i hsaw
      have hpush := Continues.push s 0x1b
      have hl := hpush.length
      refine ⟨{ s.push 0x1b with sawEscape := false },
        ⟨fun hs => ⟨(hpush.ok hs).clipboard, (hpush.ok hs).bounded⟩, hpush.clipboard, ?_⟩, rfl, rfl⟩
      rw [(s.push_cases 0x1b).2.1, hsaw] at hl
      simp only [hsaw, Bool.toNat_true, Bool.toNat_false] at hl ⊢
      omega
    · rename_i hsaw
      exact ⟨s, ⟨id, id, Nat.le_refl _⟩, by simpa using hsaw, rfl⟩
  obtain ⟨t, hcont, hsaw, ht⟩ := hpending
  rw [ht]
  split
  · refine .inr (.inr ⟨{ t with sawEscape := true },
      ⟨fun hs => ⟨(hcont.ok hs).clipboard, (hcont.ok hs).bounded⟩, hcont.clipboard, ?_⟩, rfl⟩)
    have hl := hcont.length
    simp only [hsaw, Bool.toNat_true, Bool.toNat_false] at hl ⊢
    omega
  · exact .inr (.inr ⟨_, hcont.trans (.push t b), rfl⟩)

theorem processGround_took (hm : PolicyInv m.policy) (hg : m.policy.state = .ground) (b : UInt8) :
    Took em m b (m.processByte em b) := by
  have haccounts := groundTokens_accounts hm.pending b
  have hquiet : Quiet em Plain (m.setPending (groundTokens m.policy.utf8 b).2) _ :=
    .hands haccounts.handed
  have hpassed : Passed em m _ := ⟨hquiet.engine, hquiet.state.trans hg,
    by rw [hquiet.utf8]; exact haccounts.pending, fun h => hquiet.marks ⟨h.boundary, h.preceding⟩,
    hquiet.replies⟩
  rw [Machine.processByte_ground em m hg]
  by_cases hi : introduces m.policy.utf8 b = true
  · have hempty : (groundTokens m.policy.utf8 b).2 = [] := by
      unfold groundTokens
      rw [if_pos hi]
    refine .enters hpassed (hquiet.utf8.trans hempty) ?_
    unfold groundState
    split
    · exact .escape
    · rename_i hesc
      simp only [introduces, beq_false_of_ne hesc, Bool.false_or, Option.isSome_iff_exists] at hi
      obtain ⟨next, hnext⟩ := hi
      rw [hnext]
      unfold c1State at hnext
      split at hnext
      · exact .introducer hnext
      · cases hnext
  · rw [groundState_text (by simpa using hi), Machine.setState_self hpassed.state]
    exact .stays hpassed fun hne => absurd hg hne

theorem processByte_took (hm : PolicyInv m.policy) (b : UInt8) :
    Took em m b (m.processByte em b) := by
  have hok := hm.state
  cases hs : m.policy.state with
  | ground => exact processGround_took hm hs b
  | escape s =>
    rw [hs] at hok
    simpa only [Machine.processByte, hs] using processEscape_took (hm.idle (by simp [hs])) hs hok
  | csi s =>
    simpa only [Machine.processByte, hs] using processCsi_took (hm.idle (by simp [hs])) hs
  | string s =>
    have hidle := hm.idle (by simp [hs])
    have hbyte : m.processByte em b = (m.setState .ground).processString em b s := by
      simp only [Machine.processByte, hs]
    rw [hbyte]
    rcases processString_cases em (m.setState .ground) b s with
      h | ⟨sawEscape, finish, hf, h⟩ | ⟨t, ht, h⟩ <;> rw [h]
    · exact .back hidle (.refl _)
    · exact .string hs sawEscape hf
    · exact .moves hidle (.refl _) (hs ▸ .payload ht)

/-! ### The invariant -/

variable (em) in
/-- A step of the filter: admitted engine steps, and the invariant again. -/
structure Admitted (m m' : Machine R) : Prop where
  engine : EngineSteps em m.engine m'.engine
  policy : PolicyInv m'.policy
  collected : CollectedOk m.policy.state → CollectedOk m'.policy.state

theorem Admitted.framed (h : Admitted em m m') (hm : Framed m.policy) : Framed m'.policy :=
  ⟨h.policy, h.collected hm.collected⟩

theorem Kept.admitted (h : Kept em Contained m m') (hm : PolicyInv m.policy) : Admitted em m m' :=
  ⟨h.engine, ⟨by rw [h.state]; exact hm.state, by rw [h.utf8]; exact hm.pending,
    by rw [h.state, h.utf8]; exact hm.idle, h.marks hm.marks⟩, by rw [h.state]; exact id⟩

theorem PolicyInv.ground (hm : PolicyInv m.policy) : PolicyInv (m.setState .ground).policy :=
  ⟨trivial, hm.pending, fun h => absurd rfl h, hm.marks.boundary, hm.marks.preceding⟩

theorem Admitted.of_ground (h : Admitted em (m.setState .ground) m') : Admitted em m m' :=
  ⟨h.engine, h.policy, fun _ => h.collected trivial⟩

/-- One byte, from any state the filter can be in, with or without a failed reply. -/
theorem processByte_admitted (hm : PolicyInv m.policy) (b : UInt8) :
    Admitted em m (m.processByte em b).2 := by
  have hplain : ∀ bytes, Plain bytes → Contained bytes := fun _ h => h.contained
  have htook : Took em m b (m.processByte em b) := processByte_took hm b
  generalize m.processByte em b = s at htook
  cases htook with
  | stays h =>
    exact ⟨h.engine.mono hplain, ⟨by rw [h.state]; trivial, h.pending,
      fun hne => absurd h.state hne, h.marks hm.marks⟩, fun _ => by rw [h.state]; trivial⟩
  | enters h hempty hs =>
    have hmarks := h.marks hm.marks
    exact ⟨h.engine.mono hplain, ⟨hs.ok hm.state, h.pending, fun _ => hempty, hmarks.boundary,
      hmarks.preceding⟩, fun hc => (hs.collected hc).1⟩
  | reset =>
    exact ⟨.single (.reset _ contained_reset), ⟨trivial, hm.pending, fun hne => absurd rfl hne,
      trivial, nofun⟩, fun _ => trivial⟩
  | csi hs hb =>
    have hok := hm.state
    rw [hs] at hok
    exact .of_ground ((dispatchCsi_replied covers_contained hm.ground.marks hok
      (CsiOk.contained hok hb)).kept.admitted hm.ground)
  | string => exact .of_ground ((Aside.dispatchString _ _).kept.admitted hm.ground)

theorem Admitted.collectEvents (h : Admitted em m m') : Admitted em m m'.collectEvents := by
  have hevents : Admitted em m' m'.collectEvents := Mute.collectEvents.kept.admitted h.policy
  exact ⟨h.engine.trans hevents.engine, hevents.policy, hevents.collected ∘ h.collected⟩

/-- Bytes up to a boundary, in chunks of any size. -/
theorem processUntilBoundary_admitted (bytes : List UInt8) (hm : PolicyInv m.policy) :
    Admitted em m (Machine.processUntilBoundary em bytes m).2 := by
  induction bytes generalizing m with
  | nil => exact ⟨.refl, hm, id⟩
  | cons b bytes ih =>
    have hb : Admitted em m (m.processByte em b).2 := processByte_admitted hm b
    unfold Machine.processUntilBoundary
    split <;> rename_i heq
    · rw [heq] at hb; exact hb
    · rw [heq] at hb
      have hcollect := hb.collectEvents
      dsimp only
      split
      · exact hcollect
      · have hrest := ih hcollect.policy
        exact ⟨hcollect.engine.trans hrest.engine, hrest.policy, hrest.collected ∘ hcollect.collected⟩

end Voytty.Terminal
