import Voytty.Lib.Transition
import Voytty.Terminal.Surface

/-!
# The session's colour state

`terminal/src/colors.rs`: application overrides over a controller's base
profile, the ten-slot colour stack, and the snapshot published at the last
committed change. Override and source tables are total functions; an absent
vector entry and `none` are the same to every reader.

Every edit other than `commit` and a new base is one of the `ColorEdit`s, so
what edits preserve is proved once (`ColorEdits`).
-/

namespace Voytty.Terminal

open Voytty.Lib Relation

structure VoyttyColorState where
  base : TerminalColorProfile
  overrides : Slot → Option TerminalColorValue
  snapshot : TerminalColorSnapshot
  subscribed : Bool
  reverse : Bool
  saved : Fin 10 → Option TerminalColorSnapshot
  inheritedSources : Slot → Option Nat
  depth : Nat
  stored : Nat

namespace VoyttyColorState

def default : VoyttyColorState where
  base := .default
  overrides := fun _ => none
  snapshot := .default
  subscribed := false
  reverse := false
  saved := fun _ => none
  inheritedSources := fun _ => none
  depth := 0
  stored := 0

def reset (s : VoyttyColorState) : VoyttyColorState :=
  { s with
    overrides := fun _ => none
    inheritedSources := fun _ => none
    subscribed := false
    reverse := false
    saved := fun _ => none
    depth := 0
    stored := 0 }

def source (s : VoyttyColorState) (slot : Slot) : Slot :=
  if !s.reverse then slot
  else match slot.val with
    | 0 => 7
    | 7 => 0
    | 8 => 15
    | 15 => 8
    | 256 => 257
    | 257 => 256
    | _ => slot

def value (s : VoyttyColorState) (slot : Slot) : TerminalColorValue :=
  (s.overrides (s.source slot)).getD (s.base.values (s.source slot))

def set (s : VoyttyColorState) (slot : Slot) (value : Option TerminalColorValue) :
    VoyttyColorState :=
  { s with
    overrides := Function.update s.overrides (s.source slot) value
    inheritedSources := Function.update s.inheritedSources (s.source slot) none }

def effective (s : VoyttyColorState) : TerminalColorProfile :=
  ⟨fun slot => s.value slot, s.base.appearance⟩

def effectiveSnapshot (s : VoyttyColorState) : TerminalColorSnapshot where
  profile := s.effective
  reverse := s.reverse
  customCursor := (s.overrides 258).isSome || (s.overrides 259).isSome
  changedAt := s.snapshot.changedAt
  inheritedSources := fun slot => (s.inheritedSources (s.source slot)).getD (s.source slot).val

def commit (s : VoyttyColorState) (revision : Nat) : VoyttyColorState :=
  let next := s.effectiveSnapshot
  if next ≠ s.snapshot then { s with snapshot := { next with changedAt := revision } } else s

def appearanceReply (s : VoyttyColorState) : List Char :=
  match s.base.appearance with
  | .dark => "\x1b[?997;1n".toList
  | .light => "\x1b[?997;2n".toList
  | .unknown => []

def restoreSlot (saved : TerminalColorSnapshot) (s : VoyttyColorState) (slot : Slot) :
    VoyttyColorState :=
  let value := saved.profile.values slot
  let s := s.set slot (some value)
  if value = .unknown then
    { s with inheritedSources :=
        Function.update s.inheritedSources (s.source slot) (some (saved.inheritedSources slot)) }
  else s

def restore (s : VoyttyColorState) (saved : TerminalColorSnapshot) : VoyttyColorState :=
  (List.finRange terminalColorSlots).foldl (restoreSlot saved) s

/-- The stack position of an operation; index zero means the top. -/
def stackSlot (s : VoyttyColorState) (store : Bool) (index : Nat) : Option Nat :=
  if index = 0 then
    if store then some s.depth else if s.depth = 0 then none else some (s.depth - 1)
  else some (index - 1)

def stack (s : VoyttyColorState) (store : Bool) (index : Nat) : VoyttyColorState :=
  match s.stackSlot store index with
  | none => s
  | some slot =>
    if h : slot < 10 then
      if store then
        { s with
          saved := Function.update s.saved ⟨slot, h⟩ (some s.effectiveSnapshot)
          stored := max s.stored (slot + 1)
          depth := if index = 0 then s.depth + 1 else s.depth }
      else
        match s.saved ⟨slot, h⟩ with
        | none => s
        | some saved =>
          let s := s.restore saved
          { s with depth := if index = 0 then s.depth - 1 else s.depth }
    else s

def stackReport (s : VoyttyColorState) : List Char :=
  "\x1b[?".toList ++ decimal s.depth ++ [';'] ++ decimal s.stored ++ "#Q".toList

end VoyttyColorState

/-! ## Colour commands -/

def dynamicSlot (code : Nat) : Option Slot :=
  match code with
  | 10 => some 256
  | 11 => some 257
  | 12 => some 258
  | 17 => some 261
  | 19 => some 260
  | _ => none

def indexedSlot (text : List Char) : Option Slot :=
  match parseUnsigned 10 (2 ^ 64) text with
  | none => none
  | some n => if h : n < 256 then some ⟨n, h.trans (by decide)⟩ else none

def keySlot (key : List Char) : Option Slot :=
  if key = "foreground".toList then some 256
  else if key = "background".toList then some 257
  else if key = "cursor".toList then some 258
  else if key = "cursor_text".toList then some 259
  else if key = "selection_foreground".toList then some 260
  else if key = "selection_background".toList then some 261
  else indexedSlot key

def encoded : TerminalColorValue → Option (List Char)
  | .rgb r g b => some ("rgb:".toList ++ hexPad false 4 (r.toNat * 257) ++ ['/'] ++
      hexPad false 4 (g.toNat * 257) ++ ['/'] ++ hexPad false 4 (b.toNat * 257))
  | _ => none

def parseColor (v : Vendor) (value : List Char) : Option TerminalColorValue :=
  match stripAlpha v value with
  | none => none
  | some value =>
    match parseTerminalRgb v value with
    | some c => some c
    | none => (v.colorName (value.map Char.toLower)).map fun (r, g, b) => .rgb r g b

/-- An OSC command's accumulator: the reply so far and the colours. -/
structure OscState where
  reply : List Char
  colors : VoyttyColorState

/-- Answers a query for `slot` or sets it from `value`. -/
def queryOrSet (v : Vendor) (heading finish : List Char) (slot : Slot) (value : List Char)
    (o : OscState) : OscState :=
  if value = ['?'] then
    match encoded (o.colors.value slot) with
    | some rgb => { o with reply := o.reply ++ heading ++ rgb ++ finish }
    | none => o
  else
    match parseColor v value with
    | some rgb => { o with colors := o.colors.set slot (some rgb) }
    | none => o

def oscIndexed (v : Vendor) (finish : List Char) : List (List Char) → OscState → OscState
  | index :: value :: fields, o =>
    oscIndexed v finish fields <|
      match indexedSlot index with
      | some slot =>
        queryOrSet v ("\x1b]4;".toList ++ decimal slot.val ++ [';']) finish slot value o
      | none => o
  | _, o => o

def oscDynamic (v : Vendor) (finish : List Char) : Nat → List (List Char) → OscState → OscState
  | _, [], o => o
  | code, value :: fields, o =>
    oscDynamic v finish (code + 1) fields <|
      match dynamicSlot code with
      | some slot =>
        queryOrSet v ("\x1b]".toList ++ decimal code ++ [';']) finish slot value o
      | none => o

def indexedSlots : List Slot := (List.finRange terminalColorSlots).filter (·.val < 256)

def resetSlots (slots : List Slot) (s : VoyttyColorState) : VoyttyColorState :=
  slots.foldl (fun s slot => s.set slot none) s

/-- The key and optional value of one `key=value` item. -/
def keyValue (item : List Char) : List Char × Option (List Char) :=
  match splitOnce '=' item with
  | some (k, v) => (k, some v)
  | none => (item, none)

def oscKeyItem (v : Vendor) (a : List (List Char) × VoyttyColorState) (item : List Char) :
    List (List Char) × VoyttyColorState :=
  let (key, value) := keyValue item
  let (answers, s) := a
  if key.isEmpty then (answers, s) else
  match value, keySlot key with
  | some ['?'], some slot => (answers ++ [key ++ ['='] ++ (encoded (s.value slot)).getD []], s)
  | some ['?'], none =>
    (answers ++ ["unknown=".toList ++
      (v.base64Encode (encode key)).map fun b => Char.ofNat b.toNat], s)
  | _, none => (answers, s)
  | none, some slot => (answers, s.set slot none)
  | some value, some slot =>
    if value = [] ∧ colorCursor ≤ slot.val then (answers, s.set slot (some .dynamic))
    else
      match parseColor v value with
      | some rgb => (answers, s.set slot (some rgb))
      | none => (answers, s)

/-- A colour command: its reply and the colours after it, `none` for another command. -/
def VoyttyColorState.osc (v : Vendor) (s : VoyttyColorState) (command : Nat)
    (payload finish : List Char) : Option OscState :=
  if command = 4 then some (oscIndexed v finish (payload.splitOn ';') ⟨[], s⟩)
  else if 10 ≤ command ∧ command ≤ 19 then
    some (oscDynamic v finish command (payload.splitOn ';') ⟨[], s⟩)
  else if command = 104 then
    let slots := if payload.isEmpty then indexedSlots
      else (payload.splitOn ';').filterMap indexedSlot
    some ⟨[], resetSlots slots s⟩
  else if 110 ≤ command ∧ command ≤ 119 then
    match dynamicSlot (command - 100) with
    | some slot => some ⟨[], s.set slot none⟩
    | none => some ⟨[], s⟩
  else if command = 21 then
    let (answers, s) := (payload.splitOn ';').foldl (oscKeyItem v) ([], s)
    if answers.isEmpty then some ⟨[], s⟩
    else some ⟨"\x1b]21;".toList ++ [';'].intercalate answers ++ finish, s⟩
  else if (command = 30001 ∨ command = 30101) ∧ payload.isEmpty then
    some ⟨[], s.stack (command = 30001) 0⟩
  else none

/-! ## Rendition and capability replies -/

def sgr (style : TerminalStyle) : List Char :=
  let flag (active : Bool) (code : Nat) := if active then ';' :: decimal code else []
  let underline := match style.underline with
    | .none => []
    | .single => ";4:1".toList
    | .double => ";4:2".toList
    | .curly => ";4:3".toList
    | .dotted => ";4:4".toList
    | .dashed => ";4:5".toList
  let color (c : TerminalColor) (code : Nat) := match c with
    | .default => []
    | .indexed n => ';' :: decimal code ++ ";5;".toList ++ decimal n.toNat
    | .rgb r g b => ';' :: decimal code ++ ";2;".toList ++ decimal r.toNat ++ [';'] ++
        decimal g.toNat ++ [';'] ++ decimal b.toNat
  ['0'] ++ flag style.bold 1 ++ flag style.dim 2 ++ flag style.italic 3 ++
    flag style.inverse 7 ++ flag style.conceal 8 ++ flag style.strike 9 ++ underline ++
    color style.foreground 38 ++ color style.background 48 ++ color style.underlineColor 58 ++
    ['m']

def hex (s : List Char) : List Char := (encode s).flatMap fun b => hexPad true 2 b.toNat

/-- Pairs of hexadecimal digits as bytes. -/
def hexBytes : List Char → Option (List UInt8)
  | [] => some []
  | [_] => none
  | a :: b :: rest =>
    match parseUnsigned 16 256 [a, b], hexBytes rest with
    | some n, some bytes => some (UInt8.ofNat n :: bytes)
    | _, _ => none

def decodeHex (s : List Char) : Option (List Char) :=
  if byteLen s % 2 ≠ 0 ∨ !s.all (fun c => c.toNat < 0x80) then none
  else (hexBytes s).bind decode

def capabilityValue (name : List Char) : Option (List Char) :=
  if name = "Co".toList ∨ name = "colors".toList then some "256".toList
  else if name = "RGB".toList then some "8".toList
  else if name = "TN".toList ∨ name = "name".toList then some "xterm-256color".toList
  else if name = "Tc".toList ∨ name = "Su".toList then some []
  else if name = "Smulx".toList then some "\x1b[4:%p1%dm".toList
  else if name = "Setulc".toList then
    some ("\x1b[58:2::%p1%\x7b65536\x7d%/%d:%p1%\x7b256\x7d%/%\x7b255\x7d%&%d:" ++
      "%p1%\x7b255\x7d%&%dm").toList
  else none

/-- Capability replies up to and including the first unsupported name. -/
def capabilityReplies : List (List Char) → List Char
  | [] => []
  | field :: fields =>
    match (decodeHex field).bind fun name => (capabilityValue name).map fun value => (name, value)
    with
    | none => "\x1bP0+r\x1b\\".toList
    | some (name, value) =>
      "\x1bP1+r".toList ++ hex name ++ (if value.isEmpty then [] else '=' :: hex value) ++
        "\x1b\\".toList ++ capabilityReplies fields

def capabilities (payload : List Char) : List Char := capabilityReplies (payload.splitOn ';')

/-! ## What edits preserve -/

/-- The edits a byte stream can make to the colours between commits. -/
inductive ColorEdit : VoyttyColorState → VoyttyColorState → Prop where
  | set (s : VoyttyColorState) (slot : Slot) (value : Option TerminalColorValue)
      (h : slot.val < colorCursor → value ≠ some .dynamic) : ColorEdit s (s.set slot value)
  | stack (s : VoyttyColorState) (store : Bool) (index : Nat) : ColorEdit s (s.stack store index)
  | reverse (s : VoyttyColorState) (b : Bool) : ColorEdit s { s with reverse := b }
  | subscribed (s : VoyttyColorState) (b : Bool) : ColorEdit s { s with subscribed := b }
  | reset (s : VoyttyColorState) : ColorEdit s s.reset

abbrev ColorEdits := ReflTransGen ColorEdit

inductive ColorSet : VoyttyColorState → VoyttyColorState → Prop where
  | set (s : VoyttyColorState) (slot : Slot) (value : Option TerminalColorValue)
      (h : slot.val < colorCursor → value ≠ some .dynamic) : ColorSet s (s.set slot value)

abbrev ColorSets := ReflTransGen ColorSet

variable {s s' : VoyttyColorState} {v : Vendor}

theorem ColorSet.edit (h : ColorSet s s') : ColorEdit s s' := by
  cases h with
  | set slot value hv => exact .set s slot value hv

theorem ColorSets.edits (h : ColorSets s s') : ColorEdits s s' := by
  induction h with
  | refl => exact .refl
  | tail _ hlast ih => exact ih.tail hlast.edit

theorem parseColor_ne_dynamic {value : List Char} {c : TerminalColorValue}
    (h : parseColor v value = some c) : c ≠ .dynamic := by
  unfold parseColor at h
  split at h
  · cases h
  split at h
  · rename_i hp
    cases h
    obtain ⟨r, g, b, rfl⟩ := parseTerminalRgb_rgb hp
    simp
  · obtain ⟨⟨r, g, b⟩, -, rfl⟩ := Option.map_eq_some_iff.mp h
    simp

theorem queryOrSet_sets (v : Vendor) (heading finish : List Char) (slot : Slot)
    (value : List Char) (o : OscState) :
    ColorSets o.colors (queryOrSet v heading finish slot value o).colors := by
  unfold queryOrSet
  split
  · split <;> exact .refl
  · split
    · rename_i rgb hp
      exact .single (.set _ _ _ fun _ h => parseColor_ne_dynamic hp (Option.some.inj h))
    · exact .refl

theorem oscIndexed_sets (v : Vendor) (finish : List Char) (fields : List (List Char))
    (o : OscState) : ColorSets o.colors (oscIndexed v finish fields o).colors := by
  fun_induction oscIndexed v finish fields o with
  | case1 index value fields o ih =>
    refine ReflTransGen.trans ?_ ih
    split
    · exact queryOrSet_sets ..
    · exact .refl
  | case2 => exact .refl

theorem oscDynamic_sets (v : Vendor) (finish : List Char) (code : Nat)
    (fields : List (List Char)) (o : OscState) :
    ColorSets o.colors (oscDynamic v finish code fields o).colors := by
  fun_induction oscDynamic v finish code fields o with
  | case1 => exact .refl
  | case2 code value fields o ih =>
    refine ReflTransGen.trans ?_ ih
    split
    · exact queryOrSet_sets ..
    · exact .refl

theorem resetSlots_sets (slots : List Slot) (s : VoyttyColorState) :
    ColorSets s (resetSlots slots s) :=
  run_foldl id (fun s slot => .single (.set s slot none (by simp))) slots s

theorem oscKeyItem_sets (v : Vendor) (a : List (List Char) × VoyttyColorState)
    (item : List Char) : ColorSets a.2 (oscKeyItem v a item).2 := by
  obtain ⟨answers, s⟩ := a
  simp only [oscKeyItem]
  split
  · exact .refl
  split
  · exact .refl
  · exact .refl
  · exact .refl
  · exact .single (.set _ _ _ (by simp))
  · split
    · rename_i h
      exact .single (.set _ _ _ (by omega))
    · split
      · rename_i hp
        exact .single (.set _ _ _ fun _ h => parseColor_ne_dynamic hp (Option.some.inj h))
      · exact .refl

/-- Every colour command but the two of the stack only sets and resets. -/
theorem osc_sets {command : Nat} {payload finish : List Char} {o : OscState}
    (h : s.osc v command payload finish = some o) (hcommand : command ≠ 30001 ∧ command ≠ 30101) :
    ColorSets s o.colors := by
  unfold VoyttyColorState.osc at h
  split at h
  · obtain rfl := Option.some.inj h; exact oscIndexed_sets v finish _ ⟨[], s⟩
  split at h
  · obtain rfl := Option.some.inj h; exact oscDynamic_sets v finish command _ ⟨[], s⟩
  split at h
  · obtain rfl := Option.some.inj h
    dsimp only
    exact resetSlots_sets _ s
  split at h
  · split at h <;> obtain rfl := Option.some.inj h
    · exact .single (.set s _ none (by simp))
    · exact .refl
  split at h
  · have hfold := run_foldl Prod.snd (oscKeyItem_sets v) (payload.splitOn ';') ([], s)
    dsimp only at h
    split at h <;> obtain rfl := Option.some.inj h <;> exact hfold
  split at h
  · rename_i hstack
    exact absurd hstack.1 (by simp [hcommand])
  · cases h

theorem osc_edits {command : Nat} {payload finish : List Char} {o : OscState}
    (h : s.osc v command payload finish = some o) :
    ColorEdits s o.colors := by
  by_cases hcommand : command ≠ 30001 ∧ command ≠ 30101
  · exact (osc_sets h hcommand).edits
  · -- a stack command, or one that is refused for its payload
    have hstack : command = 30001 ∨ command = 30101 := by omega
    have hother : ¬command = 4 ∧ ¬(10 ≤ command ∧ command ≤ 19) ∧ ¬command = 104 ∧
        ¬(110 ≤ command ∧ command ≤ 119) ∧ ¬command = 21 := by omega
    unfold VoyttyColorState.osc at h
    rw [if_neg hother.1, if_neg hother.2.1, if_neg hother.2.2.1, if_neg hother.2.2.2.1,
      if_neg hother.2.2.2.2] at h
    split at h
    · obtain rfl := Option.some.inj h
      exact .single (.stack s _ 0)
    · cases h

/-- Roles and sources within range, whatever the stamp. -/
structure TerminalColorSnapshot.Shaped (s : TerminalColorSnapshot) : Prop where
  profile : s.profile.isValid = true
  sources : ∀ slot, s.inheritedSources slot < terminalColorSlots

/-- No table of the colour state holds a dynamic value before the cursor slot or a source out of
range. -/
structure VoyttyColorState.Valid (s : VoyttyColorState) : Prop where
  base : s.base.isValid = true
  overrides : ∀ slot : Slot, slot.val < colorCursor → s.overrides slot ≠ some .dynamic
  saved : ∀ i snap, s.saved i = some snap → snap.Shaped
  sources : ∀ slot n, s.inheritedSources slot = some n → n < terminalColorSlots
  snapshot : s.snapshot.Shaped

namespace VoyttyColorState

theorem source_val_lt (s : VoyttyColorState) (slot : Slot) :
    (s.source slot).val < colorCursor ↔ slot.val < colorCursor := by
  unfold source
  split
  · exact Iff.rfl
  · split <;> first | exact Iff.rfl | (rename_i h; rw [h]; decide)

theorem default_valid : default.Valid where
  base := by simp [default, TerminalColorProfile.isValid_iff, TerminalColorProfile.default]
  overrides := by simp [default]
  saved := by simp [default]
  sources := by simp [default]
  snapshot := ⟨by simp [default, TerminalColorProfile.isValid_iff,
    TerminalColorSnapshot.default, TerminalColorProfile.default], fun slot => slot.isLt⟩

variable {s : VoyttyColorState}

theorem effectiveSnapshot_shaped (h : s.Valid) :
    s.effectiveSnapshot.Shaped where
  profile := by
    refine TerminalColorProfile.isValid_iff.mpr fun slot hs => ?_
    have hsrc := (s.source_val_lt slot).mpr hs
    simp only [effectiveSnapshot, effective, value]
    cases ho : s.overrides (s.source slot) with
    | none => exact TerminalColorProfile.isValid_iff.mp h.base _ hsrc
    | some c =>
      rintro rfl
      exact h.overrides _ hsrc ho
  sources := fun slot => by
    simp only [effectiveSnapshot]
    cases hi : s.inheritedSources (s.source slot) with
    | none => exact (s.source slot).isLt
    | some n => exact h.sources _ n hi

theorem set_valid (h : s.Valid) {slot : Slot} {value : Option TerminalColorValue}
    (hv : (s.source slot).val < colorCursor → value ≠ some .dynamic) :
    (s.set slot value).Valid where
  base := h.base
  overrides := fun k hk => by
    by_cases e : k = s.source slot
    · subst e; simpa [set] using hv hk
    · simpa [set, Function.update_of_ne e] using h.overrides k hk
  saved := h.saved
  sources := fun k n hn => by
    by_cases e : k = s.source slot
    · subst e; simp [set] at hn
    · exact h.sources k n (by simpa [set, Function.update_of_ne e] using hn)
  snapshot := h.snapshot

theorem restoreSlot_valid (h : s.Valid) {saved : TerminalColorSnapshot} (hsv : saved.Shaped)
    (slot : Slot) : (restoreSlot saved s slot).Valid := by
  have hset : (s.set slot (some (saved.profile.values slot))).Valid := set_valid h fun hk => by
    simpa using TerminalColorProfile.isValid_iff.mp hsv.profile slot
      ((s.source_val_lt slot).mp hk)
  unfold restoreSlot
  dsimp only
  split
  · refine { hset with sources := fun k n hn => ?_ }
    dsimp only at hn
    by_cases e : k = (s.set slot (some (saved.profile.values slot))).source slot
    · subst e
      simp only [Function.update_self, Option.some.injEq] at hn
      exact hn ▸ hsv.sources slot
    · exact hset.sources k n (by simpa [Function.update_of_ne e] using hn)
  · exact hset

theorem restore_valid (h : s.Valid) {saved : TerminalColorSnapshot} (hsv : saved.Shaped) :
    (s.restore saved).Valid := by
  unfold restore
  generalize List.finRange terminalColorSlots = slots
  induction slots generalizing s with
  | nil => exact h
  | cons slot slots ih => exact ih (restoreSlot_valid h hsv slot)

theorem stack_valid (h : s.Valid) (store : Bool) (index : Nat) :
    (s.stack store index).Valid := by
  unfold stack
  split
  · exact h
  split
  · split
    · refine { h with saved := fun i snap hs => ?_ }
      dsimp only at hs
      by_cases e : i = ⟨_, ‹_›⟩
      · subst e
        rw [Function.update_self] at hs
        exact Option.some.inj hs ▸ effectiveSnapshot_shaped h
      · exact h.saved i snap (by rwa [Function.update_of_ne e] at hs)
    · split
      · exact h
      · rename_i saved hs
        exact { restore_valid h (h.saved _ saved hs) with }
  · exact h

end VoyttyColorState

theorem ColorEdit.valid (e : ColorEdit s s') (h : s.Valid) :
    s'.Valid := by
  cases e with
  | set slot value hv =>
    exact VoyttyColorState.set_valid h fun hk => hv ((s.source_val_lt slot).mp hk)
  | stack store index => exact VoyttyColorState.stack_valid h store index
  | reverse b => exact { h with }
  | subscribed b => exact { h with }
  | reset => exact { h with
      overrides := by simp [VoyttyColorState.reset]
      saved := by simp [VoyttyColorState.reset]
      sources := by simp [VoyttyColorState.reset] }

/-! ## Commits -/

namespace VoyttyColorState

theorem restore_frame (s : VoyttyColorState) (saved : TerminalColorSnapshot) :
    ∃ overrides inheritedSources, s.restore saved = { s with overrides, inheritedSources } := by
  unfold restore
  generalize List.finRange terminalColorSlots = slots
  induction slots generalizing s with
  | nil => exact ⟨_, _, rfl⟩
  | cons slot slots ih =>
    obtain ⟨o, i, h⟩ : ∃ o i, restoreSlot saved s slot =
        { s with overrides := o, inheritedSources := i } := by
      unfold restoreSlot; dsimp only; split <;> exact ⟨_, _, rfl⟩
    rw [List.foldl_cons, h]
    exact ih _

theorem stack_snapshot (s : VoyttyColorState) (store : Bool) (index : Nat) :
    (s.stack store index).snapshot = s.snapshot ∧ (s.stack store index).base = s.base := by
  unfold stack
  split
  · exact ⟨rfl, rfl⟩
  split
  · split
    · exact ⟨rfl, rfl⟩
    · split
      · exact ⟨rfl, rfl⟩
      · rename_i saved _
        obtain ⟨o, i, h⟩ := s.restore_frame saved
        rw [h]
        exact ⟨rfl, rfl⟩
  · exact ⟨rfl, rfl⟩

theorem stack_depth {s : VoyttyColorState} (h : s.depth ≤ 10 ∧ s.stored ≤ 10) (store : Bool)
    (index : Nat) : (s.stack store index).depth ≤ 10 ∧ (s.stack store index).stored ≤ 10 := by
  unfold stack
  split
  · exact h
  rename_i slot hslot
  split
  · rename_i hlt
    split
    · refine ⟨?_, by dsimp only; omega⟩
      dsimp only
      split
      · rename_i hindex
        rw [stackSlot, if_pos hindex, if_pos ‹_›] at hslot
        have := Option.some.inj hslot
        omega
      · exact h.1
    · split
      · exact h
      · rename_i saved _
        obtain ⟨o, i, hr⟩ := s.restore_frame saved
        rw [hr]
        refine ⟨?_, h.2⟩
        dsimp only
        split <;> omega
  · exact h

/-- A commit keeps the snapshot or stamps the effective one with its revision. -/
theorem commit_snapshot (s : VoyttyColorState) (r : Nat) :
    (s.commit r).snapshot = s.snapshot ∨
      (s.commit r).snapshot = { s.effectiveSnapshot with changedAt := r } := by
  unfold commit
  dsimp only
  split
  · exact .inr rfl
  · exact .inl rfl

theorem commit_valid {s : VoyttyColorState} (h : s.Valid) (r : Nat) : (s.commit r).Valid := by
  unfold commit
  dsimp only
  split
  · have := effectiveSnapshot_shaped h
    exact { h with snapshot := ⟨this.profile, this.sources⟩ }
  · exact h

theorem commit_commit (s : VoyttyColorState) (r r' : Nat) :
    (s.commit r).commit r' = s.commit r := by
  have settled : (s.commit r).effectiveSnapshot = (s.commit r).snapshot := by
    unfold commit
    dsimp only
    split
    · rfl
    · rename_i h
      exact not_not.mp h
  rw [commit.eq_def (s.commit r) r']
  simp [settled]

end VoyttyColorState

theorem ColorEdit.snapshot (e : ColorEdit s s') :
    s'.snapshot = s.snapshot ∧ s'.base = s.base := by
  cases e with
  | stack store index => exact s.stack_snapshot store index
  | _ => exact ⟨rfl, rfl⟩

theorem ColorEdit.depth (e : ColorEdit s s') (h : s.depth ≤ 10 ∧ s.stored ≤ 10) :
    s'.depth ≤ 10 ∧ s'.stored ≤ 10 := by
  cases e with
  | stack store index => exact VoyttyColorState.stack_depth h store index
  | reset => exact ⟨Nat.zero_le _, Nat.zero_le _⟩
  | _ => exact h

end Voytty.Terminal
