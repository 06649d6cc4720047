import Voytty.Lib.Text
import Voytty.Core.Domain

/-!
# Terminal colour observations

The 262 colour slots of `core/src/terminal/colors.rs`: 256 indexed colours,
default foreground and background, and four roles that may be dynamic. A
snapshot carries the revision at which its colours last changed.

`Vendor` collects the library functions the terminal crates call: floating
point syntax, the colour-name table, character widths, URL canonicalisation
and base64.
-/

namespace Voytty.Terminal

open Voytty.Lib

/-- Library functions outside the modelled crates. -/
structure Vendor where
  /-- `alpha.parse::<f64>().ok()? == 1.0`. -/
  alphaIsOne : List Char → Option Bool
  /-- One `rgbi:` channel: a finite `f64` clamped to `0..1` and scaled to a byte. -/
  intensity : List Char → Option UInt8
  /-- `color_names::lookup` on a lower-case name. -/
  colorName : List Char → Option (UInt8 × UInt8 × UInt8)
  /-- `UnicodeWidthChar::width`. -/
  charWidth : Char → Option Nat
  /-- `Url::parse` of an absolute web target with a host, printed canonically. -/
  webUrl : List Char → Option (List Char)
  base64Decode : List UInt8 → Option (List UInt8)
  /-- Unpadded base64. -/
  base64Encode : List UInt8 → List UInt8

abbrev terminalColorSlots : Nat := 262

/-- First slot that may be dynamic. -/
abbrev colorCursor : Nat := 258

abbrev Slot := Fin terminalColorSlots

instance : NeZero terminalColorSlots := ⟨by decide⟩

inductive TerminalColorValue where
  | unknown
  | rgb (r g b : UInt8)
  | dynamic
  deriving DecidableEq, Repr

inductive TerminalAppearance where
  | unknown
  | dark
  | light
  deriving DecidableEq, Repr

structure TerminalColorProfile where
  values : Slot → TerminalColorValue
  appearance : TerminalAppearance
  deriving DecidableEq

def TerminalColorProfile.default : TerminalColorProfile := ⟨fun _ => .unknown, .unknown⟩

/-- Slots before the cursor have no dynamic rendering. -/
def TerminalColorProfile.isValid (p : TerminalColorProfile) : Bool :=
  decide (∀ slot : Slot, slot.val < colorCursor → p.values slot ≠ .dynamic)

structure TerminalColorSnapshot where
  profile : TerminalColorProfile
  changedAt : Nat
  reverse : Bool
  customCursor : Bool
  inheritedSources : Slot → Nat
  deriving DecidableEq

def TerminalColorSnapshot.default : TerminalColorSnapshot :=
  ⟨.default, 0, false, false, fun slot => slot.val⟩

def TerminalColorSnapshot.isValidAt (s : TerminalColorSnapshot) (revision : Nat) : Bool :=
  s.profile.isValid && decide (s.changedAt ≤ revision) &&
    decide (∀ slot, s.inheritedSources slot < terminalColorSlots)

theorem TerminalColorProfile.isValid_iff {p : TerminalColorProfile} :
    p.isValid = true ↔ ∀ slot : Slot, slot.val < colorCursor → p.values slot ≠ .dynamic := by
  simp [isValid]

theorem TerminalColorSnapshot.isValidAt_iff {s : TerminalColorSnapshot} {r : Nat} :
    s.isValidAt r = true ↔ s.profile.isValid = true ∧ s.changedAt ≤ r ∧
      ∀ slot, s.inheritedSources slot < terminalColorSlots := by
  simp [isValidAt, and_assoc]

/-! ## Numeric colours -/

/-- A value without its `@alpha` suffix; any alpha but one is refused. -/
def stripAlpha (v : Vendor) (value : List Char) : Option (List Char) :=
  match splitOnce '@' value with
  | none => some value
  | some (before, alpha) =>
    match v.alphaIsOne alpha with
    | some true => some before
    | _ => none

/-- One `rgb:` channel of one to four hexadecimal digits, scaled to a byte. -/
def rgbChannel (p : List Char) : Option UInt8 :=
  if p.isEmpty || byteLen p > 4 then none else
  match parseUnsigned 16 (2 ^ 32) p with
  | none => none
  | some n =>
    let scaled := n * 255 / (2 ^ (byteLen p * 4) - 1)
    if scaled < 256 then some (UInt8.ofNat scaled) else none

/-- One channel of the `#` forms: the high byte of `width` hexadecimal digits. -/
def hashChannel (width : Nat) (p : List Char) : Option UInt8 :=
  match parseUnsigned 16 (2 ^ 32) p with
  | none => none
  | some n =>
    let high := n * 2 ^ (16 - width * 4) / 256
    if high < 256 then some (UInt8.ofNat high) else none

def rgbiChannel (v : Vendor) (p : List Char) : Option UInt8 :=
  if p.isEmpty || !p.all (fun c => c.isDigit || c ∈ "+-.eE".toList) then none
  else v.intensity p

def threeChannels (channel : List Char → Option UInt8) (s : List Char) :
    Option TerminalColorValue :=
  match s.splitOn '/' with
  | [r, g, b] =>
    match channel r, channel g, channel b with
    | some r, some g, some b => some (.rgb r g b)
    | _, _, _ => none
  | _ => none

def parseTerminalRgb (v : Vendor) (value : List Char) : Option TerminalColorValue :=
  match stripAlpha v value with
  | none => none
  | some value =>
    match stripPre "rgb:".toList value with
    | some s => threeChannels rgbChannel s
    | none =>
      match stripPre ['#'] value with
      | some s =>
        if byteLen s ∈ [3, 6, 9, 12] ∧ s.all (fun c => c.toNat < 0x80) then
          let width := s.length / 3
          match hashChannel width (s.take width),
              hashChannel width ((s.drop width).take width),
              hashChannel width ((s.drop (2 * width)).take width) with
          | some r, some g, some b => some (.rgb r g b)
          | _, _, _ => none
        else none
      | none =>
        match stripPre "rgbi:".toList value with
        | some s => threeChannels (rgbiChannel v) s
        | none => none

theorem threeChannels_rgb {channel : List Char → Option UInt8} {s : List Char}
    {c : TerminalColorValue} (h : threeChannels channel s = some c) : ∃ r g b, c = .rgb r g b := by
  unfold threeChannels at h
  split at h
  · split at h
    · rename_i r g b _ _ _
      exact ⟨r, g, b, (Option.some.inj h).symm⟩
    · cases h
  · cases h

theorem parseTerminalRgb_rgb {v : Vendor} {value : List Char} {c : TerminalColorValue}
    (h : parseTerminalRgb v value = some c) : ∃ r g b, c = .rgb r g b := by
  unfold parseTerminalRgb at h
  split at h
  · cases h
  split at h
  · exact threeChannels_rgb h
  split at h
  · split at h
    · dsimp only at h
      split at h
      · rename_i r g b _ _ _
        exact ⟨r, g, b, (Option.some.inj h).symm⟩
      · cases h
    · cases h
  split at h
  · exact threeChannels_rgb h
  · cases h

end Voytty.Terminal
