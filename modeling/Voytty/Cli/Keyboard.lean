import Voytty.Core.Domain
import Voytty.Lib.Text

/-!
# Keys of the user's terminal

Enhanced key reports (`cli/src/terminal_ui/keyboard.rs`): a control sequence
that names a key, its modifiers and whether it was pressed, repeated or
released. A shortcut is a character with exact modifiers, whatever the encoding
of the key. Key codes are those of `client/src/keyboard.rs`.
-/

namespace Voytty.Cli

open Voytty.Lib

inductive KeyEventKind where
  | press
  | repeat
  | release
  deriving DecidableEq, Repr

inductive FunctionalKey where
  | escape | enter | tab | backspace | insert | delete | left | right | up | down
  | pageUp | pageDown | home | endKey | begin | menu
  | function (n : Nat)
  | keypad (n : Nat)
  | keypadDecimal | keypadDivide | keypadMultiply | keypadSubtract | keypadAdd | keypadEnter
  | keypadEqual | keypadSeparator | keypadLeft | keypadRight | keypadUp | keypadDown
  | keypadPageUp | keypadPageDown | keypadHome | keypadEnd | keypadInsert | keypadDelete
  | other (code : Nat)
  deriving DecidableEq, Repr

inductive KeyCode where
  | unicode (code : Nat)
  | functional (key : FunctionalKey)
  deriving DecidableEq, Repr

def modControl : Nat := 4

def withoutLocks (modifiers : Nat) : Nat := modifiers % 64

def keyCodeFromNumber (code : Nat) : KeyCode :=
  match code with
  | 27 => .functional .escape
  | 13 => .functional .enter
  | 9 => .functional .tab
  | 127 => .functional .backspace
  | 57348 => .functional .insert
  | 57349 => .functional .delete
  | 57350 => .functional .left
  | 57351 => .functional .right
  | 57352 => .functional .up
  | 57353 => .functional .down
  | 57354 => .functional .pageUp
  | 57355 => .functional .pageDown
  | 57356 => .functional .home
  | 57357 => .functional .endKey
  | 57363 => .functional .menu
  | 57409 => .functional .keypadDecimal
  | 57410 => .functional .keypadDivide
  | 57411 => .functional .keypadMultiply
  | 57412 => .functional .keypadSubtract
  | 57413 => .functional .keypadAdd
  | 57414 => .functional .keypadEnter
  | 57415 => .functional .keypadEqual
  | 57416 => .functional .keypadSeparator
  | 57417 => .functional .keypadLeft
  | 57418 => .functional .keypadRight
  | 57419 => .functional .keypadUp
  | 57420 => .functional .keypadDown
  | 57421 => .functional .keypadPageUp
  | 57422 => .functional .keypadPageDown
  | 57423 => .functional .keypadHome
  | 57424 => .functional .keypadEnd
  | 57425 => .functional .keypadInsert
  | 57426 => .functional .keypadDelete
  | 57427 => .functional .begin
  | code =>
    if 57358 ≤ code ∧ code ≤ 57362 then .functional (.other code)
    else if 57364 ≤ code ∧ code ≤ 57398 then .functional (.function (code - 57363))
    else if 57399 ≤ code ∧ code ≤ 57408 then .functional (.keypad (code - 57399))
    else if 57428 ≤ code ∧ code ≤ 63743 then .functional (.other code)
    else .unicode code

/-! ## Shortcuts -/

def legacyControl (character : Char) : Option Nat :=
  let byte := character.toNat
  match character with
  | ' ' | '2' | '@' => some 0
  | '3' | '[' => some 27
  | '4' | '\\' => some 28
  | '5' | ']' => some 29
  | '6' | '^' | '~' => some 30
  | '7' | '/' | '_' => some 31
  | '8' | '?' => some 127
  | '0' | '1' | '9' | ';' => some byte
  | _ =>
    if 0x61 ≤ byte ∧ byte ≤ 0x7a then some (byte - 0x61 + 1)
    else if 0x41 ≤ byte ∧ byte ≤ 0x5a then some (byte - 0x41 + 1)
    else none

structure Shortcut where
  character : Char
  modifiers : Nat
  deriving DecidableEq, Repr

def Shortcut.plain (character : Char) : Shortcut := ⟨character, 0⟩

def Shortcut.control (character : Char) : Shortcut := ⟨character, modControl⟩

def Shortcut.matchesLegacy (s : Shortcut) (byte : UInt8) : Bool :=
  if s.modifiers = 0 then s.character.toNat = byte.toNat
  else if s.modifiers = modControl then legacyControl s.character = some byte.toNat
  else false

/-- A key whose release is owned even if its modifiers were released first. -/
abbrev KeyIdentity := KeyCode

def identityFromLegacy (byte : UInt8) : Option KeyIdentity :=
  let n := byte.toNat
  if n = 0x09 ∨ n = 0x0d ∨ n = 0x7f then some (keyCodeFromNumber n)
  else if n = 0x1d then some (.unicode 0x5d)
  else if 1 ≤ n ∧ n ≤ 26 then some (.unicode (0x61 + n - 1))
  else if 0x20 ≤ n ∧ n ≤ 0x7e then
    some (.unicode (if 0x41 ≤ n ∧ n ≤ 0x5a then n + 0x20 else n))
  else none

/-! ## Reports -/

structure EnhancedKey where
  code : KeyCode
  shifted : Option Char
  baseLayout : Option Char
  modifiers : Nat
  kind : KeyEventKind
  text : List Char
  raw : List UInt8
  deriving DecidableEq, Repr

/-- Decimal digits of a value below a bound, and nothing else. -/
def parseDecimal (bound : Nat) (bytes : List UInt8) : Option Nat :=
  if bytes.isEmpty then none
  else parseDigits 10 bound (bytes.map fun byte => Char.ofNat byte.toNat) 0

def parseU32 : List UInt8 → Option Nat := parseDecimal (2 ^ 32)

def charFromU32 (n : Nat) : Option Char := if n.isValidChar then some (Char.ofNat n) else none

/-- An absent or empty field is no character; `none` is a malformed one. -/
def parseOptionalChar (field : Option (List UInt8)) : Option (Option Char) :=
  match field with
  | none | some [] => some none
  | some value => (parseU32 value).bind fun n => (charFromU32 n).map some

def parseModifiers (field : Option (List UInt8)) : Option (Nat × KeyEventKind) :=
  match field with
  | none => some (0, .press)
  | some field => do
    let values := field.splitOn 0x3a
    let encoded ← match values.head? with
      | none => failure
      | some [] => some 1
      | some value => (parseU32 value).filter (· < 2 ^ 16)
    if encoded < 1 ∨ 256 < encoded then failure
    let kind ← match values.tail with
      | [] | [[0x31]] => some .press
      | [[0x32]] => some .repeat
      | [[0x33]] => some .release
      | _ => failure
    return (encoded - 1, kind)

def parseText (field : Option (List UInt8)) : Option (List Char) :=
  match field with
  | none | some [] => some []
  | some field => (field.splitOn 0x3a).mapM fun value => (parseU32 value).bind charFromU32

def parseFunctionParameters (parameters : List UInt8) : Option (Nat × Nat × KeyEventKind) :=
  match parameters.splitOn 0x3b with
  | [key] => do
    let key ← parseU32 key
    let (modifiers, kind) ← parseModifiers none
    return (key, modifiers, kind)
  | [key, modifiers] => do
    let key ← parseU32 key
    let (modifiers, kind) ← parseModifiers (some modifiers)
    return (key, modifiers, kind)
  | _ => none

namespace EnhancedKey

def functional (raw : List UInt8) (code : FunctionalKey) (modifiers : Nat) (kind : KeyEventKind) :
    EnhancedKey :=
  ⟨.functional code, none, none, modifiers, kind, [], raw⟩

/-- The key field of a `u` report: the key, its shifted form and its base layout form. -/
def parseKeys (field : List UInt8) : Option (Nat × Option Char × Option Char) :=
  match field.splitOn 0x3a with
  | [primary] => do return (← parseU32 primary, none, none)
  | [primary, shifted] => do
    let primary ← parseU32 primary
    let shiftedKey ← parseOptionalChar (some shifted)
    if shifted.isEmpty then failure
    return (primary, shiftedKey, none)
  | [primary, shifted, base] => do
    let primary ← parseU32 primary
    return (primary, ← parseOptionalChar (some shifted), ← parseOptionalChar (some base))
  | _ => none

def parseCsiU (raw parameters : List UInt8) : Option EnhancedKey :=
  match parameters.splitOn 0x3b with
  | key :: fields => do
    if fields.length > 2 then failure
    let (primary, shifted, base) ← parseKeys key
    let (modifiers, kind) ← parseModifiers fields[0]?
    let text ← parseText fields[1]?
    return ⟨keyCodeFromNumber primary, shifted, base, modifiers, kind, text, raw⟩
  | [] => none

def tildeKey : Nat → Option FunctionalKey
  | 2 => some .insert
  | 3 => some .delete
  | 5 => some .pageUp
  | 6 => some .pageDown
  | 7 => some .home
  | 8 => some .endKey
  | 11 => some (.function 1)
  | 12 => some (.function 2)
  | 13 => some (.function 3)
  | 14 => some (.function 4)
  | 15 => some (.function 5)
  | 17 => some (.function 6)
  | 18 => some (.function 7)
  | 19 => some (.function 8)
  | 20 => some (.function 9)
  | 21 => some (.function 10)
  | 23 => some (.function 11)
  | 24 => some (.function 12)
  | 29 => some .menu
  | _ => none

def letterKey : UInt8 → Option FunctionalKey
  | 0x41 => some .up
  | 0x42 => some .down
  | 0x43 => some .right
  | 0x44 => some .left
  | 0x45 => some .begin
  | 0x46 => some .endKey
  | 0x48 => some .home
  | 0x50 => some (.function 1)
  | 0x51 => some (.function 2)
  | 0x52 => some (.function 3)
  | 0x53 => some (.function 4)
  | _ => none

def parseTilde (raw parameters : List UInt8) : Option EnhancedKey := do
  let (key, modifiers, kind) ← parseFunctionParameters parameters
  let code ← tildeKey key
  return functional raw code modifiers kind

def parseLetter (raw parameters : List UInt8) (final : UInt8) : Option EnhancedKey := do
  let code ← letterKey final
  let (key, modifiers, kind) ←
    if parameters.isEmpty then some (1, 0, .press) else parseFunctionParameters parameters
  if key ≠ 1 then failure
  return functional raw code modifiers kind

def parse (raw : List UInt8) : Option EnhancedKey :=
  match raw with
  | 0x1b :: 0x5b :: body =>
    match body.getLast? with
    | none => none
    | some final =>
      let parameters := body.dropLast
      if final = 0x75 then parseCsiU raw parameters
      else if final = 0x7e then parseTilde raw parameters
      else parseLetter raw parameters final
  | _ => none

variable (k : EnhancedKey)

def matchesShortcut (shortcut : Shortcut) : Bool :=
  let modifiers := withoutLocks k.modifiers
  modifiers = shortcut.modifiers &&
    (k.code = .unicode shortcut.character.toNat || k.baseLayout = some shortcut.character ||
      (modifiers.testBit 0 && k.shifted = some shortcut.character))

def identity : KeyIdentity := k.baseLayout.elim k.code fun key => .unicode key.toNat

def isModifier : Bool :=
  match k.code with
  | .functional (.other code) => 57441 ≤ code && code ≤ 57452
  | _ => false

end EnhancedKey

end Voytty.Cli
