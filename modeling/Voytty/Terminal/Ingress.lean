import Voytty.Terminal.Effects
import Voytty.Terminal.Projection

/-!
# The ingress filter

`terminal/src/ingress.rs`: the byte machine between the child's output and the
emulator. It frames escape, control and string sequences itself, answers
queries, applies colour, title, link and clipboard commands, and forwards only
what it admits. A `Machine` is the filter with the engine it feeds and the
collector of one update; a failed reply leaves whatever was done before it.
-/

namespace Voytty.Terminal

open Voytty.Lib

def maxControlSequenceBytes : Nat := 256

def maxRepeatCount : Nat := 4096

def maxControlStringBytes : Nat := maxTerminalNotificationBytes

def maxOsc52Base64Bytes : Nat := 699052

def maxReplyBytesPerUpdate : Nat := 64 * 1024

inductive StringKind where
  | osc
  | dcs
  | apc
  | pm
  | sos
  deriving DecidableEq, Repr

structure Sequence where
  bytes : List UInt8
  inputBytes : Nat
  overflowed : Bool
  deriving DecidableEq, Repr

namespace Sequence

def new (start : List UInt8) : Sequence := ⟨start, start.length, false⟩

def noteInputByte (s : Sequence) : Bool × Sequence :=
  let retain := s.inputBytes < maxControlSequenceBytes && !s.overflowed
  (retain, { s with inputBytes := s.inputBytes + 1, overflowed := s.overflowed || !retain })

def push (s : Sequence) (byte : UInt8) : Sequence :=
  match s.noteInputByte with
  | (true, s) => { s with bytes := s.bytes ++ [byte] }
  | (false, s) => s

end Sequence

/-- An OSC, DCS, APC, PM or SOS string being collected, with its place in a UTF-8 scalar. -/
structure ControlString where
  kind : StringKind
  bytes : List UInt8 := []
  overflowed : Bool := false
  sawEscape : Bool := false
  clipboard : Bool := false
  utf8Remaining : Nat := 0
  continuationMin : UInt8 := 0x80
  continuationMax : UInt8 := 0xbf
  deriving DecidableEq, Repr

namespace ControlString

def isUtf8Continuation (s : ControlString) (byte : UInt8) : Bool :=
  s.utf8Remaining > 0 && s.continuationMin ≤ byte && byte ≤ s.continuationMax

def trackUtf8 (s : ControlString) (byte : UInt8) : ControlString :=
  if s.isUtf8Continuation byte then
    { s with
      utf8Remaining := s.utf8Remaining - 1
      continuationMin := 0x80
      continuationMax := 0xbf }
  else
    let (remaining, low, high) := (utf8Lead byte).getD (0, 0x80, 0xbf)
    { s with utf8Remaining := remaining, continuationMin := low, continuationMax := high }

def push (s : ControlString) (byte : UInt8) : ControlString :=
  let s := s.trackUtf8 byte
  let maximum := if s.clipboard then maxOsc52Base64Bytes + 5 else maxControlStringBytes
  if s.bytes.length < maximum then
    let bytes := s.bytes ++ [byte]
    { s with
      bytes := bytes
      -- the clipboard command raises the bound once its number is complete
      clipboard := s.clipboard || (s.kind = .osc && bytes = [0x35, 0x32, 0x3b]) }
  else { s with overflowed := true }

end ControlString

inductive PolicyState where
  | ground
  | escape (sequence : Sequence)
  | csi (sequence : Sequence)
  | string (string : ControlString)
  deriving DecidableEq, Repr

structure UpdateCollector where
  replies : List UInt8 := []
  events : EventBuffer := {}
  hostEffects : TerminalHostEffects := {}

inductive IngressError where
  | replyOverflow
  deriving DecidableEq, Repr

/-- A parsed boundary at which the model freezes or publishes. -/
inductive PresentationBoundary where
  | synchronizedOutput (enabled : Bool) (modes : List Nat)
  | reset
  deriving DecidableEq, Repr

structure TerminalIngressPolicy where
  state : PolicyState := .ground
  utf8 : List UInt8 := []
  precedingCharacter : Option Char := none
  boundary : Option PresentationBoundary := none
  synchronizedOutput : Bool := false
  deriving DecidableEq, Repr

/-! ## Byte classes and parameters -/

def c1Introducer (byte : UInt8) : Option PolicyState :=
  if byte = 0x9b then some (.csi (.new [0x1b, 0x5b]))
  else if byte = 0x9d then some (.string { kind := .osc })
  else if byte = 0x90 then some (.string { kind := .dcs })
  else if byte = 0x9f then some (.string { kind := .apc })
  else if byte = 0x9e then some (.string { kind := .pm })
  else if byte = 0x98 then some (.string { kind := .sos })
  else none

/-- The string a 7-bit introducer `ESC byte` starts. -/
def stringIntroducer (byte : UInt8) : Option StringKind :=
  if byte = 0x5d then some .osc
  else if byte = 0x50 then some .dcs
  else if byte = 0x5f then some .apc
  else if byte = 0x5e then some .pm
  else if byte = 0x58 then some .sos
  else none

def isEmbeddedControl (byte : UInt8) : Bool :=
  byte ≤ 0x17 || byte == 0x19 || (0x1c ≤ byte && byte ≤ 0x1f) || byte == 0x7f

def isEscapeFinal (byte : UInt8) : Bool := 0x30 ≤ byte && byte ≤ 0x7e

def isCsiFinal (byte : UInt8) : Bool := 0x40 ≤ byte && byte ≤ 0x7e

def parseParameter (value : List UInt8) : Option Nat :=
  if value.isEmpty then some 0
  else (decode value).bind (parseUnsigned 10 65536)

/-- A private marker and the numbers after it, if they are all numbers. -/
def parseParameters (body : List UInt8) : Option UInt8 × Option (List Nat) :=
  let split : Option UInt8 × List UInt8 := match body with
    | first :: rest =>
      if first ∈ [0x3f, 0x3e, 0x3c, 0x3d] then (some first, rest) else (none, body)
    | [] => (none, body)
  if split.2.isEmpty then (split.1, some [])
  else (split.1, (split.2.splitOn 0x3b).mapM parseParameter)

/-- Printable text up to the title bound, and whether some was left out. -/
def boundedTitleFrom (title : List Char) : List Char → List Char × Bool
  | [] => (title, false)
  | c :: cs =>
    if byteLen title + c.utf8Size > maxTitleBytes then (title, true)
    else boundedTitleFrom (title ++ [c]) cs

def boundedApplicationTitle (bytes : List UInt8) : List Char × Bool :=
  boundedTitleFrom [] ((lossy bytes).filter fun c => !isControl c)

def boundedText (bytes : List UInt8) : List Char × Bool :=
  (lossy (bytes.take maxTitleBytes), bytes.length > maxTitleBytes)

/-- Splits at the first separator; the second part is empty without one. -/
def splitFirst (sep : UInt8) (bytes : List UInt8) : List UInt8 × List UInt8 :=
  (splitOnce sep bytes).getD (bytes, [])

/-! ## Private modes -/

/-- The sequence rebuilt for the modes that are forwarded. -/
def privateModeSequence (modes : List Nat) (enabled : Bool) : List UInt8 :=
  [0x1b, 0x5b, 0x3f] ++ encode ([';'].intercalate (modes.map decimal)) ++
    [if enabled then 0x68 else 0x6c]

/-- Modes the filter keeps for itself. -/
def isLocalMode (mode : Nat) : Bool := mode == 5 || mode == 2031 || mode == 9

variable {R : Type} (em : Emulator R)

def applyLocalMode (enabled : Bool) (e : AlacrittyEngine R) (mode : Nat) : AlacrittyEngine R :=
  if mode = 5 then { e with colors := { e.colors with reverse := enabled } }
  else if mode = 2031 then { e with colors := { e.colors with subscribed := enabled } }
  else if mode = 9 then { e with legacyX10Mouse := enabled }
  else e

def applyPrivateModes (parameters : List Nat) (enabled : Bool) (e : AlacrittyEngine R) :
    AlacrittyEngine R :=
  let e := parameters.foldl (applyLocalMode enabled) e
  let forwarded := parameters.filter fun mode => !isLocalMode mode
  if forwarded.isEmpty then e
  else if forwarded.any fun mode => mode == 47 || mode == 1047 || mode == 1049 then
    e.feedScreenTransition em (privateModeSequence forwarded enabled)
  else e.feedRaw em (privateModeSequence forwarded enabled)

/-! ## The machine -/

/-- The filter, the engine it feeds and the update it collects. -/
structure Machine (R : Type) where
  policy : TerminalIngressPolicy
  engine : AlacrittyEngine R
  output : UpdateCollector

/-- The outcome of a step that may fail to reply, and the machine after it. -/
abbrev Step (R : Type) := Except IngressError Unit × Machine R

namespace Machine

variable (m : Machine R)

def setState (state : PolicyState) : Machine R := { m with policy := { m.policy with state } }

def setEngine (engine : AlacrittyEngine R) : Machine R := { m with engine }

def pushEvent (event : TerminalSideEvent) : Machine R :=
  { m with output := { m.output with events := m.output.events.push event } }

def unsupported (kind : UnsupportedSequenceKind) : Machine R :=
  m.pushEvent (.unsupportedSequence kind)

def setHostEffect (effect : TerminalHostEffect) : Machine R :=
  { m with output := { m.output with hostEffects := m.output.hostEffects.push effect } }

def pushReply (reply : List Char) : Step R :=
  if m.output.replies.length + (encode reply).length > maxReplyBytesPerUpdate then
    (.error .replyOverflow, m)
  else
    (.ok (), { m with output := { m.output with replies := m.output.replies ++ encode reply } })

def collectEvents : Machine R :=
  let (events, engine) := m.engine.takeEvents
  events.foldl pushEvent (m.setEngine engine)

def feedRaw (bytes : List UInt8) : Machine R := m.setEngine (m.engine.feedRaw em bytes)

def printCharacter (character : Char) : Machine R :=
  let (accepted, engine) := m.engine.acceptCharacter em character
  let m := m.setEngine engine
  if accepted then
    let m := m.feedRaw em (String.utf8EncodeChar character)
    { m with policy := { m.policy with precedingCharacter := some character } }
  else m.unsupported .character

/-- Hands the first `n` pending bytes to the engine as they are. -/
def feedPending (n : Nat) : Machine R :=
  let m' := m.feedRaw em (m.policy.utf8.take n)
  { m' with policy :=
      { m'.policy with precedingCharacter := none, utf8 := m.policy.utf8.drop n } }

/-- Prints a complete scalar or gives up its invalid prefix; each round gives up a byte. -/
def drainUtf8 : Nat → Machine R → Machine R
  | 0, m => m
  | fuel + 1, m =>
    match fromUtf8 m.policy.utf8 with
    | .ok [] => m
    | .ok (character :: _) =>
      { m with policy := { m.policy with utf8 := [] } }.printCharacter em character
    | .error error =>
      if error.errorLen = none ∧ m.policy.utf8.length < 4 then m
      else
        let m := m.feedPending em (min (error.errorLen.getD 1) m.policy.utf8.length)
        if m.policy.utf8.isEmpty then m else drainUtf8 fuel m

def flushPartialUtf8 : Machine R :=
  if m.policy.utf8.isEmpty then m else m.feedPending em m.policy.utf8.length

def processGround (byte : UInt8) : Machine R :=
  if byte = 0x1b then (m.flushPartialUtf8 em).setState (.escape (.new [0x1b]))
  else
    match if m.policy.utf8.isEmpty then c1Introducer byte else none with
    | some state => m.setState state
    | none =>
      if byte < 0x20 ∨ byte = 0x7f then
        let m := m.flushPartialUtf8 em
        if byte = 0x07 then m.pushEvent .audibleBell else m.feedRaw em [byte]
      else if byte < 0x80 ∧ m.policy.utf8.isEmpty then
        m.printCharacter em (Char.ofNat byte.toNat)
      else
        let m := { m with policy := { m.policy with utf8 := m.policy.utf8 ++ [byte] } }
        m.drainUtf8 em (m.policy.utf8.length + 1)

def dispatchEmbeddedControl (byte : UInt8) : Machine R :=
  if byte = 0x07 then m.pushEvent .audibleBell
  else if byte = 0x7f then m
  else m.feedRaw em [byte]

/-- ESC dispatch: `ESC g` rings, `ESC c` resets, the rest is forwarded. -/
def dispatchEscape (sequence : Sequence) : Machine R :=
  if sequence.overflowed then m.unsupported .escape
  else if sequence.bytes = [0x1b, 0x67] then m.pushEvent .visualBell
  else if sequence.bytes = [0x1b, 0x63] then
    let m := m.setEngine (m.engine.feedReset em sequence.bytes)
    { m with policy := { m.policy with
        precedingCharacter := none
        synchronizedOutput := false
        boundary := some .reset } }
  else m.feedRaw em sequence.bytes

/-! ### Control sequences -/

def reportModes (isPrivate : Bool) : List Nat → Machine R → Step R
  | [], m => (.ok (), m)
  | value :: values, m =>
    let state :=
      if isPrivate ∧ value = 2026 then if m.policy.synchronizedOutput then 1 else 2
      else m.engine.reportMode value isPrivate
    let reply := "\x1b[".toList ++ (if isPrivate then ['?'] else []) ++ decimal value ++ [';'] ++
      decimal state ++ "$y".toList
    match m.pushReply reply with
    | (.ok (), m) => reportModes isPrivate values m
    | (.error e, m) => (.error e, m)

def stackColors (store : Bool) (values : List Nat) : Machine R :=
  let positions := if values.isEmpty then [0] else values
  m.setEngine { m.engine with colors := positions.foldl (·.stack store) m.engine.colors }

def dispatchKeyboardMode (sequence : Sequence) (marker : Option UInt8)
    (parameters : Option (List Nat)) : Step R :=
  let admitted : Bool := match marker, parameters with
    | some 0x3d, some [] => true
    | some 0x3d, some [flags] => flags ≤ 0x1f
    | some 0x3d, some [flags, mode] => flags ≤ 0x1f && mode ≤ 3
    | some 0x3e, some [] => true
    | some 0x3e, some [flags] => flags ≤ 0x1f
    | some 0x3c, some [] => true
    | some 0x3c, some [_] => true
    | _, _ => false
  if marker = some 0x3f ∧ parameters = some [] then
    m.pushReply ("\x1b[?".toList ++ decimal m.engine.keyboardModeBits ++ ['u'])
  else if admitted then (.ok (), m.feedRaw em sequence.bytes)
  else (.ok (), m.unsupported .csi)

def repeatCount (marker : Option UInt8) (parameters : Option (List Nat)) : Option Nat :=
  match marker, parameters with
  | none, some [] => some 1
  | none, some [count] =>
    if count = 0 then some 1 else if count ≤ maxRepeatCount then some count else none
  | _, _ => none

def repeatCharacter (marker : Option UInt8) (parameters : Option (List Nat)) : Machine R :=
  match repeatCount marker parameters, m.policy.precedingCharacter with
  | some count, some character => (fun m => printCharacter em m character)^[count] m
  | none, _ => m.unsupported .csi
  | some _, none => m

/-- DECSET and DECRST: synchronized output stops at a boundary with its sibling modes. -/
def setPrivateModes (parameters : List Nat) (enabled : Bool) : Machine R :=
  if 2026 ∈ parameters then
    { m with policy := { m.policy with
        synchronizedOutput := enabled
        boundary := some (.synchronizedOutput enabled (parameters.filter (· ≠ 2026))) } }
  else m.setEngine (applyPrivateModes em parameters enabled m.engine)

def deviceStatus (marker : Option UInt8) (parameters : Option (List Nat)) : Step R :=
  match marker, parameters with
  | none, some [5] => m.pushReply "\x1b[0n".toList
  | none, some [6] => m.pushReply (m.engine.cursorReport false)
  | some 0x3f, some [6] => m.pushReply (m.engine.cursorReport true)
  | _, _ => (.ok (), m.unsupported .csi)

def windowOperation (body : List UInt8) (marker : Option UInt8) (parameters : Option (List Nat)) :
    Step R :=
  if body = [0x31, 0x38] then
    m.pushReply ("\x1b[8;".toList ++ decimal m.engine.size.rows ++ [';'] ++
      decimal m.engine.size.columns ++ ['t'])
  else
    match marker, parameters with
    | none, some [8, rows, columns] =>
      if rows > 0 ∧ columns > 0 then (.ok (), m.pushEvent (.resizeRequested ⟨rows, columns⟩))
      else (.ok (), m.unsupported .csi)
    | _, _ => (.ok (), m.unsupported .csi)

/-- DECRQM with the final `$p`. -/
def requestModes (parameters : List UInt8) : Step R :=
  match parseParameters parameters with
  | (none, some values) => m.reportModes false values
  | (some 0x3f, some values) => m.reportModes true values
  | _ => (.ok (), m)

/-- The colour stack operations `#P`, `#Q` and `#R`. -/
def colorStack (body : List UInt8) (finalByte : UInt8) : Step R :=
  if finalByte = 0x52 then
    if body = [0x23] then m.pushReply m.engine.colors.stackReport else (.ok (), m)
  else
    match parseParameters body.dropLast with
    | (none, some values) => (.ok (), m.stackColors (finalByte = 0x50) values)
    | _ => (.ok (), m)

def dispatchCsi (sequence : Sequence) : Step R :=
  if sequence.overflowed ∨ sequence.bytes.length < 3 then (.ok (), m.unsupported .csi) else
  let finalByte := sequence.bytes.getLastD 0
  let body := (sequence.bytes.drop 2).dropLast
  let (marker, parameters) := parseParameters body
  if body = [0x3f, 0x39, 0x39, 0x36] ∧ finalByte = 0x6e then
    m.pushReply m.engine.colors.appearanceReply
  else if finalByte = 0x70 ∧ body.getLast? = some 0x24 then m.requestModes body.dropLast
  else if body.getLast? = some 0x23 ∧ (finalByte = 0x50 ∨ finalByte = 0x51 ∨ finalByte = 0x52) then
    m.colorStack body finalByte
  else if finalByte = 0x63 ∧ marker = none ∧ (parameters = some [] ∨ parameters = some [0]) then
    m.pushReply "\x1b[?1;2c".toList
  else if finalByte = 0x6e then m.deviceStatus marker parameters
  else if finalByte = 0x74 then m.windowOperation body marker parameters
  else if finalByte = 0x75 then
    if body = [] then (.ok (), m.feedRaw em sequence.bytes)
    else m.dispatchKeyboardMode em sequence marker parameters
  else if finalByte = 0x62 then (.ok (), m.repeatCharacter em marker parameters)
  else if (finalByte = 0x68 ∨ finalByte = 0x6c) ∧ marker = some 0x3f then
    match parameters with
    | none => (.ok (), m.unsupported .csi)
    | some parameters => (.ok (), m.setPrivateModes em parameters (finalByte = 0x68))
  else if finalByte = 0x63 ∨ 0x24 ∈ body then (.ok (), m.unsupported .csi)
  else (.ok (), m.feedRaw em sequence.bytes)

/-! ### Control strings -/

def dispatchClipboard (payload : List UInt8) : Machine R :=
  let (selector, data) := splitFirst 0x3b payload
  if data = [0x3f] then m.pushEvent (.effectRejected .clipboardRead)
  else
    let text := if selector = [0x63] ∧ data ≠ [] then (em.base64Decode data).bind decode else none
    match text.map TerminalClipboardWrite.new with
    | some (.ok write) => m.setHostEffect (.clipboardWrite write)
    | _ => m.pushEvent (.effectRejected .clipboardWrite)

def parseNotification (isOsc9 : Bool) (payload : List UInt8) : Option TerminalNotification :=
  match decode payload with
  | none => none
  | some text =>
    if isOsc9 then (TerminalNotification.osc9 text).toOption
    else
      match (stripPre "notify;".toList text).bind (splitOnce ';') with
      | none => none
      | some (title, body) => (TerminalNotification.osc777 title body).toOption

def setHyperlink (payload : List UInt8) : Machine R :=
  match (decode payload).map (m.engine.setWebHyperlink em) with
  | some (true, engine) => m.setEngine engine
  | some (false, engine) => (m.setEngine engine.closeHyperlink).unsupported .osc
  | none => (m.setEngine m.engine.closeHyperlink).unsupported .osc

def dispatchOsc (bytes : List UInt8) : Machine R :=
  let (command, payload) := splitFirst 0x3b bytes
  if command = [0x38] then m.setHyperlink em payload
  else if command = [0x30] ∨ command = [0x32] then
    let (title, truncated) := boundedApplicationTitle payload
    (m.setEngine { m.engine with applicationTitle := title }).pushEvent
      (.titleChanged title truncated)
  else if command = [0x31] then
    let (iconName, truncated) := boundedText payload
    m.pushEvent (.iconNameChanged iconName truncated)
  else if command = [0x39] ∨ command = [0x37, 0x37, 0x37] then
    match parseNotification (command = [0x39]) payload with
    | some n => m.setHostEffect (.notification n)
    | none => m.unsupported .osc
  else if command = [0x35, 0x32] then m.dispatchClipboard em payload
  else m.unsupported .osc

def dispatchOverflowed (string : ControlString) : Machine R :=
  let m := if string.kind = .osc ∧ [0x38, 0x3b] <+: string.bytes then
      m.setEngine m.engine.closeHyperlink
    else m
  if string.clipboard then m.pushEvent (.effectRejected .clipboardWrite)
  else if string.kind = .osc then m.unsupported .osc
  else m.unsupported .control

/-- The answer to a DCS capability or setting query. -/
def dcsReply (text : List Char) : Option (List Char) :=
  match stripPre "+q".toList text with
  | some payload => some (capabilities payload)
  | none =>
    match stripPre "$q".toList text with
    | some request =>
      if request = ['m'] then
        some ("\x1bP1$r".toList ++ sgr (terminalStyle m.engine.term.cursor.template) ++
          "\x1b\\".toList)
      else some "\x1bP0$r\x1b\\".toList
    | none => none

def oscColors (text finish : List Char) : Option OscState :=
  let (command, payload) := (splitOnce ';' text).getD (text, [])
  match parseUnsigned 10 65536 command with
  | none => none
  | some command => m.engine.colors.osc em.toVendor command payload finish

def dispatchString (string : ControlString) (finish : List Char) : Step R :=
  if string.overflowed then (.ok (), m.dispatchOverflowed string) else
  match decode string.bytes, string.kind with
  | some text, .dcs =>
    match m.dcsReply text with
    | some reply => m.pushReply reply
    | none => (.ok (), m.unsupported .control)
  | some text, .osc =>
    match m.oscColors em text finish with
    | some o => (m.setEngine { m.engine with colors := o.colors }).pushReply o.reply
    | none => (.ok (), m.dispatchOsc em string.bytes)
  | none, .osc => (.ok (), m.dispatchOsc em string.bytes)
  | _, _ => (.ok (), m.unsupported .control)

/-! ### One byte -/

/-- Continues or ends an escape sequence whose last byte is `byte`. -/
def continueEscape (sequence : Sequence) (byte : UInt8) : Machine R :=
  if isEscapeFinal byte then m.dispatchEscape em sequence else m.setState (.escape sequence)

/-- Bytes every sequence state treats alike: cancels, restarts, 8-bit introducers, embedded
controls and high bytes. `resume` is the state the sequence stays in. -/
def interruptSequence (byte : UInt8) (sequence : Sequence) (resume : Sequence → PolicyState) :
    Option (Machine R) :=
  if byte = 0x18 ∨ byte = 0x1a then some m
  -- ESC restarts framing, so a nested introducer cannot ride on the old sequence
  else if byte = 0x1b then some (m.setState (.escape (.new [0x1b])))
  else
    match c1Introducer byte with
    | some state => some (m.setState state)
    | none =>
      let (retain, noted) := sequence.noteInputByte
      if isEmbeddedControl byte then
        let m := if retain then m.dispatchEmbeddedControl em byte else m
        some (m.setState (resume noted))
      else if 0x80 ≤ byte then
        let m := if retain then m.unsupported .control else m
        some (m.setState (resume noted))
      else none

def processEscape (byte : UInt8) (sequence : Sequence) : Machine R :=
  match m.interruptSequence em byte sequence .escape with
  | some m => m
  | none =>
    if sequence.bytes.length = 1 ∧ !sequence.overflowed then
      if byte = 0x5b then m.setState (.csi (sequence.push byte))
      else
        match stringIntroducer byte with
        | some kind => m.setState (.string { kind := kind })
        | none => m.continueEscape em (sequence.push byte) byte
    else m.continueEscape em (sequence.push byte) byte

def processCsi (byte : UInt8) (sequence : Sequence) : Step R :=
  match m.interruptSequence em byte sequence .csi with
  | some m => (.ok (), m)
  | none =>
    if isCsiFinal byte then m.dispatchCsi em (sequence.push byte)
    else (.ok (), m.setState (.csi (sequence.push byte)))

/-- A byte inside a string: a terminator dispatches it, anything else is payload. -/
def processString (byte : UInt8) (string : ControlString) : Step R :=
  if byte = 0x18 ∨ byte = 0x1a then (.ok (), m)
  else if (byte = 0x9c ∧ (string.sawEscape ∨ !string.isUtf8Continuation byte)) ∨
      (string.kind = .osc ∧ byte = 0x07) then
    m.dispatchString em string (if byte = 0x07 then ['\x07'] else "\x1b\\".toList)
  else if string.sawEscape ∧ byte = 0x5c then
    m.dispatchString em { string with sawEscape := false } "\x1b\\".toList
  else
    let string := if string.sawEscape then { string.push 0x1b with sawEscape := false } else string
    if byte = 0x1b then (.ok (), m.setState (.string { string with sawEscape := true }))
    else (.ok (), m.setState (.string (string.push byte)))

/-- One byte. The state is ground while it is handled, and stays so if a reply fails. -/
def processByte (byte : UInt8) : Step R :=
  let state := m.policy.state
  let m := m.setState .ground
  match state with
  | .ground => (.ok (), m.processGround em byte)
  | .escape sequence => (.ok (), m.processEscape em byte sequence)
  | .csi sequence => m.processCsi em byte sequence
  | .string string => m.processString em byte string

/-- Bytes up to a presentation boundary: the bytes left, and the machine there. -/
def processUntilBoundary : List UInt8 → Machine R → Except IngressError (List UInt8) × Machine R
  | [], m => (.ok [], m)
  | byte :: bytes, m =>
    match m.processByte em byte with
    | (.error e, m) => (.error e, m)
    | (.ok (), m) =>
      let m := m.collectEvents
      if m.policy.boundary.isSome then (.ok bytes, m) else processUntilBoundary bytes m

/-- At least a byte is handled. -/
theorem processUntilBoundary_length {bytes rest : List UInt8} {m m' : Machine R}
    (hne : bytes ≠ []) (h : processUntilBoundary em bytes m = (.ok rest, m')) :
    rest.length < bytes.length := by
  induction bytes generalizing m with
  | nil => exact absurd rfl hne
  | cons b bytes ih =>
    unfold processUntilBoundary at h
    split at h
    · cases h
    dsimp only at h
    split at h
    · cases h; simp
    · cases bytes with
      | nil => cases h; simp
      | cons c bytes => exact Nat.lt_succ_of_lt (ih (by simp) h)

end Machine

end Voytty.Terminal
