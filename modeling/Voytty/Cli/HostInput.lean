import Voytty.Cli.Keyboard
import Voytty.Lib.Incremental
import Voytty.Terminal.Colors

/-!
# Input of the user's terminal

Bytes read from the user's terminal are first cut into units by the host-input
codec (`cli/src/terminal_ui.rs`): keys, pastes, mouse reports, and replies of
the terminal about its colours (`host_colors.rs`). The command mode
(`prefix.rs`) then takes the local commands out of the keys. `turn` is one pass
of the codec's loop; `receive` is one chunk through both.

Input is read under an epoch and a geometry of the session; `receive` reads it
while both are current, and within one instant, so that no command key times
out.
-/

namespace Voytty.Cli

open Voytty.Lib Voytty.Terminal

/-! ## Replies of the terminal -/

inductive HostReply where
  | color (slot : Nat) (value : TerminalColorValue)
  | appearance (appearance : TerminalAppearance)
  | appearanceMode (mode : Nat)
  | fence
  | ignored
  deriving DecidableEq, Repr

def role (key : List Char) : Option Nat :=
  if key = "foreground".toList then some 256
  else if key = "background".toList then some 257
  else if key = "cursor".toList then some 258
  else if key = "cursor_text".toList then some 259
  else if key = "selection_foreground".toList then some 260
  else if key = "selection_background".toList then some 261
  else parseUnsigned 10 256 key

def indexedReplies (v : Vendor) : List (List Char) → List HostReply
  | index :: value :: fields =>
    (match parseUnsigned 10 256 index, parseTerminalRgb v value with
      | some index, some value => [.color index value]
      | _, _ => []) ++ indexedReplies v fields
  | _ => []

def keyedReply (v : Vendor) (field : List Char) : Option HostReply := do
  let (key, value) ← splitOnce '=' field
  let slot ← role key
  let value ←
    if value.isEmpty ∧ slot ≥ 258 then some .dynamic else parseTerminalRgb v value
  return .color slot value

def dynamicSlot : Nat → Option Nat
  | 10 => some 256
  | 11 => some 257
  | 12 => some 258
  | 17 => some 261
  | 19 => some 260
  | _ => none

/-- Values of successive commands from `command` on; command numbers are 16 bits. -/
def dynamicReplies (v : Vendor) (command : Nat) (fields : List (List Char)) : List HostReply :=
  fields.zipIdx.filterMap fun (value, offset) =>
    if command + offset ≥ 2 ^ 16 then none
    else do
      let slot ← dynamicSlot (command + offset)
      let value ← parseTerminalRgb v value
      return .color slot value

def oscReplies (v : Vendor) (body : List UInt8) : List HostReply :=
  match decode body with
  | none => [.ignored]
  | some body =>
    match body.splitOn ';' with
    | [] => [.ignored]
    | first :: fields =>
      match parseUnsigned 10 (2 ^ 16) first with
      | none => [.ignored]
      | some command =>
        let replies :=
          if command = 4 then indexedReplies v fields
          else if command = 21 then fields.filterMap (keyedReply v)
          else dynamicReplies v command fields
        if replies.isEmpty then [.ignored] else replies

/-- The body of a control sequence, after either introducer. -/
def csiBody : List UInt8 → Option (List UInt8)
  | 0x1b :: 0x5b :: body => some body
  | 0x9b :: body => some body
  | _ => none

/-- `?997;` -/
def appearancePre : List UInt8 := [0x3f, 0x39, 0x39, 0x37, 0x3b]

/-- `?2031;` -/
def modePre : List UInt8 := [0x3f, 0x32, 0x30, 0x33, 0x31, 0x3b]

def isColorCsi (raw : List UInt8) : Bool :=
  (csiBody raw).any fun body => appearancePre.isPrefixOf body || modePre.isPrefixOf body

def stripEnd (suffix bytes : List UInt8) : Option (List UInt8) :=
  (stripPre suffix.reverse bytes.reverse).map List.reverse

def csiReply (raw : List UInt8) : Option HostReply := do
  let body ← csiBody raw
  if body = [0x30, 0x6e] then return .fence
  match (stripPre modePre body).bind (stripEnd [0x24, 0x79]) with
  | some mode => return (parseDecimal (2 ^ 16) mode).elim .ignored .appearanceMode
  | none =>
    match (stripPre appearancePre body).bind (stripEnd [0x6e]) with
    | some value =>
      return if value = [0x31] then .appearance .dark
        else if value = [0x32] then .appearance .light
        else .ignored
    | none => if isColorCsi raw then return .ignored else failure

/-! ## Units of input -/

/-- A mouse report of the user's terminal. -/
structure SgrMouse where
  code : Nat
  column : Nat
  row : Nat
  release : Bool
  raw : List UInt8
  deriving DecidableEq, Repr

inductive HostInputEvent where
  | bytes (bytes : List UInt8)
  | opaqueBytes (bytes : List UInt8)
  | focusReport (bytes : List UInt8)
  | forwardedBytes (bytes : List UInt8)
  | legacyCtrlC
  | enhancedKey (key : EnhancedKey)
  | paste (bytes : List UInt8)
  | pageUp
  | pageDown
  | mouse (mouse : SgrMouse)
  | terminalReply (reply : HostReply) (bytes : Nat)
  deriving DecidableEq, Repr

def hostSequenceBound : Nat := 64

def oscBound : Nat := 1024

def pasteStart : List UInt8 := [0x1b, 0x5b, 0x32, 0x30, 0x30, 0x7e]

def pasteEnd : List UInt8 := [0x1b, 0x5b, 0x32, 0x30, 0x31, 0x7e]

def mouseStart : List UInt8 := [0x1b, 0x5b, 0x3c]

def pageUpBytes : List UInt8 := [0x1b, 0x5b, 0x35, 0x7e]

def pageDownBytes : List UInt8 := [0x1b, 0x5b, 0x36, 0x7e]

def resumeInputBound : Nat := 1024 * 1024 - 1024

def pasteInputOverflow : DaemonError :=
  ⟨.resourceExhausted, "bracketed terminal paste exceeded its fixed input bound"⟩

namespace SgrMouse

/-- Three numbers between the introducer and the final byte. -/
def parse (raw : List UInt8) : Option SgrMouse := do
  let body ← stripPre mouseStart raw
  match (body.dropLast).splitOn 0x3b with
  | [code, column, row] =>
    let code ← parseDecimal (2 ^ 16) code
    let column ← parseDecimal (2 ^ 16) column
    let row ← parseDecimal (2 ^ 16) row
    if column = 0 ∨ row = 0 then failure
    return ⟨code, column, row, body.getLast? = some 0x6d, raw⟩
  | _ => failure

end SgrMouse

def isTail (byte : UInt8) : Bool := byte &&& 0xc0 = 0x80

/-- How many continuation bytes a lead byte announces. -/
def tailLength (byte : UInt8) : Nat :=
  if 0xc2 ≤ byte ∧ byte ≤ 0xdf then 1
  else if 0xe0 ≤ byte ∧ byte ≤ 0xef then 2
  else if 0xf0 ≤ byte ∧ byte ≤ 0xf4 then 3
  else 0

def isFinal (byte : UInt8) : Bool := 0x40 ≤ byte && byte ≤ 0x7e

def findBytes (needle : List UInt8) : List UInt8 → Option Nat
  | [] => if needle.isEmpty then some 0 else none
  | byte :: bytes =>
    if needle.isPrefixOf (byte :: bytes) then some 0
    else (findBytes needle bytes).map (· + 1)

/-- The end of an operating system command: its position and length, or the UTF-8 state at the
end of the bytes when there is none. -/
def oscScan : Nat → List UInt8 → Except Nat (Nat × Nat)
  | tail, [] => .error tail
  | tail, byte :: bytes =>
    if tail ≠ 0 ∧ isTail byte then (oscScan (tail - 1) bytes).map fun (i, n) => (i + 1, n)
    else if byte = 0x07 ∨ byte = 0x9c ∨ byte = 0x18 ∨ byte = 0x1a then .ok (0, 1)
    else if byte = 0x1b ∧ bytes.head? = some 0x5c then .ok (0, 2)
    else (oscScan (tailLength byte) bytes).map fun (i, n) => (i + 1, n)

def hostByte (byte : UInt8) : HostInputEvent := if byte = 0x03 then .legacyCtrlC else .bytes [byte]

/-- Ordinary bytes join those before them. -/
def pushEvent (events : List HostInputEvent) (event : HostInputEvent) : List HostInputEvent :=
  match events.getLast?, event with
  | some (.bytes previous), .bytes bytes => events.dropLast ++ [.bytes (previous ++ bytes)]
  | _, event => events ++ [event]

/-! ## The codec -/

structure HostInputCodec where
  pending : List UInt8
  inPaste : Bool
  discardingOsc : Bool
  oscUtf8Tail : Nat
  discardingCsi : Bool
  utf8Tail : Nat
  deriving DecidableEq, Repr

abbrev Turn := Pass HostInputCodec HostInputEvent DaemonError

namespace HostInputCodec

variable (c : HostInputCodec)

def new : HostInputCodec := ⟨[], false, false, 0, false, 0⟩

def drop (n : Nat) : HostInputCodec := { c with pending := c.pending.drop n }

/-- Inside a paste nothing but its end is looked for. -/
def pasteTurn : Turn :=
  match findBytes pasteEnd c.pending with
  | some index =>
    let stop := index + pasteEnd.length
    if stop > resumeInputBound then .fail pasteInputOverflow
    else .go [.paste (c.pending.take stop)] { c.drop stop with inPaste := false }
  | none => if c.pending.length > resumeInputBound then .fail pasteInputOverflow else .stop [] c

/-- The rest of an over-long colour reply. -/
def discardTurn : Turn :=
  match c.pending.findIdx? isFinal with
  | some index =>
    .go [.terminalReply .ignored (index + 1)] { c.drop (index + 1) with discardingCsi := false }
  | none => .go [.terminalReply .ignored c.pending.length] { c with pending := [] }

/-- Only the first reply of a command accounts for its bytes. -/
def replyEvents (replies : List HostReply) (count : Nat) : List HostInputEvent :=
  replies.zipIdx.map fun (reply, index) => .terminalReply reply (if index = 0 then count else 0)

/-- An operating system command that starts after `start` bytes. -/
def oscTurn (v : Vendor) (start : Nat) : Turn :=
  match oscScan (if c.discardingOsc then c.oscUtf8Tail else 0) (c.pending.drop start) with
  | .ok (index, length) =>
    let stop := start + index
    let count := stop + length
    let cancelled := c.pending[stop]? = some 0x18 ∨ c.pending[stop]? = some 0x1a
    let replies :=
      if c.discardingOsc ∨ count > oscBound ∨ cancelled then [.ignored]
      else oscReplies v ((c.pending.take stop).drop start)
    .go (replyEvents replies count)
      { c.drop count with discardingOsc := false, oscUtf8Tail := 0 }
  | .error tail =>
    if c.pending.length > oscBound then
      let keep := if c.pending.getLast? = some 0x1b then 1 else 0
      let count := c.pending.length - keep
      .stop [.terminalReply .ignored count]
        { c.drop count with discardingOsc := true, oscUtf8Tail := tail }
    else .stop [] c

def sequenceEvent (raw : List UInt8) : HostInputEvent :=
  match csiReply raw with
  | some reply => .terminalReply reply raw.length
  | none =>
    if raw = [0x1b, 0x5b, 0x49] ∨ raw = [0x1b, 0x5b, 0x4f] ∨ raw = [0x9b, 0x49] ∨
        raw = [0x9b, 0x4f] then .focusReport raw
    else (EnhancedKey.parse raw).elim (.opaqueBytes raw) .enhancedKey

/-- A prefix of a fixed sequence of the terminal. -/
def knownHostPrefix (bytes : List UInt8) : Bool :=
  bytes.isPrefixOf pageUpBytes || bytes.isPrefixOf pageDownBytes ||
    bytes.isPrefixOf pasteStart || bytes.isPrefixOf mouseStart

/-- Bytes that begin no control sequence, or one given up. -/
def plainTurn : Turn :=
  match c.pending with
  | [] => .stop [] c
  | first :: rest =>
    if knownHostPrefix c.pending then .stop [] c
    else if first = 0x1b ∧ rest.head? ≠ some 0x5b then
      -- Alt and SS3 keys stay one unit
      let second := rest.head?.getD 0
      let length := if second = 0x4f then 3 else tailLength second + 2
      if c.pending.length < length then .stop [] c
      else .go [.opaqueBytes (c.pending.take length)] (c.drop length)
    else .go [hostByte first] { c with pending := rest, utf8Tail := tailLength first }

/-- A control sequence or SS3 key whose introducer has `start` bytes. -/
def sequenceTurn (start : Nat) : Turn :=
  match (c.pending.drop start).findIdx? isFinal with
  | some index =>
    let length := start + index + 1
    .go [sequenceEvent (c.pending.take length)] (c.drop length)
  | none =>
    if c.pending.length < hostSequenceBound then .stop [] c
    else if isColorCsi c.pending then
      .stop [.terminalReply .ignored c.pending.length]
        { c with pending := [], discardingCsi := true }
    else c.plainTurn

/-- How long the introducer of a control sequence or SS3 key is. -/
def introducer : List UInt8 → Option Nat
  | 0x1b :: 0x5b :: _ | 0x1b :: 0x4f :: _ => some 2
  | 0x9b :: _ => some 1
  | _ => none

/-- How long the introducer of an operating system command is. -/
def oscIntroducer : List UInt8 → Option Nat
  | 0x1b :: 0x5d :: _ => some 2
  | 0x9d :: _ => some 1
  | _ => none

def framedTurn : Turn :=
  match introducer c.pending with
  | some start => c.sequenceTurn start
  | none => c.plainTurn

def isMouseFinal (byte : UInt8) : Bool := byte = 0x4d || byte = 0x6d

def mouseTurn : Turn :=
  match c.pending.findIdx? isMouseFinal with
  | some index =>
    let raw := c.pending.take (index + 1)
    .go [(SgrMouse.parse raw).elim (.opaqueBytes raw) .mouse] (c.drop (index + 1))
  | none => if c.pending.length < hostSequenceBound then .stop [] c else c.framedTurn

def unitTurn (v : Vendor) : Turn :=
  if c.discardingOsc then c.oscTurn v 0
  else
    match oscIntroducer c.pending with
    | some start => c.oscTurn v start
    | none =>
      if pageUpBytes.isPrefixOf c.pending then .go [.pageUp] (c.drop pageUpBytes.length)
      else if pageDownBytes.isPrefixOf c.pending then .go [.pageDown] (c.drop pageDownBytes.length)
      else if mouseStart.isPrefixOf c.pending then c.mouseTurn
      else c.framedTurn

def turn (v : Vendor) : Turn :=
  if c.inPaste then c.pasteTurn
  else if !c.discardingOsc && !c.discardingCsi && pasteStart.isPrefixOf c.pending then
    .go [] { c with inPaste := true }
  else if c.discardingCsi then c.discardTurn
  else if c.utf8Tail ≠ 0 ∧ c.pending.head?.any isTail then
    .go ((c.pending.head?.map hostByte).toList) { c.drop 1 with utf8Tail := c.utf8Tail - 1 }
  else unitTurn { c with utf8Tail := 0 } v

/-- The loop: each pass takes bytes or enters a paste. -/
def loop (v : Vendor) :
    Nat → List HostInputEvent → HostInputCodec →
      Except DaemonError (List HostInputEvent × HostInputCodec)
  | 0, events, c => .ok (events, c)
  | fuel + 1, events, c =>
    if c.pending.isEmpty then .ok (events, c)
    else
      match c.turn v with
      | .fail error => .error error
      | .stop more c => .ok (more.foldl pushEvent events, c)
      | .go more c => loop v fuel (more.foldl pushEvent events) c

def feed (v : Vendor) (bytes : List UInt8) :
    Except DaemonError (List HostInputEvent × HostInputCodec) :=
  let c := { c with pending := c.pending ++ bytes }
  c.loop v (2 * c.pending.length + 1) []

/-- Something has been read that is not a whole unit yet. -/
def midUnit : Bool :=
  !c.pending.isEmpty || c.utf8Tail ≠ 0 || c.discardingOsc || c.discardingCsi

end HostInputCodec

/-- The codec with the epoch and the geometry under which its unfinished unit began. -/
structure LifetimeCodec where
  codec : HostInputCodec
  pendingEpoch : Option Nat
  pendingGeometry : Option Nat
  deriving DecidableEq, Repr

/-- Pointer reports of another geometry and input of another epoch are dropped; replies are not. -/
def LifetimeCodec.feedForLifetimes (c : LifetimeCodec) (v : Vendor) (bytes : List UInt8)
    (epoch current geometry currentGeometry : Nat) :
    Except DaemonError (List HostInputEvent × LifetimeCodec) := do
  let sourceGeometry := c.pendingGeometry.getD geometry
  let sourceEpoch := c.pendingEpoch.getD epoch
  let (events, codec) ← c.codec.feed v bytes
  let pendingEpoch := if codec.midUnit then some sourceEpoch else none
  let pendingGeometry := pendingEpoch.map fun _ => sourceGeometry
  let events := events.filter fun event =>
    match event with
    | .mouse _ => geometry = currentGeometry && sourceGeometry = currentGeometry
    | _ => true
  let events := events.filter fun event =>
    match event with
    | .terminalReply .. => true
    | _ => epoch = current && sourceEpoch = current
  return (events, ⟨codec, pendingEpoch, pendingGeometry⟩)

/-! ## Local commands -/

inductive LocalCommand where
  | detach
  | upload
  | cancelUpload
  deriving DecidableEq, Repr

def commandPrefixKey : Shortcut := .control ']'

def bindings : List (Shortcut × LocalCommand) :=
  [(.plain '.', .detach), (.plain 'v', .upload), (.plain 'c', .cancelUpload)]

def heldCommandKeys : Nat := 64

inductive PrefixAction where
  | input (event : HostInputEvent)
  | command (command : LocalCommand)
  deriving DecidableEq, Repr

inductive KeyInput where
  | legacy (byte : UInt8)
  | enhanced (key : EnhancedKey)

def KeyInput.matchesShortcut (input : KeyInput) (shortcut : Shortcut) : Bool :=
  match input with
  | legacy byte => shortcut.matchesLegacy byte
  | enhanced key => key.matchesShortcut shortcut

def KeyInput.identity : KeyInput → Option KeyIdentity
  | legacy byte => identityFromLegacy byte
  | enhanced key => some key.identity

inductive KeyRoute where
  | forward
  | consume
  | command (command : LocalCommand)
  deriving DecidableEq, Repr

/-- Whether a command key is awaited; within one instant its deadline does not pass. -/
structure CommandMode where
  pending : Bool
  ownedKeys : List KeyIdentity
  cancelledUtf8Tail : Nat
  deriving DecidableEq, Repr

namespace CommandMode

variable (m : CommandMode)

def new : CommandMode := ⟨false, [], 0⟩

def tooManyHeldKeys : DaemonError := ⟨.resourceExhausted, "too many held local command keys"⟩

/-- The release of an owned key is consumed, where releases are reported. -/
def own (input : KeyInput) (reportEvents : Bool) : Except DaemonError CommandMode :=
  if !reportEvents then .ok m
  else
    match input.identity with
    | none => .ok m
    | some identity =>
      if m.ownedKeys.length = heldCommandKeys then .error tooManyHeldKeys
      else .ok { m with ownedKeys := m.ownedKeys ++ [identity] }

/-- An index removed by moving the last entry into its place. -/
def swapRemove (keys : List KeyIdentity) (index : Nat) : List KeyIdentity :=
  match keys.getLast? with
  | none => keys
  | some last => (keys.set index last).dropLast

/-- A key that is no event of an owned one. -/
def freshKey (input : KeyInput) (reportEvents : Bool) :
    Except DaemonError (KeyRoute × CommandMode) :=
  if m.pending then
    let m := { m with pending := false }
    if input.matchesShortcut commandPrefixKey then .ok (.forward, m)
    else do
      let m ← m.own input reportEvents
      return ((bindings.find? fun (shortcut, _) => input.matchesShortcut shortcut).elim .consume
        fun (_, command) => .command command, m)
  else if input.matchesShortcut commandPrefixKey then do
    let m ← m.own input reportEvents
    return (.consume, { m with pending := true })
  else .ok (.forward, m)

def key (input : KeyInput) (reportEvents : Bool) : Except DaemonError (KeyRoute × CommandMode) :=
  match input with
  | .legacy byte =>
    let m := match identityFromLegacy byte with
      | some identity => { m with ownedKeys := m.ownedKeys.filter (· ≠ identity) }
      | none => m
    m.freshKey input reportEvents
  | .enhanced report =>
    match m.ownedKeys.findIdx? (· = report.identity) with
    | some index =>
      if report.kind = .repeat then .ok (.consume, m)
      else
        let m := { m with ownedKeys := swapRemove m.ownedKeys index }
        if report.kind = .release then .ok (.consume, m)
        else if report.isModifier then .ok (.forward, m)
        else m.freshKey input reportEvents
    | none =>
      if report.isModifier ∨ report.kind ≠ .press then .ok (.forward, m)
      else m.freshKey input reportEvents

/-- One byte of ordinary input: the actions so far and the ordinary bytes after them. -/
def feedByte (reportEvents : Bool) (s : List PrefixAction × List UInt8 × CommandMode)
    (byte : UInt8) : Except DaemonError (List PrefixAction × List UInt8 × CommandMode) :=
  let (actions, ordinary, m) := s
  if m.cancelledUtf8Tail ≠ 0 ∧ isTail byte then
    .ok (actions, ordinary, { m with cancelledUtf8Tail := m.cancelledUtf8Tail - 1 })
  else do
    let m := { m with cancelledUtf8Tail := 0 }
    let (route, m) ← m.key (.legacy byte) reportEvents
    match route with
    | .forward => return (actions, ordinary ++ [byte], m)
    | .consume => return (actions, ordinary, { m with cancelledUtf8Tail := tailLength byte })
    | .command command =>
      let flushed := if ordinary.isEmpty then [] else [.input (.forwardedBytes ordinary)]
      return (actions ++ flushed ++ [.command command], [], m)

def feed (bytes : List UInt8) (reportEvents : Bool) :
    Except DaemonError (List PrefixAction × CommandMode) := do
  let (actions, ordinary, m) ← bytes.foldlM (feedByte reportEvents) ([], [], m)
  return (actions ++ (if ordinary.isEmpty then [] else [.input (.forwardedBytes ordinary)]), m)

def routeKey (event : HostInputEvent) (input : KeyInput) (reportEvents : Bool) :
    Except DaemonError (List PrefixAction × CommandMode) := do
  let (route, m) ← m.key input reportEvents
  return (match route with
    | .forward => [.input event]
    | .consume => []
    | .command command => [.command command], m)

def pageKey (raw : List UInt8) (code : FunctionalKey) : EnhancedKey :=
  .functional raw code 0 .press

def route (event : HostInputEvent) (reportEvents : Bool) :
    Except DaemonError (List PrefixAction × CommandMode) :=
  match event with
  | .terminalReply .. => .ok ([], m)
  | .focusReport _ | .forwardedBytes _ => .ok ([.input event], m)
  | .bytes bytes => m.feed bytes reportEvents
  | .enhancedKey key => m.routeKey event (.enhanced key) reportEvents
  | .legacyCtrlC => m.routeKey event (.legacy 0x03) reportEvents
  | .pageUp => m.routeKey event (.enhanced (pageKey pageUpBytes .pageUp)) reportEvents
  | .pageDown => m.routeKey event (.enhanced (pageKey pageDownBytes .pageDown)) reportEvents
  | .opaqueBytes _ =>
    if m.pending then .ok ([], { m with pending := false }) else .ok ([.input event], m)
  | .paste _ | .mouse _ => .ok ([.input event], { m with pending := false })

end CommandMode

/-! ## A session's input -/

/-- What becomes of input: commands run, bytes for the child, and replies recognised. -/
structure Observed where
  commands : List LocalCommand
  forwarded : List UInt8
  replies : List HostReply
  deriving DecidableEq, Repr

namespace Observed

def none : Observed := ⟨[], [], []⟩

def append (a b : Observed) : Observed :=
  ⟨a.commands ++ b.commands, a.forwarded ++ b.forwarded, a.replies ++ b.replies⟩

end Observed

def HostInputEvent.childBytes : HostInputEvent → List UInt8
  | bytes bs | opaqueBytes bs | focusReport bs | forwardedBytes bs | paste bs => bs
  | legacyCtrlC => [0x03]
  | enhancedKey key => key.raw
  | pageUp => pageUpBytes
  | pageDown => pageDownBytes
  | mouse report => report.raw
  | terminalReply .. => []

def PrefixAction.observed : PrefixAction → Observed
  | input event => ⟨[], event.childBytes, []⟩
  | command run => ⟨[run], [], []⟩

/-- Input read so far; an error ends the session. -/
structure HostInput where
  codec : LifetimeCodec
  mode : CommandMode
  observed : Observed
  failed : Option DaemonError
  deriving DecidableEq, Repr

namespace HostInput

def new : HostInput := ⟨⟨.new, none, none⟩, .new, .none, none⟩

/-- One event: a reply is noted, anything else goes through the command mode. -/
def pass (reportEvents : Bool) (s : HostInput) (event : HostInputEvent) : HostInput :=
  if s.failed.isSome then s
  else
    match event with
    | .terminalReply reply _ =>
      if reply = .ignored then s
      else { s with observed := s.observed.append ⟨[], [], [reply]⟩ }
    | event =>
      match s.mode.route event reportEvents with
      | .error error => { s with failed := some error }
      | .ok (actions, mode) =>
        { s with
          mode := mode
          observed := actions.foldl (fun o action => o.append action.observed) s.observed }

/-- One chunk: all of it is cut into events before the first is acted on. -/
def receive (v : Vendor) (reportEvents : Bool) (epoch geometry : Nat) (s : HostInput)
    (chunk : List UInt8) : HostInput :=
  if s.failed.isSome then s
  else
    match s.codec.feedForLifetimes v chunk epoch epoch geometry geometry with
    | .error error => { s with failed := some error }
    | .ok (events, codec) => events.foldl (pass reportEvents) { s with codec := codec }

def receiveAll (v : Vendor) (reportEvents : Bool) (epoch geometry : Nat)
    (chunks : List (List UInt8)) : HostInput :=
  chunks.foldl (receive v reportEvents epoch geometry) new

end HostInput

end Voytty.Cli
