import Voytty.Terminal.ColorState

/-!
# The terminal engine

`terminal/src/engine.rs` and `terminal/src/hyperlinks.rs`: the only boundary
around the emulator. `Emulator` is the emulator itself, a function of the byte
strings fed to it; `Term` is the part of its state the crate reads, with the
rest in `hidden`. The engine adds the title, the colours, the combining-mark
budget, the link table and a bounded event buffer.

`fed` records every byte string handed to the emulator, oldest first.
-/

namespace Voytty.Terminal

open Voytty.Lib

/-! ## The emulator's visible state -/

inductive NamedColor where
  | black | red | green | yellow | blue | magenta | cyan | white
  | brightBlack | brightRed | brightGreen | brightYellow | brightBlue | brightMagenta
  | brightCyan | brightWhite
  | dimBlack | dimRed | dimGreen | dimYellow | dimBlue | dimMagenta | dimCyan | dimWhite
  | foreground | background | cursor | brightForeground | dimForeground
  deriving DecidableEq, Repr

inductive Color where
  | named (color : NamedColor)
  | spec (r g b : UInt8)
  | indexed (n : UInt8)
  deriving DecidableEq, Repr

structure Flags where
  wideChar : Bool := false
  wideCharSpacer : Bool := false
  wrapline : Bool := false
  bold : Bool := false
  dim : Bool := false
  italic : Bool := false
  underline : Bool := false
  doubleUnderline : Bool := false
  undercurl : Bool := false
  dottedUnderline : Bool := false
  dashedUnderline : Bool := false
  inverse : Bool := false
  strikeout : Bool := false
  hidden : Bool := false
  deriving DecidableEq, Repr

/-- The emulator's own link value. -/
structure Hyperlink where
  id : List Char
  uri : List Char
  deriving DecidableEq, Repr

structure Cell where
  c : Char := ' '
  fg : Color := .named .foreground
  bg : Color := .named .background
  flags : Flags := {}
  zerowidth : List Char := []
  underlineColor : Option Color := none
  hyperlink : Option Hyperlink := none
  deriving DecidableEq, Repr

structure TermMode where
  showCursor : Bool := true
  appCursor : Bool := false
  appKeypad : Bool := false
  origin : Bool := false
  lineWrap : Bool := true
  insert : Bool := false
  lineFeedNewLine : Bool := false
  altScreen : Bool := false
  mouseReportClick : Bool := false
  mouseDrag : Bool := false
  mouseMotion : Bool := false
  focusInOut : Bool := false
  utf8Mouse : Bool := false
  sgrMouse : Bool := false
  alternateScroll : Bool := false
  bracketedPaste : Bool := false
  disambiguateEscCodes : Bool := false
  reportEventTypes : Bool := false
  reportAlternateKeys : Bool := false
  reportAllKeysAsEsc : Bool := false
  reportAssociatedText : Bool := false
  deriving DecidableEq, Repr

inductive CursorShape where
  | block | beam | underline | hollowBlock | hidden
  deriving DecidableEq, Repr

structure GridCursor where
  line : Int := 0
  column : Nat := 0
  inputNeedsWrap : Bool := false
  template : Cell := {}
  deriving DecidableEq, Repr

/-- The emulator's state: what the crate reads, and the rest. -/
structure Term (R : Type) where
  mode : TermMode
  cursorShape : CursorShape
  cursorBlinking : Bool
  cursor : GridCursor
  savedTemplate : Cell
  screenLines : Nat
  columns : Nat
  historySize : Nat
  /-- The active grid; negative lines are history. -/
  cell : Int → Nat → Cell
  hidden : R

inductive Event where
  | bell | clipboardStore | clipboardLoad | title | resetTitle | ptyWrite | colorRequest
  | textAreaSizeRequest | mouseCursorDirty | cursorBlinkingChange | wakeup | exit | childExit
  deriving DecidableEq, Repr

/-- The emulator, with the other library functions. -/
structure Emulator (R : Type) extends Vendor where
  init : TerminalSize → Nat → Term R
  advance : Term R → List UInt8 → Term R × List Event
  resize : Term R → TerminalSize → Term R

namespace Term

variable {R : Type} (t : Term R)

def lines : List Int :=
  (List.range (t.historySize + t.screenLines)).map fun i => (i : Int) - t.historySize

def cells : List Cell := t.lines.flatMap fun line => (List.range t.columns).map (t.cell line)

def setTemplateHyperlink (link : Option Hyperlink) : Term R :=
  { t with cursor := { t.cursor with template := { t.cursor.template with hyperlink := link } } }

end Term

/-! ## Side events -/

inductive RejectedEffect where
  | clipboardRead
  | clipboardWrite
  deriving DecidableEq, Repr

inductive UnsupportedSequenceKind where
  | character
  | control
  | escape
  | csi
  | osc
  deriving DecidableEq, Repr

inductive TerminalSideEvent where
  | audibleBell
  | visualBell
  | resizeRequested (size : TerminalSize)
  | titleChanged (title : List Char) (truncated : Bool)
  | iconNameChanged (iconName : List Char) (truncated : Bool)
  | effectRejected (effect : RejectedEffect)
  | unsupportedSequence (kind : UnsupportedSequenceKind)
  | eventsDropped (count : Nat)
  deriving DecidableEq, Repr

def maxSideEventsPerUpdate : Nat := 32

structure EventBuffer where
  events : List TerminalSideEvent := []
  dropped : Nat := 0
  deriving DecidableEq, Repr

namespace EventBuffer

def push (b : EventBuffer) (event : TerminalSideEvent) : EventBuffer :=
  if b.events.length < maxSideEventsPerUpdate then { b with events := b.events ++ [event] }
  else { b with dropped := saturatingSucc b.dropped }

def finish (b : EventBuffer) : List TerminalSideEvent :=
  if b.dropped = 0 then b.events
  else if b.events.length = maxSideEventsPerUpdate then
    b.events.dropLast ++ [.eventsDropped (saturatingSucc b.dropped)]
  else b.events ++ [.eventsDropped b.dropped]

end EventBuffer

def sendEvent : Event → Option TerminalSideEvent
  | .bell => some .audibleBell
  | .clipboardStore => some (.effectRejected .clipboardWrite)
  | .clipboardLoad => some (.effectRejected .clipboardRead)
  | .title | .resetTitle => some (.unsupportedSequence .osc)
  | .ptyWrite | .colorRequest | .textAreaSizeRequest => some (.unsupportedSequence .csi)
  | .mouseCursorDirty | .cursorBlinkingChange | .wakeup | .exit | .childExit => none

/-! ## Budgets and links -/

def maxCombiningBytesPerSession : Nat := 64 * 1024

def maxCombiningCellsPerSession : Nat := 4096

structure ScreenCombiningBudget where
  bytes : Nat := 0
  cells : Nat := 0
  deriving DecidableEq, Repr

structure CombiningBudget where
  main : ScreenCombiningBudget := {}
  alternate : ScreenCombiningBudget := {}
  deriving DecidableEq, Repr

namespace CombiningBudget

def totalBytes (b : CombiningBudget) : Nat := b.main.bytes + b.alternate.bytes

def totalCells (b : CombiningBudget) : Nat := b.main.cells + b.alternate.cells

def screen (b : CombiningBudget) : ActiveScreen → ScreenCombiningBudget
  | .main => b.main
  | .alternate => b.alternate

def setScreen (b : CombiningBudget) (s : ActiveScreen) (v : ScreenCombiningBudget) :
    CombiningBudget :=
  match s with
  | .main => { b with main := v }
  | .alternate => { b with alternate := v }

end CombiningBudget

def maxTerminalHyperlinks : Nat := 1024

def maxTerminalHyperlinkBytes : Nat := 1024 * 1024

def maxTerminalHyperlinkUriBytes : Nat := 1024

def maxTerminalHyperlinkIdBytes : Nat := 128

/-- The link table, and the links each screen used when last reconciled. -/
structure Hyperlinks where
  values : List (Hyperlink × TerminalHyperlink) := []
  main : List Hyperlink := []
  alternate : List Hyperlink := []
  bytes : Nat := 0
  nextId : Nat := 0
  deriving DecidableEq, Repr

namespace TerminalHyperlink

/-- A validated link with its canonical target. -/
def new (v : Vendor) (id uri : List Char) : Option TerminalHyperlink :=
  if byteLen id > maxTerminalHyperlinkIdBytes ∨
      id.any (fun c => isControl c || c == ':' || c == ';') ∨
      byteLen uri > maxTerminalHyperlinkUriBytes ∨ uri.any isControl then none
  else
    match v.webUrl uri with
    | none => none
    | some canonical =>
      if byteLen canonical > maxTerminalHyperlinkUriBytes then none else some ⟨id, canonical⟩

def payloadBytes (l : TerminalHyperlink) : Nat := byteLen l.id + byteLen l.uri

end TerminalHyperlink

/-! ## The engine -/

structure AlacrittyEngine (R : Type) where
  applicationTitle : List Char
  colors : VoyttyColorState
  gridInput : Bool
  term : Term R
  sink : EventBuffer
  legacyX10Mouse : Bool
  combining : CombiningBudget
  hyperlinks : Hyperlinks
  fed : List (List UInt8)

namespace AlacrittyEngine

variable {R : Type} (em : Emulator R) (e : AlacrittyEngine R)

def activeScreen : ActiveScreen := if e.term.mode.altScreen then .alternate else .main

def size : TerminalSize := ⟨saturateU16 e.term.screenLines, saturateU16 e.term.columns⟩

def combiningUsage : ScreenCombiningBudget :=
  let marked := e.term.cells.filter fun cell => !cell.zerowidth.isEmpty
  ⟨(marked.map fun cell => byteLen cell.zerowidth).sum, marked.length⟩

def reconcileActiveCombiningBudget : AlacrittyEngine R :=
  { e with combining := e.combining.setScreen e.activeScreen e.combiningUsage }

def reconcileHyperlinks : AlacrittyEngine R :=
  let current := e.term.cells.filterMap (·.hyperlink) ++ e.term.cursor.template.hyperlink.toList ++
    e.term.savedTemplate.hyperlink.toList
  let links := match e.activeScreen with
    | .main => { e.hyperlinks with main := current }
    | .alternate => { e.hyperlinks with alternate := current }
  let values := links.values.filter fun p => p.1 ∈ links.main ∨ p.1 ∈ links.alternate
  { e with hyperlinks := { links with
      values := values
      bytes := (values.map fun p => p.2.payloadBytes).sum } }

/-- The processor's own step: the emulator consumes `bytes` and its events are buffered. -/
def advance (bytes : List UInt8) : AlacrittyEngine R :=
  let (term, events) := em.advance e.term bytes
  { e with
    gridInput := true
    term := term
    sink := (events.filterMap sendEvent).foldl EventBuffer.push e.sink
    fed := e.fed ++ [bytes] }

def feedRaw (bytes : List UInt8) : AlacrittyEngine R :=
  let e' := e.advance em bytes
  if e'.activeScreen ≠ e.activeScreen then e'.reconcileActiveCombiningBudget else e'

def feedScreenTransition (bytes : List UInt8) : AlacrittyEngine R :=
  ((e.reconcileHyperlinks.reconcileActiveCombiningBudget.advance em bytes
    ).reconcileActiveCombiningBudget).reconcileHyperlinks

def feedReset (bytes : List UInt8) : AlacrittyEngine R :=
  let e := { e with colors := e.colors.reset, applicationTitle := [] }
  let e := e.advance em bytes
  reconcileActiveCombiningBudget
    { e with legacyX10Mouse := false, combining := {}, hyperlinks := {} }

/-- On the alternate screen a shrink clips the bottom, so the caret is clamped first. -/
def clampCursor (size : TerminalSize) : AlacrittyEngine R :=
  if e.activeScreen = .alternate ∧ size.rows < e.term.screenLines then
    { e with term := { e.term with
        cursor := { e.term.cursor with line := min e.term.cursor.line ((size.rows : Int) - 1) } } }
  else e

def resize (size : TerminalSize) : AlacrittyEngine R :=
  let e := e.reconcileActiveCombiningBudget.clampCursor size
  let e := { e with term := em.resize e.term size }
  e.reconcileActiveCombiningBudget.reconcileHyperlinks

def takeEvents : List TerminalSideEvent × AlacrittyEngine R := (e.sink.finish, { e with sink := {} })

def blank (size : TerminalSize) (scrollbackRows : Nat) : AlacrittyEngine R where
  applicationTitle := []
  colors := .default
  gridInput := false
  term := em.init size scrollbackRows
  sink := {}
  legacyX10Mouse := false
  combining := {}
  hyperlinks := {}
  fed := []

def alternateScrollOff : List UInt8 := [0x1b, 0x5b, 0x3f, 0x31, 0x30, 0x30, 0x37, 0x6c]

/-- Alternate scroll is on by default in the emulator and off in the public contract. -/
def new (size : TerminalSize) (scrollbackRows : Nat) : AlacrittyEngine R :=
  ((blank em size scrollbackRows).feedRaw em alternateScrollOff).takeEvents.2

def keyboardModeBits : Nat :=
  let m := e.term.mode
  m.disambiguateEscCodes.toNat + 2 * m.reportEventTypes.toNat + 4 * m.reportAlternateKeys.toNat +
    8 * m.reportAllKeysAsEsc.toNat + 16 * m.reportAssociatedText.toNat

def modeEnabled (mode : Nat) (isPrivate : Bool) : Option Bool :=
  let m := e.term.mode
  if isPrivate then
    match mode with
    | 5 => some e.colors.reverse
    | 2031 => some e.colors.subscribed
    | 9 => some e.legacyX10Mouse
    | 1 => some m.appCursor
    | 6 => some m.origin
    | 7 => some m.lineWrap
    | 12 => some e.term.cursorBlinking
    | 25 => some m.showCursor
    | 47 | 1047 | 1049 => some m.altScreen
    | 1000 => some m.mouseReportClick
    | 1002 => some m.mouseDrag
    | 1003 => some m.mouseMotion
    | 1004 => some m.focusInOut
    | 1005 => some m.utf8Mouse
    | 1006 => some m.sgrMouse
    | 1007 => some m.alternateScroll
    | 2004 => some m.bracketedPaste
    | _ => none
  else
    match mode with
    | 4 => some m.insert
    | 20 => some m.lineFeedNewLine
    | _ => none

def reportMode (mode : Nat) (isPrivate : Bool) : Nat :=
  match e.modeEnabled mode isPrivate with
  | none => 0
  | some true => 1
  | some false => 2

def cursorReport (isPrivate : Bool) : List Char :=
  let row := min e.term.cursor.line.toNat (e.term.screenLines - 1) + 1
  let column := min e.term.cursor.column (e.term.columns - 1) + 1
  "\x1b[".toList ++ (if isPrivate then ['?'] else []) ++ decimal row ++ [';'] ++ decimal column ++
    ['R']

/-- The cell a combining mark would join: its text bytes, and whether it has no mark yet. -/
def combiningTarget : Nat × Bool :=
  let cursor := e.term.cursor
  let column := if cursor.inputNeedsWrap then cursor.column else cursor.column - 1
  let column :=
    if (e.term.cell cursor.line column).flags.wideCharSpacer then column - 1 else column
  let cell := e.term.cell cursor.line column
  (cell.c.utf8Size + byteLen cell.zerowidth, cell.zerowidth.isEmpty)

def combiningLimitExceeded (characterBytes : Nat) (createsCell : Bool) : Bool :=
  e.combining.totalBytes + characterBytes > maxCombiningBytesPerSession ||
    (createsCell && e.combining.totalCells ≥ maxCombiningCellsPerSession)

def chargeCombining (characterBytes : Nat) (createsCell : Bool) : AlacrittyEngine R :=
  let budget := e.combining.screen e.activeScreen
  let charged : ScreenCombiningBudget :=
    ⟨budget.bytes + characterBytes, if createsCell then budget.cells + 1 else budget.cells⟩
  { e with combining := e.combining.setScreen e.activeScreen charged }

/-- Whether a character may be printed; a zero-width one is charged to the budget. -/
def acceptCharacter (character : Char) : Bool × AlacrittyEngine R :=
  if em.charWidth character ≠ some 0 then (true, e) else
  let (existingBytes, createsCell) := e.combiningTarget
  let characterBytes := character.utf8Size
  if existingBytes + characterBytes > maxCellTextBytes then (false, e)
  else if e.combiningLimitExceeded characterBytes createsCell then
    -- printing may have overwritten cells since the last accounting: recount before refusing
    let e := e.reconcileActiveCombiningBudget
    if e.combiningLimitExceeded characterBytes createsCell then (false, e)
    else (true, e.chargeCombining characterBytes createsCell)
  else (true, e.chargeCombining characterBytes createsCell)

/-! ### Links -/

def setTemplate (link : Option Hyperlink) : AlacrittyEngine R :=
  { e with term := e.term.setTemplateHyperlink link }

def closeHyperlink : AlacrittyEngine R := e.setTemplate none

/-- The explicit nonempty `id=` parameter of a link. -/
def explicitId (params : List Char) : Option (List Char) :=
  match (params.splitOn ':').findSome? (stripPre "id=".toList) with
  | some [] => none
  | id => id

/-- A link's identity: explicit, or generated from the next number. -/
def linkId (params : List Char) : Option (List Char × AlacrittyEngine R) :=
  match explicitId params with
  | some id => some (id, e)
  | none =>
    match checkedNext e.hyperlinks.nextId with
    | none => none
    | some next => some ("voytty-auto-".toList ++ decimal next,
        { e with hyperlinks := { e.hyperlinks with nextId := next } })

def linksFull (value : TerminalHyperlink) : Bool :=
  e.hyperlinks.values.length ≥ maxTerminalHyperlinks ||
    e.hyperlinks.bytes + value.payloadBytes > maxTerminalHyperlinkBytes

/-- Makes a validated link current, retaining it if it is new and fits. -/
def installLink (value : TerminalHyperlink) : Bool × AlacrittyEngine R :=
  let candidate : Hyperlink := ⟨value.id, value.uri⟩
  if (e.hyperlinks.values.lookup candidate).isSome then (true, e.setTemplate (some candidate))
  else
    let e := if e.linksFull value then e.reconcileHyperlinks else e
    if e.linksFull value then (false, e)
    else
      let e := { e with hyperlinks := { e.hyperlinks with
        bytes := e.hyperlinks.bytes + value.payloadBytes
        values := e.hyperlinks.values ++ [(candidate, value)] } }
      (true, e.setTemplate (some candidate))

/-- OSC 8: whether the link was accepted, and the engine after it. -/
def setWebHyperlink (payload : List Char) : Bool × AlacrittyEngine R :=
  let e := e.closeHyperlink
  match splitOnce ';' payload with
  | none => (false, e)
  | some (params, uri) =>
    if uri.isEmpty then (true, e) else
    match e.linkId params with
    | none => (false, e)
    | some (id, e) =>
      match TerminalHyperlink.new em.toVendor id uri with
      | none => (false, e)
      | some value => e.installLink value

def cellHyperlink (cell : Cell) : Option TerminalHyperlink :=
  match cell.hyperlink with
  | none => none
  | some link => e.hyperlinks.values.lookup link

/-! ### What the operations change -/

theorem acceptCharacter_frame (c : Char) :
    ∃ combining, (e.acceptCharacter em c).2 = { e with combining } := by
  unfold acceptCharacter
  split
  · exact ⟨_, rfl⟩
  dsimp only
  repeat' split
  all_goals exact ⟨_, rfl⟩

theorem linkId_frame {params id : List Char} {e' : AlacrittyEngine R}
    (h : e.linkId params = some (id, e')) : ∃ hyperlinks, e' = { e with hyperlinks } := by
  unfold linkId at h
  split at h
  · cases h; exact ⟨_, rfl⟩
  split at h
  · cases h
  · cases h; exact ⟨_, rfl⟩

theorem installLink_frame (value : TerminalHyperlink) :
    (∃ hyperlinks, (e.installLink value).2 = { e with hyperlinks }) ∨
      ∃ hyperlinks link, (e.installLink value).2 = { e with
        hyperlinks, term := e.term.setTemplateHyperlink link } := by
  unfold installLink
  dsimp only
  have hfull : ∃ hyperlinks,
      (if e.linksFull value then e.reconcileHyperlinks else e) = { e with hyperlinks } := by
    split <;> exact ⟨_, rfl⟩
  obtain ⟨hyperlinks, hfull⟩ := hfull
  rw [hfull]
  split
  · exact .inr ⟨_, _, rfl⟩
  split
  · exact .inl ⟨_, rfl⟩
  · exact .inr ⟨_, _, rfl⟩

/-- OSC 8 changes the link table and the template's link only. -/
theorem setWebHyperlink_frame (payload : List Char) :
    ∃ hyperlinks link, (e.setWebHyperlink em payload).2 = { e with
      hyperlinks, term := e.term.setTemplateHyperlink link } := by
  unfold setWebHyperlink
  dsimp only
  split
  · exact ⟨_, none, rfl⟩
  split
  · exact ⟨_, none, rfl⟩
  split
  · exact ⟨_, none, rfl⟩
  rename_i hid
  obtain ⟨links, rfl⟩ := e.closeHyperlink.linkId_frame hid
  split
  · exact ⟨_, none, rfl⟩
  · rename_i value _
    rcases installLink_frame { e.closeHyperlink with hyperlinks := links } value with
      ⟨l, h⟩ | ⟨l, link, h⟩
    · exact ⟨l, none, h⟩
    · exact ⟨l, link, h⟩

theorem feedRaw_frame (bytes : List UInt8) :
    ∃ combining, e.feedRaw em bytes = { e.advance em bytes with combining } := by
  unfold feedRaw
  dsimp only
  split <;> exact ⟨_, rfl⟩

theorem feedScreenTransition_frame (bytes : List UInt8) :
    ∃ combining hyperlinks,
      e.feedScreenTransition em bytes = { e.advance em bytes with combining, hyperlinks } :=
  ⟨_, _, rfl⟩

theorem feedReset_frame (bytes : List UInt8) :
    ∃ combining, e.feedReset em bytes = { e.advance em bytes with
      colors := e.colors.reset, applicationTitle := [], legacyX10Mouse := false
      combining, hyperlinks := {} } :=
  ⟨_, rfl⟩

theorem resize_frame (size : TerminalSize) :
    ∃ cursor combining hyperlinks, e.resize em size = { e with
      term := em.resize { e.term with cursor } size, combining, hyperlinks } := by
  unfold resize clampCursor
  dsimp only
  split <;> exact ⟨_, _, _, rfl⟩

end AlacrittyEngine

end Voytty.Terminal
