import Voytty.Terminal.Engine

/-!
# Projection of the engine into a semantic screen

`terminal/src/projection.rs`. A cell's text is inline and bounded by
construction (`InlineCellText`). A wide head or spacer without its partner
projects to a styled blank, so every projected row passes the client's row
check whenever the emulator's cells are well formed (`projectRow_valid`).
-/

namespace Voytty.Terminal

open Voytty.Lib

def checkpointFormatVersion : Nat := 7

/-- Cell text of at most `maxCellTextBytes` encoded bytes. -/
structure InlineCellText where
  chars : List Char
  fits : byteLen chars ≤ maxCellTextBytes
  deriving DecidableEq

namespace InlineCellText

def empty : InlineCellText := ⟨[], Nat.zero_le _⟩

def push (t : InlineCellText) (character : Char) : Bool × InlineCellText :=
  if h : byteLen t.chars + character.utf8Size ≤ maxCellTextBytes then
    (true, ⟨t.chars ++ [character], by simpa using h⟩)
  else (false, t)

/-- Appends characters up to the first that does not fit. -/
def pushAll (t : InlineCellText) : List Char → InlineCellText
  | [] => t
  | c :: cs =>
    match t.push c with
    | (true, t) => t.pushAll cs
    | (false, t) => t

end InlineCellText

structure ProjectedCell where
  hyperlink : Option TerminalHyperlink
  text : InlineCellText
  wide : Bool
  wideContinuation : Bool
  style : TerminalStyle
  deriving DecidableEq

def ProjectedCell.toPublic (p : ProjectedCell) : TerminalCell :=
  ⟨p.hyperlink, p.text.chars, p.wide, p.wideContinuation, p.style⟩

structure ProjectedRow where
  cells : List ProjectedCell
  wrapped : Bool
  deriving DecidableEq

def ProjectedRow.toSurfaceRow (r : ProjectedRow) : TerminalSurfaceRow :=
  ⟨r.cells.map ProjectedCell.toPublic, r.wrapped⟩

structure ProjectedScreen where
  applicationTitle : List Char
  colors : TerminalColorSnapshot
  version : Nat
  size : TerminalSize
  activeScreen : ActiveScreen
  rows : List ProjectedRow
  cursor : TerminalCursor
  modes : TerminalModes
  deriving DecidableEq

def ProjectedScreen.toSurface (p : ProjectedScreen) (scrollMetrics : Option TerminalScrollMetrics) :
    TerminalSurface where
  applicationTitle := p.applicationTitle
  colors := p.colors
  size := p.size
  activeScreen := p.activeScreen
  rows := p.rows.map ProjectedRow.toSurfaceRow
  cursor := p.cursor
  modes := p.modes
  scrollMetrics := scrollMetrics

/-! ## Colours, styles and modes -/

def namedColor : NamedColor → TerminalColor
  | .black | .dimBlack => .indexed 0
  | .red | .dimRed => .indexed 1
  | .green | .dimGreen => .indexed 2
  | .yellow | .dimYellow => .indexed 3
  | .blue | .dimBlue => .indexed 4
  | .magenta | .dimMagenta => .indexed 5
  | .cyan | .dimCyan => .indexed 6
  | .white | .dimWhite => .indexed 7
  | .brightBlack => .indexed 8
  | .brightRed => .indexed 9
  | .brightGreen => .indexed 10
  | .brightYellow => .indexed 11
  | .brightBlue => .indexed 12
  | .brightMagenta => .indexed 13
  | .brightCyan => .indexed 14
  | .brightWhite => .indexed 15
  | .foreground | .background | .cursor | .brightForeground | .dimForeground => .default

def terminalColor : Color → TerminalColor
  | .indexed n => .indexed n
  | .spec r g b => .rgb r g b
  | .named c => namedColor c

def terminalStyle (cell : Cell) : TerminalStyle where
  foreground := terminalColor cell.fg
  background := terminalColor cell.bg
  bold := cell.flags.bold
  dim := cell.flags.dim
  italic := cell.flags.italic
  underline :=
    if cell.flags.doubleUnderline then .double
    else if cell.flags.undercurl then .curly
    else if cell.flags.dottedUnderline then .dotted
    else if cell.flags.dashedUnderline then .dashed
    else if cell.flags.underline then .single
    else .none
  underlineColor := (cell.underlineColor.map terminalColor).getD .default
  inverse := cell.flags.inverse
  strike := cell.flags.strikeout
  conceal := cell.flags.hidden

variable {R : Type}

def terminalModes (e : AlacrittyEngine R) : TerminalModes where
  applicationKeypad := e.term.mode.appKeypad
  applicationCursor := e.term.mode.appCursor
  bracketedPaste := e.term.mode.bracketedPaste
  focusReporting := e.term.mode.focusInOut
  alternateScroll := e.term.mode.alternateScroll
  mouseMode :=
    if e.term.mode.mouseMotion then .anyMotion
    else if e.term.mode.mouseDrag then .buttonMotion
    else if e.term.mode.mouseReportClick then .pressRelease
    else if e.legacyX10Mouse then .press
    else .none
  mouseEncoding :=
    if e.term.mode.sgrMouse then .sgr
    else if e.term.mode.utf8Mouse then .utf8
    else .default
  keyboardFlags := e.keyboardModeBits

/-! ## Rows -/

def Flags.isHead (f : Flags) : Bool := f.wideChar && !f.wideCharSpacer

def Flags.isSpacer (f : Flags) : Bool := f.wideCharSpacer && !f.wideChar

/-- Whether the wide flags at `column` have their partner beside them. -/
def wideFlagsPaired (t : Term R) (line : Int) (column : Nat) : Bool :=
  let flags := (t.cell line column).flags
  if flags.isHead then
    column + 1 < t.columns && (t.cell line (column + 1)).flags.isSpacer
  else if flags.isSpacer then
    column > 0 && (t.cell line (column - 1)).flags.isHead
  else !flags.wideChar && !flags.wideCharSpacer

def projectedCell (cell : Cell) (paired : Bool) : ProjectedCell :=
  let style := terminalStyle cell
  -- a fragment of a clipped wide character is a styled blank, never an invalid pair
  if !paired then
    { hyperlink := none
      text := if style ≠ {} then (InlineCellText.empty.push ' ').2 else .empty
      wide := false
      wideContinuation := false
      style := style }
  else
    let wide := cell.flags.wideChar
    let wideContinuation := cell.flags.wideCharSpacer
    let defaultBlank := cell.c == ' ' && cell.zerowidth.isEmpty && style == {} && !wide &&
      !wideContinuation
    let base := if !defaultBlank && !wideContinuation && !isControl cell.c then
        (InlineCellText.empty.push cell.c).2
      else .empty
    { hyperlink := none
      text := base.pushAll cell.zerowidth
      wide := wide
      wideContinuation := wideContinuation
      style := style }

def projectCellAt (e : AlacrittyEngine R) (line : Int) (column : Nat) : ProjectedCell :=
  let cell := e.term.cell line column
  let paired := wideFlagsPaired e.term line column
  let projected := projectedCell cell paired
  if paired then { projected with hyperlink := e.cellHyperlink cell } else projected

def projectRow (e : AlacrittyEngine R) (line : Int) : ProjectedRow where
  cells := (List.range e.term.columns).map (projectCellAt e line)
  wrapped := e.term.columns > 0 && (e.term.cell line (e.term.columns - 1)).flags.wrapline

def projectCursor (e : AlacrittyEngine R) : TerminalCursor where
  shape := match e.term.cursorShape with
    | .beam => .beam
    | .underline => .underline
    | _ => .block
  blinking := e.term.cursorBlinking
  row := saturateU16 (min e.term.cursor.line.toNat (e.size.rows - 1))
  column := saturateU16 (min e.term.cursor.column (e.size.columns - 1))
  visible := e.term.mode.showCursor
  style := terminalStyle e.term.cursor.template

def project (e : AlacrittyEngine R) : ProjectedScreen where
  applicationTitle := e.applicationTitle
  colors := e.colors.snapshot
  version := checkpointFormatVersion
  size := e.size
  activeScreen := e.activeScreen
  rows := (List.range e.size.rows).map fun row => projectRow e row
  cursor := projectCursor e
  modes := terminalModes e

/-! ## Projected rows are valid -/

/-- What the emulator keeps of its cells: no control character in a wide head or among combining
marks, and no mark on a spacer. -/
structure Cell.WellFormed (cell : Cell) : Prop where
  head : cell.flags.wideChar = true → isControl cell.c = false
  marks : ∀ c ∈ cell.zerowidth, isControl c = false
  spacer : cell.flags.wideCharSpacer = true → cell.zerowidth = []

def Term.WellFormed (t : Term R) : Prop := ∀ line column, (t.cell line column).WellFormed

theorem InlineCellText.empty_push (c : Char) : (InlineCellText.empty.push c).2.chars = [c] := by
  have : byteLen InlineCellText.empty.chars + c.utf8Size ≤ maxCellTextBytes := by
    have := c.utf8Size_le_four
    simp only [empty, byteLen_nil, maxCellTextBytes]; omega
  unfold push
  rw [dif_pos this]
  rfl

theorem InlineCellText.pushAll_chars (t : InlineCellText) (cs : List Char) :
    ∃ kept, kept <+: cs ∧ (t.pushAll cs).chars = t.chars ++ kept := by
  induction cs generalizing t with
  | nil => exact ⟨[], List.nil_prefix, by simp [pushAll]⟩
  | cons c cs ih =>
    unfold pushAll
    split
    · rename_i t' hp
      have hc : t'.chars = t.chars ++ [c] := by
        unfold push at hp
        split at hp
        · cases hp; rfl
        · cases hp
      obtain ⟨kept, hk, he⟩ := ih t'
      exact ⟨c :: kept, List.cons_prefix_cons.mpr ⟨rfl, hk⟩, by simp [he, hc]⟩
    · rename_i t' hp
      have hc : t' = t := by
        unfold push at hp
        split at hp
        · cases hp
        · cases hp; rfl
      exact ⟨[], List.nil_prefix, by simp [hc]⟩

variable {cell : Cell} {line : Int}

theorem projectedCell_printable (hw : cell.WellFormed) (paired : Bool) :
    (projectedCell cell paired).text.chars.any isControl = false := by
  rw [List.any_eq_false]
  intro c hc
  unfold projectedCell at hc
  dsimp only at hc
  split at hc
  · dsimp only at hc
    split at hc
    · rw [InlineCellText.empty_push, List.mem_singleton] at hc
      subst hc; decide
    · simp [InlineCellText.empty] at hc
  · dsimp only at hc
    obtain ⟨kept, hk, he⟩ := InlineCellText.pushAll_chars
      (if !(cell.c == ' ' && cell.zerowidth.isEmpty && terminalStyle cell == {} &&
          !cell.flags.wideChar && !cell.flags.wideCharSpacer) && !cell.flags.wideCharSpacer &&
          !isControl cell.c then (InlineCellText.empty.push cell.c).2 else .empty) cell.zerowidth
    rw [he, List.mem_append] at hc
    rcases hc with hc | hc
    · split at hc
      · rename_i hb
        rw [InlineCellText.empty_push, List.mem_singleton] at hc
        subst hc
        simp only [Bool.and_eq_true, Bool.not_eq_true'] at hb
        simp [hb.2]
      · simp [InlineCellText.empty] at hc
    · simp [hw.marks c (hk.subset hc)]

theorem projectedCell_head (hw : cell.WellFormed) (hh : cell.flags.isHead = true) :
    (projectedCell cell true).text.chars ≠ [] := by
  simp only [Flags.isHead, Bool.and_eq_true, Bool.not_eq_true'] at hh
  have hc := hw.head hh.1
  simp only [projectedCell, Bool.not_true, Bool.false_eq_true, ↓reduceIte, hh.1, hh.2, hc,
    Bool.and_false, Bool.not_false, Bool.and_true, Bool.and_self]
  obtain ⟨kept, -, he⟩ := InlineCellText.pushAll_chars (InlineCellText.empty.push cell.c).2
    cell.zerowidth
  rw [he, InlineCellText.empty_push]
  simp

theorem projectedCell_spacer (hw : cell.WellFormed) (hs : cell.flags.isSpacer = true) :
    (projectedCell cell true).text.chars = [] := by
  simp only [Flags.isSpacer, Bool.and_eq_true, Bool.not_eq_true'] at hs
  simp [projectedCell, hs.1, hw.spacer hs.1, InlineCellText.pushAll, InlineCellText.empty]

/-- The wide flags of a projected cell are those of a paired cell, or none. -/
theorem projectCellAt_flags (e : AlacrittyEngine R) (line : Int) (column : Nat) :
    (projectCellAt e line column).wide =
      (wideFlagsPaired e.term line column && (e.term.cell line column).flags.wideChar) ∧
    (projectCellAt e line column).wideContinuation =
      (wideFlagsPaired e.term line column && (e.term.cell line column).flags.wideCharSpacer) ∧
    (projectCellAt e line column).text =
      (projectedCell (e.term.cell line column) (wideFlagsPaired e.term line column)).text := by
  unfold projectCellAt
  dsimp only
  cases hp : wideFlagsPaired e.term line column <;> simp [projectedCell]

theorem projectRow_cell (e : AlacrittyEngine R) (line : Int) (column : Nat) :
    (projectRow e line).toSurfaceRow.cells[column]? =
      if column < e.term.columns then some (projectCellAt e line column).toPublic else none := by
  simp only [projectRow, ProjectedRow.toSurfaceRow, List.map_map, List.getElem?_map]
  by_cases h : column < e.term.columns
  · simp [h]
  · simp [h]

theorem wideFlagsPaired_head {t : Term R} {column : Nat}
    (hh : (t.cell line column).flags.isHead = true) (hp : wideFlagsPaired t line column = true) :
    column + 1 < t.columns ∧ (t.cell line (column + 1)).flags.isSpacer = true ∧
      wideFlagsPaired t line (column + 1) = true := by
  simp only [wideFlagsPaired, hh, ↓reduceIte, Bool.and_eq_true, decide_eq_true_eq] at hp
  have hs := hp.2
  refine ⟨hp.1, hs, ?_⟩
  have hn : (t.cell line (column + 1)).flags.isHead = false := by
    simp only [Flags.isSpacer, Flags.isHead, Bool.and_eq_true, Bool.not_eq_true'] at hs ⊢
    simp [hs.1]
  simp [wideFlagsPaired, hn, hs, hh]

theorem wideFlagsPaired_spacer {t : Term R} {column : Nat} (hc : column < t.columns)
    (hs : (t.cell line column).flags.isSpacer = true) (hp : wideFlagsPaired t line column = true) :
    0 < column ∧ (t.cell line (column - 1)).flags.isHead = true ∧
      wideFlagsPaired t line (column - 1) = true := by
  have hn : (t.cell line column).flags.isHead = false := by
    simp only [Flags.isSpacer, Flags.isHead, Bool.and_eq_true, Bool.not_eq_true'] at hs ⊢
    simp [hs.1]
  simp only [wideFlagsPaired, hn, hs, Bool.false_eq_true, ↓reduceIte, Bool.and_eq_true,
    decide_eq_true_eq] at hp
  obtain ⟨hpos, hh⟩ := hp
  refine ⟨hpos, hh, ?_⟩
  have e1 : column - 1 + 1 = column := by omega
  simp [wideFlagsPaired, hh, e1, hs, hc]

/-- **A row of well-formed cells projects to a row the client accepts.** -/
theorem projectRow_accepted {e : AlacrittyEngine R}
    (hw : ∀ column < e.term.columns, (e.term.cell line column).WellFormed) :
    validateSurfaceRow (projectRow e line).toSurfaceRow e.term.columns = .ok () := by
  have hlen : (projectRow e line).toSurfaceRow.cells.length = e.term.columns := by
    simp [projectRow, ProjectedRow.toSurfaceRow]
  simp only [validateSurfaceRow, hlen, ne_eq, not_true_eq_false, ↓reduceIte]
  refine checkAll_ok.mpr ?_
  rintro ⟨cell, column⟩ hmem
  have hget := List.mem_zipIdx_iff_getElem?.mp hmem
  dsimp only at hget ⊢
  rw [projectRow_cell] at hget
  split at hget
  case isFalse => cases hget
  rename_i hcol
  obtain rfl := Option.some.inj hget
  obtain ⟨hwide, hcont, htext⟩ := projectCellAt_flags e line column
  have hcell := hw column hcol
  have hprint := projectedCell_printable hcell (wideFlagsPaired e.term line column)
  have hfits := (projectCellAt e line column).text.fits
  rw [← htext] at hprint
  cases hp : wideFlagsPaired e.term line column with
  | false =>
    exact validateSurfaceCell_narrow hfits hprint (by simp [ProjectedCell.toPublic, hwide, hp])
      (by simp [ProjectedCell.toPublic, hcont, hp])
  | true =>
    rw [hp] at htext hwide hcont
    by_cases hh : (e.term.cell line column).flags.isHead = true
    · -- a head: its spacer follows and is a continuation
      obtain ⟨hnext, hs, hpn⟩ := wideFlagsPaired_head hh hp
      have hne := projectedCell_head hcell hh
      obtain ⟨hnw, hnc, -⟩ := projectCellAt_flags e line (column + 1)
      simp only [Flags.isSpacer, Bool.and_eq_true, Bool.not_eq_true'] at hs
      simp only [Flags.isHead, Bool.and_eq_true, Bool.not_eq_true'] at hh
      exact validateSurfaceCell_head hfits hprint (by simp [ProjectedCell.toPublic, hwide, hh])
        (by simp [ProjectedCell.toPublic, hcont, hh])
        (by simpa [ProjectedCell.toPublic, htext] using hne)
        ((projectRow_cell ..).trans (if_pos hnext)) (by simp [ProjectedCell.toPublic, hnc, hpn, hs])
        (by simp [ProjectedCell.toPublic, hnw, hs])
    by_cases hs : (e.term.cell line column).flags.isSpacer = true
    · -- a spacer: its head precedes it
      obtain ⟨hpos, hhead, hpp⟩ := wideFlagsPaired_spacer hcol hs hp
      have hempty := projectedCell_spacer hcell hs
      obtain ⟨hpw, hpc, -⟩ := projectCellAt_flags e line (column - 1)
      simp only [Flags.isSpacer, Bool.and_eq_true, Bool.not_eq_true'] at hs
      simp only [Flags.isHead, Bool.and_eq_true, Bool.not_eq_true'] at hhead
      exact validateSurfaceCell_continuation (by simp [ProjectedCell.toPublic, hwide, hs])
        (by simpa [ProjectedCell.toPublic, htext] using hempty) (by omega)
        ((projectRow_cell ..).trans (if_pos (by omega)))
        (by simp [ProjectedCell.toPublic, hpw, hpp, hhead])
        (by simp [ProjectedCell.toPublic, hpc, hhead])
    · have hnone : (e.term.cell line column).flags.wideChar = false ∧
          (e.term.cell line column).flags.wideCharSpacer = false := by
        simpa [wideFlagsPaired, hh, hs] using hp
      exact validateSurfaceCell_narrow hfits hprint (by simp [ProjectedCell.toPublic, hwide, hnone])
        (by simp [ProjectedCell.toPublic, hcont, hnone])

theorem projectRow_valid {e : AlacrittyEngine R} (hw : e.term.WellFormed) (line : Int) :
    validateSurfaceRow (projectRow e line).toSurfaceRow e.term.columns = .ok () :=
  projectRow_accepted fun column _ => hw line column

end Voytty.Terminal
