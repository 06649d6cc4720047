import Voytty.Lib.Patch
import Voytty.Terminal.Colors

/-!
# Semantic surfaces and their deltas

The values a host sends a client (`core/src/terminal.rs`): a complete surface
at a revision, or a delta from one revision to a later one. `validate` is the
client's acceptance check; `candidate` and `applyTo` patch a baseline and
commit only a result that validates again.
-/

namespace Voytty.Terminal

open Voytty.Lib

def maxTitleBytes : Nat := 256

def maxCellTextBytes : Nat := 22

inductive ActiveScreen where
  | main
  | alternate
  deriving DecidableEq, Repr

inductive TerminalColor where
  | default
  | indexed (n : UInt8)
  | rgb (r g b : UInt8)
  deriving DecidableEq, Repr

inductive TerminalUnderline where
  | none
  | single
  | double
  | curly
  | dotted
  | dashed
  deriving DecidableEq, Repr

structure TerminalStyle where
  foreground : TerminalColor := .default
  background : TerminalColor := .default
  bold : Bool := false
  dim : Bool := false
  italic : Bool := false
  underline : TerminalUnderline := .none
  underlineColor : TerminalColor := .default
  inverse : Bool := false
  strike : Bool := false
  conceal : Bool := false
  deriving DecidableEq, Repr

/-- A validated web link. -/
structure TerminalHyperlink where
  id : List Char
  uri : List Char
  deriving DecidableEq, Repr

structure TerminalCell where
  hyperlink : Option TerminalHyperlink
  contents : List Char
  wide : Bool
  wideContinuation : Bool
  style : TerminalStyle
  deriving DecidableEq, Repr

inductive TerminalCursorShape where
  | block
  | beam
  | underline
  deriving DecidableEq, Repr

structure TerminalCursor where
  shape : TerminalCursorShape
  blinking : Bool
  row : Nat
  column : Nat
  visible : Bool
  style : TerminalStyle
  deriving DecidableEq, Repr

inductive TerminalMouseMode where
  | none
  | press
  | pressRelease
  | buttonMotion
  | anyMotion
  deriving DecidableEq, Repr

inductive TerminalMouseEncoding where
  | default
  | utf8
  | sgr
  deriving DecidableEq, Repr

structure TerminalModes where
  applicationKeypad : Bool
  applicationCursor : Bool
  bracketedPaste : Bool
  focusReporting : Bool
  alternateScroll : Bool
  mouseMode : TerminalMouseMode
  mouseEncoding : TerminalMouseEncoding
  keyboardFlags : Nat
  deriving DecidableEq, Repr

structure TerminalSurfaceRow where
  cells : List TerminalCell
  wrapped : Bool
  deriving DecidableEq, Repr

structure TerminalScrollMetrics where
  epoch : Nat
  revision : Nat
  offsetFromBottom : Nat
  maxOffsetFromBottom : Nat
  viewportRows : Nat
  deriving DecidableEq, Repr

def TerminalScrollMetrics.isValid (m : TerminalScrollMetrics) : Bool :=
  m.viewportRows > 0 && m.epoch ≤ m.revision && m.offsetFromBottom ≤ m.maxOffsetFromBottom

structure TerminalSurface where
  applicationTitle : List Char
  colors : TerminalColorSnapshot
  size : TerminalSize
  activeScreen : ActiveScreen
  rows : List TerminalSurfaceRow
  cursor : TerminalCursor
  modes : TerminalModes
  scrollMetrics : Option TerminalScrollMetrics
  deriving DecidableEq

structure TerminalSurfaceSnapshot where
  revision : Nat
  surface : TerminalSurface
  deriving DecidableEq

structure TerminalSurfaceRowPatch where
  row : Nat
  replacement : TerminalSurfaceRow
  deriving DecidableEq, Repr

structure TerminalSurfaceDelta where
  applicationTitle : List Char
  colors : TerminalColorSnapshot
  fromRevision : Nat
  toRevision : Nat
  size : TerminalSize
  activeScreen : ActiveScreen
  rowPatches : List TerminalSurfaceRowPatch
  cursor : TerminalCursor
  modes : TerminalModes
  scrollMetrics : Option TerminalScrollMetrics
  deriving DecidableEq

inductive TerminalSurfaceDeltaResult where
  | delta (d : TerminalSurfaceDelta)
  | resync (s : TerminalSurfaceSnapshot)
  deriving DecidableEq

inductive TerminalSurfaceError where
  | invalidSize
  | invalidRowCount
  | invalidColumnCount
  | invalidCellText
  | invalidApplicationTitle
  | invalidWidePair
  | invalidCursor
  | invalidScrollMetrics
  | invalidRevision
  | invalidRowPatch
  | incompatibleBaseline
  | invalidHistoryWindow
  deriving DecidableEq, Repr

/-! ## Validation -/

def validateSurfaceSize (size : TerminalSize) : Except TerminalSurfaceError Unit :=
  let limits : ResourceLimits := {}
  if size.rows = 0 ∨ size.columns = 0 ∨ size.rows > limits.maxViewportRows ∨
      size.columns > limits.maxViewportColumns then
    .error .invalidSize
  else .ok ()

/-- The checks of one cell against its neighbours in the row. -/
def validateSurfaceCell (cells : List TerminalCell) (column : Nat) (cell : TerminalCell) :
    Except TerminalSurfaceError Unit :=
  if byteLen cell.contents > maxCellTextBytes || cell.contents.any isControl then
    .error .invalidCellText
  else if cell.wide && cell.wideContinuation then .error .invalidWidePair
  else if cell.wide then
    let badNext := match cells[column + 1]? with
      | none => true
      | some next => !next.wideContinuation || next.wide
    if cell.contents.isEmpty || badNext then .error .invalidWidePair else .ok ()
  else
    let badPrevious := match cells[column - 1]? with
      | none => true
      | some previous => !previous.wide || previous.wideContinuation
    if cell.wideContinuation && (!cell.contents.isEmpty || column == 0 || badPrevious) then
      .error .invalidWidePair
    else .ok ()

def validateSurfaceRow (row : TerminalSurfaceRow) (columns : Nat) :
    Except TerminalSurfaceError Unit :=
  if row.cells.length ≠ columns then .error .invalidColumnCount
  else checkAll (fun p => validateSurfaceCell row.cells p.2 p.1) row.cells.zipIdx

def validateSurfaceMetrics (screen : ActiveScreen) (size : TerminalSize) (revision : Nat)
    (metrics : Option TerminalScrollMetrics) : Except TerminalSurfaceError Unit :=
  match screen, metrics with
  | .main, some m =>
    if m.isValid && m.revision == revision && m.offsetFromBottom == 0 &&
        m.viewportRows == size.rows then .ok ()
    else .error .invalidScrollMetrics
  | .alternate, none => .ok ()
  | _, _ => .error .invalidScrollMetrics

def validTitle (title : List Char) : Bool :=
  byteLen title ≤ maxTitleBytes && !title.any isControl

def TerminalSurface.validate (s : TerminalSurface) (revision : Nat) :
    Except TerminalSurfaceError Unit := do
  if !s.colors.isValidAt revision then throw .invalidRevision
  if !validTitle s.applicationTitle then throw .invalidApplicationTitle
  validateSurfaceSize s.size
  if s.rows.length ≠ s.size.rows then throw .invalidRowCount
  checkAll (fun row => validateSurfaceRow row s.size.columns) s.rows
  if s.cursor.row ≥ s.size.rows ∨ s.cursor.column ≥ s.size.columns then throw .invalidCursor
  validateSurfaceMetrics s.activeScreen s.size revision s.scrollMetrics

/-- Patches in bounds, strictly increasing after `previous`, each a valid row. -/
def validateRowPatches (size : TerminalSize) :
    Option Nat → List TerminalSurfaceRowPatch → Except TerminalSurfaceError Unit
  | _, [] => .ok ()
  | previous, patch :: patches =>
    if patch.row ≥ size.rows ∨ previous.any (fun row => row ≥ patch.row) then
      .error .invalidRowPatch
    else
      match validateSurfaceRow patch.replacement size.columns with
      | .error e => .error e
      | .ok () => validateRowPatches size (some patch.row) patches

namespace TerminalSurfaceDelta

def validate (d : TerminalSurfaceDelta) : Except TerminalSurfaceError Unit := do
  if d.fromRevision ≥ d.toRevision then throw .invalidRevision
  if !d.colors.isValidAt d.toRevision then throw .invalidRevision
  if !validTitle d.applicationTitle then throw .invalidApplicationTitle
  validateSurfaceSize d.size
  if d.cursor.row ≥ d.size.rows ∨ d.cursor.column ≥ d.size.columns then throw .invalidCursor
  validateSurfaceMetrics d.activeScreen d.size d.toRevision d.scrollMetrics
  validateRowPatches d.size none d.rowPatches

def patchRows (d : TerminalSurfaceDelta) (rows : List TerminalSurfaceRow) :
    List TerminalSurfaceRow :=
  patch (d.rowPatches.map fun p => (p.row, p.replacement)) rows

def incompatible (d : TerminalSurfaceDelta) (baselineRevision : Nat)
    (baseline : TerminalSurface) : Bool :=
  baselineRevision ≠ d.fromRevision || baseline.size ≠ d.size ||
    baseline.colors.changedAt > d.colors.changedAt ||
    (baseline.colors.changedAt == d.colors.changedAt && baseline.colors ≠ d.colors) ||
    baseline.activeScreen ≠ d.activeScreen

def candidate (d : TerminalSurfaceDelta) (baselineRevision : Nat)
    (baseline : TerminalSurface) : Except TerminalSurfaceError TerminalSurface := do
  d.validate
  if d.incompatible baselineRevision baseline then throw .incompatibleBaseline
  baseline.validate baselineRevision
  let candidate := { baseline with
    rows := d.patchRows baseline.rows
    applicationTitle := d.applicationTitle
    colors := d.colors
    cursor := d.cursor
    modes := d.modes
    scrollMetrics := d.scrollMetrics }
  candidate.validate d.toRevision
  return candidate

def applyTo (d : TerminalSurfaceDelta) (baselineRevision : Nat)
    (baseline : TerminalSurface) : Except TerminalSurfaceError Unit × TerminalSurface :=
  match d.candidate baselineRevision baseline with
  | .ok surface => (.ok (), surface)
  | .error e => (.error e, baseline)

end TerminalSurfaceDelta

/-! ## Accepted surfaces -/

theorem validateSurfaceSize_ok {size : TerminalSize} :
    validateSurfaceSize size = .ok () ↔ size.WithinLimits := by
  simp only [validateSurfaceSize, TerminalSize.WithinLimits]
  split
  · rename_i h; simp; omega
  · rename_i h; simp; omega

section Cells

variable {cells : List TerminalCell} {column : Nat} {cell : TerminalCell}
  (fits : byteLen cell.contents ≤ maxCellTextBytes)
  (printable : cell.contents.any isControl = false)
include fits printable

theorem validateSurfaceCell_text :
    (decide (byteLen cell.contents > maxCellTextBytes) || cell.contents.any isControl) = false := by
  simpa [printable] using fits

theorem validateSurfaceCell_narrow (hw : cell.wide = false) (hc : cell.wideContinuation = false) :
    validateSurfaceCell cells column cell = .ok () := by
  simp [validateSurfaceCell, validateSurfaceCell_text fits printable, hw, hc]

theorem validateSurfaceCell_head {next : TerminalCell} (hw : cell.wide = true)
    (hc : cell.wideContinuation = false) (hne : cell.contents ≠ [])
    (hnext : cells[column + 1]? = some next) (hnc : next.wideContinuation = true)
    (hnw : next.wide = false) : validateSurfaceCell cells column cell = .ok () := by
  simp [validateSurfaceCell, validateSurfaceCell_text fits printable, hw, hc, hne, hnext, hnc, hnw]

end Cells

theorem validateSurfaceCell_continuation {cells : List TerminalCell} {column : Nat}
    {cell previous : TerminalCell} (hw : cell.wide = false)
    (he : cell.contents = []) (hpos : column ≠ 0)
    (hprev : cells[column - 1]? = some previous) (hpw : previous.wide = true)
    (hpc : previous.wideContinuation = false) : validateSurfaceCell cells column cell = .ok () := by
  simp [validateSurfaceCell, hw, he, hpos, hprev, hpw, hpc]

/-- What `validate` accepts. -/
structure TerminalSurface.Valid (s : TerminalSurface) (revision : Nat) : Prop where
  colors : s.colors.isValidAt revision = true
  title : validTitle s.applicationTitle = true
  size : s.size.WithinLimits
  rowCount : s.rows.length = s.size.rows
  rows : ∀ row ∈ s.rows, validateSurfaceRow row s.size.columns = .ok ()
  cursorRow : s.cursor.row < s.size.rows
  cursorColumn : s.cursor.column < s.size.columns
  metrics : validateSurfaceMetrics s.activeScreen s.size revision s.scrollMetrics = .ok ()

theorem TerminalSurface.Valid.validate {s : TerminalSurface} {revision : Nat}
    (h : s.Valid revision) : s.validate revision = .ok () := by
  have hrows := checkAll_ok.mpr h.rows
  have hcursor : ¬ (s.cursor.row ≥ s.size.rows ∨ s.cursor.column ≥ s.size.columns) := by
    have := h.cursorRow; have := h.cursorColumn; omega
  simp [TerminalSurface.validate, h.colors, h.title, validateSurfaceSize_ok.mpr h.size,
    h.rowCount, hrows, hcursor, h.metrics, bind, Except.bind]

theorem validateRowPatches_ok {size : TerminalSize} {previous : Option Nat}
    {patches : List TerminalSurfaceRowPatch}
    (first : ∀ p ∈ patches, ∀ row, previous = some row → row < p.row)
    (sorted : patches.Pairwise fun p q => p.row < q.row)
    (bounds : ∀ p ∈ patches, p.row < size.rows)
    (rows : ∀ p ∈ patches, validateSurfaceRow p.replacement size.columns = .ok ()) :
    validateRowPatches size previous patches = .ok () := by
  induction patches generalizing previous with
  | nil => rfl
  | cons p ps ih =>
    have hp : ¬ (p.row ≥ size.rows ∨ previous.any (fun row => row ≥ p.row) = true) := by
      rintro (h | h)
      · exact absurd (bounds p List.mem_cons_self) (by omega)
      · cases previous with
        | none => simp at h
        | some row =>
          have := first p List.mem_cons_self row rfl
          simp only [Option.any_some, decide_eq_true_eq] at h; omega
    simp only [validateRowPatches, hp, ↓reduceIte, rows p List.mem_cons_self]
    rw [List.pairwise_cons] at sorted
    refine ih ?_ sorted.2 (fun q hq => bounds q (List.mem_cons_of_mem _ hq))
      (fun q hq => rows q (List.mem_cons_of_mem _ hq))
    intro q hq row hrow
    cases hrow
    exact sorted.1 q hq

namespace TerminalSurfaceDelta

/-- `d` leads from `baseline` to `target`: it carries the target's fields, its patches turn the
baseline's rows into the target's, and its stamps are ordered. -/
structure Leads (d : TerminalSurfaceDelta) (baseline target : TerminalSurface) : Prop where
  advances : d.fromRevision < d.toRevision
  title : d.applicationTitle = target.applicationTitle
  colors : d.colors = target.colors
  size : d.size = target.size
  screen : d.activeScreen = target.activeScreen
  cursor : d.cursor = target.cursor
  modes : d.modes = target.modes
  metrics : d.scrollMetrics = target.scrollMetrics
  sameSize : baseline.size = target.size
  sameScreen : baseline.activeScreen = target.activeScreen
  stamp : baseline.colors.changedAt ≤ target.colors.changedAt
  sameColors : baseline.colors.changedAt = target.colors.changedAt →
    baseline.colors = target.colors
  patches : validateRowPatches target.size none d.rowPatches = .ok ()
  rows : d.patchRows baseline.rows = target.rows

variable {d : TerminalSurfaceDelta} {baseline target : TerminalSurface}

theorem Leads.validate (h : d.Leads baseline target) (ht : target.Valid d.toRevision) :
    d.validate = .ok () := by
  have hcursor : ¬ (target.cursor.row ≥ target.size.rows ∨
      target.cursor.column ≥ target.size.columns) := by
    have := ht.cursorRow; have := ht.cursorColumn; omega
  have hadv : ¬ d.toRevision ≤ d.fromRevision := by have := h.advances; omega
  simp [TerminalSurfaceDelta.validate, hadv, h.colors, ht.colors, h.title, ht.title, h.size,
    validateSurfaceSize_ok.mpr ht.size, h.cursor, hcursor, h.screen, h.metrics, ht.metrics,
    h.patches, bind, Except.bind]

theorem Leads.incompatible (h : d.Leads baseline target) :
    d.incompatible d.fromRevision baseline = false := by
  have hstamp := h.stamp
  have hsame := h.sameColors
  simp only [TerminalSurfaceDelta.incompatible, h.colors, h.size, h.screen, h.sameSize,
    h.sameScreen]
  simp only [ne_eq, not_true_eq_false, decide_false, Bool.or_false, Bool.false_or,
    Bool.or_eq_false_iff, decide_eq_false_iff_not, gt_iff_lt, not_lt, Bool.and_eq_false_iff,
    beq_eq_false_iff_ne, not_not]
  refine ⟨hstamp, ?_⟩
  by_cases he : baseline.colors.changedAt = target.colors.changedAt
  · exact .inr (hsame he)
  · exact .inl he

/-- A client that holds a valid baseline at the delta's revision ends on the target. -/
theorem Leads.applyTo (h : d.Leads baseline target) (hb : baseline.Valid d.fromRevision)
    (ht : target.Valid d.toRevision) :
    d.applyTo d.fromRevision baseline = (.ok (), target) := by
  have hcand : { baseline with
      rows := d.patchRows baseline.rows
      applicationTitle := d.applicationTitle
      colors := d.colors
      cursor := d.cursor
      modes := d.modes
      scrollMetrics := d.scrollMetrics } = target := by
    cases target
    simp_all [h.title, h.colors, h.cursor, h.modes, h.metrics, h.rows, h.sameSize, h.sameScreen]
  have : d.candidate d.fromRevision baseline = .ok target := by
    simp [candidate, h.validate ht, h.incompatible, hb.validate, hcand, ht.validate, bind,
      Except.bind, pure, Except.pure]
  simp [TerminalSurfaceDelta.applyTo, this]

end TerminalSurfaceDelta

end Voytty.Terminal
