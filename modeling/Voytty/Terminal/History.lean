import Voytty.Terminal.Model

/-!
# History windows

A client asks for rows above the live screen by an anchor, the coordinates it
last knew (`core/src/terminal.rs`). `responseShape` is the only shape an answer
may have; the model answers outside a held batch (`terminal/src/model.rs`), and
`validateFor` is the client's check of the answer.
-/

namespace Voytty.Terminal

open Voytty.Lib

def maxHistoryWindowRows : Nat := 240

/-- Whether an answer kept the row identity of its request. -/
inductive TerminalViewportDisposition where
  | exact
  | rebased
  deriving DecidableEq, Repr

/-- The coordinates of one main-screen history. -/
structure TerminalHistoryWindowAnchor where
  epoch : Nat
  revision : Nat
  maxOffsetFromBottom : Nat
  viewport : TerminalSize
  deriving DecidableEq, Repr

def TerminalHistoryWindowAnchor.isValid (a : TerminalHistoryWindowAnchor) : Bool :=
  a.viewport.rows > 0 && a.viewport.columns > 0 && a.epoch ≤ a.revision

structure TerminalHistoryWindowQuery where
  anchor : TerminalHistoryWindowAnchor
  targetOffsetFromBottom : Nat
  olderMarginRows : Nat
  newerMarginRows : Nat
  deriving DecidableEq, Repr

structure TerminalHistoryWindowResponseShape where
  disposition : TerminalViewportDisposition
  targetOffsetFromBottom : Nat
  firstRowFromLiveTop : Int
  rowCount : Nat
  deriving DecidableEq, Repr

namespace TerminalHistoryWindowQuery

variable (q : TerminalHistoryWindowQuery) (anchor : TerminalHistoryWindowAnchor)

def isValid : Bool :=
  q.anchor.isValid && q.targetOffsetFromBottom ≤ q.anchor.maxOffsetFromBottom &&
    q.olderMarginRows + q.newerMarginRows ≤ q.anchor.viewport.rows * 2

/-- The answer's rows are those the request knew, perhaps with more scrolled in below. -/
def isExact : Bool :=
  q.anchor.epoch = anchor.epoch && q.anchor.viewport = anchor.viewport &&
    q.anchor.maxOffsetFromBottom ≤ anchor.maxOffsetFromBottom

def resolvedTarget : Option Nat :=
  if q.isExact anchor then
    let grown := q.targetOffsetFromBottom +
      (anchor.maxOffsetFromBottom - q.anchor.maxOffsetFromBottom)
    if grown < 2 ^ 64 then some (min grown anchor.maxOffsetFromBottom) else none
  else some (min q.targetOffsetFromBottom anchor.maxOffsetFromBottom)

/-- The rows around a target, clipped to history and screen: the first and the one past the last. -/
def clippedRange (target : Nat) : Option (Int × Int) := do
  let history ← checkedI64 anchor.maxOffsetFromBottom
  let target ← checkedI64 target
  let visibleStart ← checkedI64 (-target)
  let visibleEnd ← checkedI64 (visibleStart + anchor.viewport.rows)
  let older ← checkedI64 (visibleStart - q.olderMarginRows)
  let oldest ← checkedI64 (-history)
  let newer ← checkedI64 (visibleEnd + q.newerMarginRows)
  return (max older oldest, min newer anchor.viewport.rows)

/-- The only shape an answer at `anchor` may have. -/
def responseShape : Option TerminalHistoryWindowResponseShape :=
  if !q.isValid || !anchor.isValid || anchor.revision < q.anchor.revision then none
  else do
    let target ← q.resolvedTarget anchor
    let (first, stop) ← q.clippedRange anchor target
    let span ← checkedI64 (stop - first)
    if span < 0 ∨ span.toNat < anchor.viewport.rows ∨ span.toNat > maxHistoryWindowRows then
      failure
    return {
      disposition := if q.isExact anchor then .exact else .rebased
      targetOffsetFromBottom := target
      firstRowFromLiveTop := first
      rowCount := span.toNat }

end TerminalHistoryWindowQuery

structure TerminalSurfaceHistoryWindowFrame where
  colors : TerminalColorSnapshot
  disposition : TerminalViewportDisposition
  anchor : TerminalHistoryWindowAnchor
  targetOffsetFromBottom : Nat
  firstRowFromLiveTop : Int
  rows : List TerminalSurfaceRow
  deriving DecidableEq

/-- The client's check of an answer to `query`. -/
def TerminalSurfaceHistoryWindowFrame.validateFor (f : TerminalSurfaceHistoryWindowFrame)
    (query : TerminalHistoryWindowQuery) : Except TerminalSurfaceError Unit := do
  if !f.colors.isValidAt f.anchor.revision then throw .invalidRevision
  validateSurfaceSize f.anchor.viewport
  match query.responseShape f.anchor with
  | none => throw .invalidHistoryWindow
  | some shape =>
    if f.disposition ≠ shape.disposition ∨
        f.targetOffsetFromBottom ≠ shape.targetOffsetFromBottom ∨
        f.firstRowFromLiveTop ≠ shape.firstRowFromLiveTop ∨ f.rows.length ≠ shape.rowCount ∨
        f.rows.length > maxHistoryWindowRows then throw .invalidHistoryWindow
    checkAll (fun row => validateSurfaceRow row f.anchor.viewport.columns) f.rows

inductive TerminalSurfaceHistoryWindowResult where
  | frame (frame : TerminalSurfaceHistoryWindowFrame)
  | historyChanged (epoch revision : Nat)
  | historyGap (epoch revision : Nat)
  deriving DecidableEq

namespace TerminalModel

variable {R : Type} (t : TerminalModel R)

def anchor : TerminalHistoryWindowAnchor where
  epoch := t.historyEpoch
  revision := t.revision
  maxOffsetFromBottom := t.retainedHistoryRows
  viewport := t.size

/-- The grid lines of an answer; a line number fits 32 bits. -/
def windowLines (shape : TerminalHistoryWindowResponseShape) : Option (List Int) := do
  let rowCount ← checkedI64 shape.rowCount
  let stop ← checkedI64 (shape.firstRowFromLiveTop + rowCount)
  let lines := (List.range (stop - shape.firstRowFromLiveTop).toNat).map fun i =>
    shape.firstRowFromLiveTop + i
  if lines.all fun line => -2 ^ 31 ≤ line && line < 2 ^ 31 then some lines else none

def projectHistoryWindow (query : TerminalHistoryWindowQuery) :
    TerminalSurfaceHistoryWindowResult :=
  let gap := TerminalSurfaceHistoryWindowResult.historyGap t.historyEpoch t.revision
  if !query.isValid || query.anchor.revision > t.revision then gap
  else if t.engine.activeScreen ≠ .main then .historyChanged t.historyEpoch t.revision
  else
    match query.responseShape t.anchor with
    | none => gap
    | some shape =>
      match windowLines shape with
      | none => gap
      | some lines => .frame
        { colors := t.engine.colors.snapshot
          disposition := shape.disposition
          anchor := t.anchor
          targetOffsetFromBottom := shape.targetOffsetFromBottom
          firstRowFromLiveTop := shape.firstRowFromLiveTop
          rows := lines.map fun line => (projectRow t.engine line).toSurfaceRow }

def historyWindow (query : TerminalHistoryWindowQuery) :
    Option TerminalSurfaceHistoryWindowResult :=
  if t.synchronized.isSome then none else some (t.projectHistoryWindow query)

end TerminalModel

end Voytty.Terminal
