import Voytty.Terminal.History

/-!
# The client's viewport cache

`core/src/viewport_cache.rs` and its `pages.rs`: rows above the live screen kept
by a client, with at most one request for more under way. A cache holds one
window, or accounted pages when it was made with a budget. Offsets count from
the bottom of the history known at some anchor, so a row keeps its ordinal, the
anchor's maximum offset minus its offset, while offsets move.

A page's owners outside the cache are counted in `pins`; sizes of values in
memory are a `Layout`.
-/

namespace Voytty.Core

open Voytty.Terminal

def saturatingAdd (a b : Nat) : Nat := min (a + b) (2 ^ 64 - 1)

def saturateI64 (n : Int) : Int := max (-2 ^ 63) (min n (2 ^ 63 - 1))

/-! ## Windows -/

structure ViewportSliceIdentity where
  epoch : Nat
  revision : Nat
  firstRowFromLiveTop : Int
  viewport : TerminalSize
  deriving DecidableEq, Repr

/-- One immutable contiguous row window in live-top coordinates. -/
structure CachedViewportWindow (Row : Type) where
  disposition : TerminalViewportDisposition
  anchor : TerminalHistoryWindowAnchor
  targetOffsetFromBottom : Nat
  firstRowFromLiveTop : Int
  rows : List Row
  deriving DecidableEq, Repr

namespace CachedViewportWindow

variable {Row : Type} (w : CachedViewportWindow Row)

/-- The slice of a target viewport: its first row and the one past its last. -/
def visibleRange (targetOffsetFromBottom : Nat) : Option (Nat × Nat) :=
  if targetOffsetFromBottom > w.anchor.maxOffsetFromBottom then none
  else do
    let target ← checkedI64 targetOffsetFromBottom
    let visibleStart ← checkedI64 (-target)
    let relative ← checkedI64 (visibleStart - w.firstRowFromLiveTop)
    if relative < 0 then failure
    let start := relative.toNat
    let stop := start + w.anchor.viewport.rows
    if stop ≤ w.rows.length then some (start, stop) else none

def endRowExclusive : Option Int := do
  let count ← checkedI64 w.rows.length
  checkedI64 (w.firstRowFromLiveTop + count)

def isValid : Bool :=
  if !w.anchor.isValid || w.targetOffsetFromBottom > w.anchor.maxOffsetFromBottom ||
      w.rows.length < w.anchor.viewport.rows || w.rows.length > maxHistoryWindowRows then false
  else
    match w.endRowExclusive, checkedI64 w.anchor.maxOffsetFromBottom with
    | some stop, some history =>
      w.firstRowFromLiveTop ≥ -history && stop ≤ w.anchor.viewport.rows &&
        (w.visibleRange w.targetOffsetFromBottom).isSome
    | _, _ => false

/-- The exact response to `query`. -/
def isValidFor (query : TerminalHistoryWindowQuery) : Bool :=
  w.isValid &&
    match query.responseShape w.anchor with
    | none => false
    | some shape =>
      w.disposition = shape.disposition &&
        w.targetOffsetFromBottom = shape.targetOffsetFromBottom &&
        w.firstRowFromLiveTop = shape.firstRowFromLiveTop && w.rows.length = shape.rowCount

/-- The full-height slice of a target, when the window has it. -/
def visibleRows (targetOffsetFromBottom : Nat) : Option (List Row) :=
  (w.visibleRange targetOffsetFromBottom).map fun (start, stop) =>
    (w.rows.drop start).take (stop - start)

/-- The slice with known rows below it. -/
def visibleRowsWithOverscan (offset extra : Nat) : Option (List Row) :=
  (w.visibleRange offset).map fun (start, stop) =>
    (w.rows.drop start).take (min (stop + extra) w.rows.length - start)

def firstOrdinal : Option Int := do
  let history ← checkedI64 w.anchor.maxOffsetFromBottom
  checkedI64 (history + w.firstRowFromLiveTop)

def sliceIdentity (targetOffsetFromBottom : Nat) : Option ViewportSliceIdentity := do
  let target ← checkedI64 targetOffsetFromBottom
  let first ← checkedI64 (-target)
  return ⟨w.anchor.epoch, w.anchor.revision, first, w.anchor.viewport⟩

end CachedViewportWindow

def targetInWindowCoordinates (latest window : TerminalHistoryWindowAnchor) (target : Nat) :
    Option Nat :=
  if latest.epoch ≠ window.epoch ∨ latest.viewport ≠ window.viewport ∨
      latest.maxOffsetFromBottom < window.maxOffsetFromBottom then none
  else
    let growth := latest.maxOffsetFromBottom - window.maxOffsetFromBottom
    if growth ≤ target then some (target - growth) else none

/-! ## Pages -/

structure ViewportCacheBudget where
  rows : Nat
  bytes : Nat
  deriving DecidableEq, Repr

structure Layout where
  pages : Nat
  page : Nat
  window : Nat
  row : Nat
  word : Nat

/-- A window shared with `pins` owners outside the cache. -/
structure Page (Row : Type) where
  window : CachedViewportWindow Row
  bytes : Nat
  pins : Nat

structure Pages (Row : Type) where
  budget : ViewportCacheBudget
  entries : List (Page Row)
  capacity : Nat

/-- A target the window may answer: its live rows only at its own revision. -/
def reusableTarget {Row : Type} (latest : TerminalHistoryWindowAnchor)
    (window : CachedViewportWindow Row) (target : Nat) : Option Nat :=
  match targetInWindowCoordinates latest window.anchor target with
  | none => none
  | some offset =>
    if (window.visibleRows offset).isNone then none
    else if latest.revision ≠ window.anchor.revision ∧ offset < window.anchor.viewport.rows then
      none
    else some offset

def rposition {α : Type} (p : α → Bool) (as : List α) : Option Nat :=
  (as.reverse.findIdx? p).map fun i => as.length - 1 - i

namespace Pages

variable {Row : Type} (layout : Layout) (p : Pages Row)

def new (budget : ViewportCacheBudget) : Pages Row := ⟨budget, [], 0⟩

def usage : ViewportCacheBudget :=
  p.entries.foldl (fun total page =>
      ⟨saturatingAdd total.rows page.window.rows.length, saturatingAdd total.bytes page.bytes⟩)
    ⟨0, layout.pages + p.capacity * layout.page⟩

/-- The latest page that may answer a target, with the target in its coordinates. -/
def find (latest : TerminalHistoryWindowAnchor) (target : Nat) :
    Option (CachedViewportWindow Row × Nat) :=
  p.entries.reverse.findSome? fun page =>
    (reusableTarget latest page.window target).map fun offset => (page.window, offset)

def findPosition (latest : TerminalHistoryWindowAnchor) (target : Nat) : Option Nat :=
  rposition (fun page => (reusableTarget latest page.window target).isSome) p.entries

/-- Moves the page that answers a target to the back. -/
def touch (latest : TerminalHistoryWindowAnchor) (target : Nat) : Pages Row :=
  match p.findPosition latest target with
  | none => p
  | some i => { p with entries := p.entries.eraseIdx i ++ p.entries[i]?.toList }

/-- One more outside owner of the page that answers a target. -/
def pin (latest : TerminalHistoryWindowAnchor) (target : Nat) :
    Option (CachedViewportWindow Row) × Pages Row :=
  match p.findPosition latest target with
  | none => (none, p)
  | some i =>
    (p.entries[i]?.map (·.window),
      { p with entries := p.entries.modify i fun page => { page with pins := page.pins + 1 } })

def unpin (i : Nat) : Pages Row :=
  { p with entries := p.entries.modify i fun page => { page with pins := page.pins - 1 } }

def discardUnpinned : Pages Row :=
  let kept := p.entries.filter fun page => page.pins > 0
  { p with entries := kept, capacity := kept.length }

def hasRoom (rows bytes : Nat) : Bool :=
  let used := p.usage layout
  let extraMetadata := if p.entries.length = p.capacity then layout.page else 0
  saturatingAdd used.rows rows ≤ p.budget.rows &&
    saturatingAdd (saturatingAdd used.bytes bytes) extraMetadata ≤ p.budget.bytes

/-- Evicts unpinned pages, oldest first, until there is room; what was evicted stays evicted
when there is none. -/
def makeRoom (rows bytes : Nat) : Nat → Pages Row → Bool × Pages Row
  | fuel, p =>
    if p.hasRoom layout rows bytes then (true, p)
    else
      match p.entries.findIdx? fun page => page.pins == 0, fuel with
      | some i, fuel + 1 =>
        makeRoom rows bytes fuel
          { p with entries := p.entries.eraseIdx i, capacity := (p.entries.eraseIdx i).length }
      | _, _ => (false, p)

/-- Keeps a window if the budget allows it; `reserved` are its reserved rows. -/
def insert (window : CachedViewportWindow Row) (reserved nestedBytes : Nat) : Bool × Pages Row :=
  let bytes := saturatingAdd (saturatingAdd (saturatingAdd layout.window (2 * layout.word))
    (min (reserved * layout.row) (2 ^ 64 - 1))) nestedBytes
  if window.rows.length > p.budget.rows ∨ saturatingAdd bytes layout.page > p.budget.bytes then
    (false, p)
  else
    match makeRoom layout window.rows.length bytes p.entries.length p with
    | (false, p) => (false, p)
    | (true, p) =>
      (true, { p with
        entries := p.entries ++ [⟨window, bytes, 0⟩]
        capacity := max p.capacity (p.entries.length + 1) })

end Pages

/-! ## The cache -/

structure ViewportCacheUpdate where
  renderLocal : Bool
  request : Option TerminalHistoryWindowQuery
  deriving DecidableEq, Repr

structure ViewportCacheInstall where
  capacityRejected : Bool
  renderLocal : Bool
  request : Option TerminalHistoryWindowQuery
  deriving DecidableEq, Repr

inductive AnchorCacheAction where
  | preserve
  | invalidateRows
  | invalidateAll
  deriving DecidableEq, Repr

structure ViewportAnchorObservation where
  latestAnchor : Option TerminalHistoryWindowAnchor
  desiredOffsetFromBottom : Nat
  presentedOffsetFromBottom : Option Nat
  cacheAction : AnchorCacheAction
  compatible : Bool
  presentedSliceIdentity : Option ViewportSliceIdentity
  deriving DecidableEq, Repr

structure ViewportCache (Row : Type) where
  latestAnchor : Option TerminalHistoryWindowAnchor
  window : Option (CachedViewportWindow Row)
  pages : Option (Pages Row)
  desiredOffsetFromBottom : Nat
  presentedOffsetFromBottom : Option Nat
  pendingQuery : Option TerminalHistoryWindowQuery

/-- Margins toward the side the reader is likely to go. -/
def makeQuery (anchor : TerminalHistoryWindowAnchor) (targetOffsetFromBottom : Nat) :
    TerminalHistoryWindowQuery :=
  let rows := anchor.viewport.rows
  let twoRows := saturateU16 (rows * 2)
  let (older, newer) :=
    if targetOffsetFromBottom ≤ rows then (twoRows, 0)
    else if anchor.maxOffsetFromBottom - targetOffsetFromBottom ≤ rows then (0, twoRows)
    else (rows, rows)
  ⟨anchor, targetOffsetFromBottom, older, newer⟩

namespace ViewportCache

variable {Row : Type} (layout : Layout) (c : ViewportCache Row)

def new : ViewportCache Row := ⟨none, none, none, 0, none, none⟩

def withBudget (budget : ViewportCacheBudget) : ViewportCache Row :=
  { (new : ViewportCache Row) with pages := some (.new budget) }

/-- The window that shows a target of `latest`, with the target in its coordinates. -/
def windowFor (latest : TerminalHistoryWindowAnchor) (target : Nat) :
    Option (CachedViewportWindow Row × Nat) :=
  match c.pages with
  | some pages => pages.find latest target
  | none => do
    let window ← c.window
    let offset ← targetInWindowCoordinates latest window.anchor target
    if (window.visibleRows offset).isSome then some (window, offset) else none

/-- The slice of the latest desired target. -/
def visibleRows : Option (List Row) := do
  let latest ← c.latestAnchor
  let (window, target) ← c.windowFor latest c.desiredOffsetFromBottom
  window.visibleRows target

def visibleSliceIdentity : Option ViewportSliceIdentity := do
  let latest ← c.latestAnchor
  let (window, target) ← c.windowFor latest c.desiredOffsetFromBottom
  window.sliceIdentity target

/-- The slice last committed for presentation. -/
def presentedRows : Option (List Row) := do
  let latest ← c.latestAnchor
  let presented ← c.presentedOffsetFromBottom
  let (window, target) ← c.windowFor latest presented
  window.visibleRows target

def presentedSliceIdentity : Option ViewportSliceIdentity := do
  let latest ← c.latestAnchor
  let presented ← c.presentedOffsetFromBottom
  let (window, target) ← c.windowFor latest presented
  window.sliceIdentity target

/-- Drops the rows, except pages with owners outside the cache. -/
def dropRows : ViewportCache Row :=
  { c with window := none, pages := c.pages.map (·.discardUnpinned) }

/-! ### Captures and pins -/

def pinVisibleWindow : Option (CachedViewportWindow Row) × ViewportCache Row :=
  match c.pages, c.latestAnchor with
  | some pages, some latest =>
    let (window, pages) := pages.pin latest c.desiredOffsetFromBottom
    (window, { c with pages := some pages })
  | _, _ => (none, c)

/-- Pins a validated local frame at its own revision. -/
def captureLiveAt (anchor : TerminalHistoryWindowAnchor) (rows : List Row)
    (reserved nestedBytes : Nat) : Option (CachedViewportWindow Row) × ViewportCache Row :=
  if !anchor.isValid ∨ rows.length ≠ anchor.viewport.rows ∨
      c.latestAnchor.all (fun latest => anchor.revision > latest.revision) then (none, c)
  else
    match c.pages with
    | none => (none, c)
    | some pages =>
      match pages.insert layout ⟨.exact, anchor, 0, 0, rows⟩ reserved nestedBytes with
      | (false, pages) => (none, { c with pages := some pages })
      | (true, pages) =>
        let (window, pages) := pages.pin anchor 0
        (window, { c with pages := some pages })

def captureLive (rows : List Row) (reserved nestedBytes : Nat) :
    Option (CachedViewportWindow Row) × ViewportCache Row :=
  match c.latestAnchor with
  | none => (none, c)
  | some latest => c.captureLiveAt layout latest rows reserved nestedBytes

/-! ### Observations -/

def anchorObservation (latestAnchor : Option TerminalHistoryWindowAnchor) (desired : Nat)
    (presented : Option Nat) (cacheAction : AnchorCacheAction) (compatible : Bool) :
    ViewportAnchorObservation where
  latestAnchor := latestAnchor
  desiredOffsetFromBottom := desired
  presentedOffsetFromBottom := presented
  cacheAction := cacheAction
  compatible := compatible
  presentedSliceIdentity :=
    if cacheAction = .preserve then do
      let latest ← latestAnchor
      let presented ← presented
      let (window, target) ← c.windowFor latest presented
      window.sliceIdentity target
    else none

/-- An observation that keeps the coordinate space, from `previous`. -/
def compatibleObservation (previous anchor : TerminalHistoryWindowAnchor) :
    ViewportAnchorObservation :=
  let growth := anchor.maxOffsetFromBottom - previous.maxOffsetFromBottom
  let translate (offset : Nat) := min (saturatingAdd offset growth) anchor.maxOffsetFromBottom
  if growth > 0 ∧ c.desiredOffsetFromBottom > 0 then
    c.anchorObservation (some anchor) (translate c.desiredOffsetFromBottom)
      (c.presentedOffsetFromBottom.map translate) .preserve true
  else if anchor.revision > previous.revision ∧ c.desiredOffsetFromBottom = 0 then
    -- live rows of an older revision must not be shown as the new one's
    c.anchorObservation (some anchor) c.desiredOffsetFromBottom none
      (if c.pages.isNone then .invalidateRows else .preserve) true
  else
    c.anchorObservation (some anchor) c.desiredOffsetFromBottom c.presentedOffsetFromBottom
      .preserve true

def previewAnchorObservation (anchor : TerminalHistoryWindowAnchor) : ViewportAnchorObservation :=
  if !anchor.isValid then ⟨none, 0, none, .invalidateAll, false, none⟩
  else
    match c.latestAnchor with
    | none =>
      c.anchorObservation (some anchor) c.desiredOffsetFromBottom c.presentedOffsetFromBottom
        .preserve true
    | some previous =>
      if anchor.revision < previous.revision then
        -- an older observation never moves the coordinate space back
        c.anchorObservation c.latestAnchor c.desiredOffsetFromBottom c.presentedOffsetFromBottom
          .preserve true
      else if previous.epoch ≠ anchor.epoch ∨ previous.viewport ≠ anchor.viewport ∨
          anchor.maxOffsetFromBottom < previous.maxOffsetFromBottom then
        c.anchorObservation (some anchor)
          (min c.desiredOffsetFromBottom anchor.maxOffsetFromBottom) none .invalidateRows false
      else c.compatibleObservation previous anchor

def commitAnchorObservation (observation : ViewportAnchorObservation) :
    Bool × ViewportCache Row :=
  let c := match observation.cacheAction with
    | .preserve => c
    | .invalidateRows => c.dropRows
    | .invalidateAll => { c.dropRows with pendingQuery := none }
  (observation.compatible, { c with
    latestAnchor := observation.latestAnchor
    desiredOffsetFromBottom := observation.desiredOffsetFromBottom
    presentedOffsetFromBottom := observation.presentedOffsetFromBottom })

def observeAnchor (anchor : TerminalHistoryWindowAnchor) : Bool × ViewportCache Row :=
  c.commitAnchorObservation (c.previewAnchorObservation anchor)

/-! ### Requests -/

/-- `anchor.max - target` as the release build computes it. -/
def wrappingSub (a b : Nat) : Nat := (a + 2 ^ 64 - b) % 2 ^ 64

/-- A paged cache's margins include the complete edge viewport. -/
def makeQuery (anchor : TerminalHistoryWindowAnchor) (target : Nat) : TerminalHistoryWindowQuery :=
  let query := Core.makeQuery anchor target
  let rows := anchor.viewport.rows
  let older := wrappingSub anchor.maxOffsetFromBottom target
  if c.pages.isNone then query
  else if target ≤ rows then
    { query with
      newerMarginRows := target
      olderMarginRows := (rows * 2 + 2 ^ 16 - target) % 2 ^ 16 }
  else if older ≤ rows then
    { query with
      olderMarginRows := older
      newerMarginRows := (rows * 2 + 2 ^ 16 - older) % 2 ^ 16 }
  else query

def ask (anchor : TerminalHistoryWindowAnchor) (target : Nat) :
    Option TerminalHistoryWindowQuery × ViewportCache Row :=
  let query := c.makeQuery anchor target
  (some query, { c with pendingQuery := some query })

def needsPrefetch (target : Nat) : Bool :=
  match c.window with
  | none => false
  | some window =>
    match window.endRowExclusive,
      (c.latestAnchor.bind fun latest => targetInWindowCoordinates latest window.anchor target).bind
        fun target => checkedI64 target with
    | some stop, some target =>
      let rows : Int := window.anchor.viewport.rows
      let visibleStart := -target
      let visibleEnd := saturateI64 (visibleStart + rows)
      let threshold : Int := max ((window.anchor.viewport.rows + 1) / 2) 1
      let oldest := -((checkedI64 window.anchor.maxOffsetFromBottom).getD (2 ^ 63 - 1))
      (window.firstRowFromLiveTop > oldest &&
          saturateI64 (visibleStart - window.firstRowFromLiveTop) < threshold) ||
        (stop < rows && saturateI64 (stop - visibleEnd) < threshold)
    | _, _ => true

/-- The desired target set, and its page moved to the back. -/
def aim (anchor : TerminalHistoryWindowAnchor) (target : Nat) : ViewportCache Row :=
  { c with
    desiredOffsetFromBottom := target
    pages := c.pages.map fun pages => pages.touch anchor target }

def setTarget (targetOffsetFromBottom : Nat) : ViewportCacheUpdate × ViewportCache Row :=
  match c.latestAnchor with
  | none => (⟨false, none⟩, c)
  | some anchor =>
    let target := min targetOffsetFromBottom anchor.maxOffsetFromBottom
    let c := c.aim anchor target
    let renderLocal := c.visibleRows.isSome
    if c.pendingQuery.isNone ∧
        (!renderLocal ∨ (c.pages.isNone ∧ c.needsPrefetch target)) then
      let (request, c) := c.ask anchor target
      (⟨renderLocal, request⟩, c)
    else (⟨renderLocal, none⟩, c)

def prefetchTarget (anchor : TerminalHistoryWindowAnchor) (offset : Nat) (older : Bool)
    (screen : Nat) : Nat :=
  let distance := anchor.viewport.rows * screen
  if older then min (saturatingAdd offset distance) anchor.maxOffsetFromBottom
  else offset - distance

/-- The first missing page among `screens`, in order. -/
def prefetchScreens (anchor : TerminalHistoryWindowAnchor) (offset : Nat) (older : Bool) :
    List Nat → Option TerminalHistoryWindowQuery × ViewportCache Row
  | [] => (none, c)
  | screen :: screens =>
    let target := prefetchTarget anchor offset older screen
    if target = offset then (none, c)
    else if (c.windowFor anchor target).isNone then c.ask anchor target
    else prefetchScreens anchor offset older screens

def prefetchToward (offset : Nat) (older : Bool) (screens : Nat) :
    Option TerminalHistoryWindowQuery × ViewportCache Row :=
  match c.pages, c.pendingQuery, c.latestAnchor with
  | some _, none, some anchor =>
    c.prefetchScreens anchor offset older ((List.range (max 2 (min screens 8))).map (· + 1))
  | _, _, _ => (none, c)

def deferPendingRequest : ViewportCache Row := { c with pendingQuery := none }

/-! ### Responses -/

def followLatestAfterStaleResponse (latest : TerminalHistoryWindowAnchor) :
    ViewportCacheInstall × ViewportCache Row :=
  let c := { c with
    latestAnchor := some latest
    desiredOffsetFromBottom := min c.desiredOffsetFromBottom latest.maxOffsetFromBottom }
  if c.desiredOffsetFromBottom > 0 then
    let (request, c) := c.ask latest c.desiredOffsetFromBottom
    (⟨false, false, request⟩, c)
  else (⟨false, false, none⟩, c)

def sameIdentity (a b : TerminalHistoryWindowAnchor) : Bool :=
  a.epoch = b.epoch && a.viewport = b.viewport

/-- The anchor after a response and the desired target in its coordinates, or `none` when the
response is older than what is known. -/
def resolveResponse (pending : TerminalHistoryWindowQuery) (window : CachedViewportWindow Row)
    (previous : TerminalHistoryWindowAnchor) : Option (TerminalHistoryWindowAnchor × Nat) :=
  let response := window.anchor
  let same := sameIdentity previous response
  let desired := c.desiredOffsetFromBottom
  if !same && !(response.revision > previous.revision) then none
  else if same && response.maxOffsetFromBottom > previous.maxOffsetFromBottom &&
      response.revision ≤ previous.revision then none
  else if same && response.revision ≤ previous.revision &&
      response.maxOffsetFromBottom ≤ previous.maxOffsetFromBottom then some (previous, desired)
  else
    let growth := if same then response.maxOffsetFromBottom - previous.maxOffsetFromBottom else 0
    some (response,
      if desired = pending.targetOffsetFromBottom then window.targetOffsetFromBottom
      else if same ∧ desired > 0 then saturatingAdd desired growth
      else desired)

/-- The window kept, for the single window only when it shows the target: whether it did not fit
and whether the target is covered. -/
def keepWindow (latest : TerminalHistoryWindowAnchor) (same : Bool)
    (window : CachedViewportWindow Row) (reserved nestedBytes : Nat) :
    Bool × Bool × ViewportCache Row :=
  match c.pages with
  | none =>
    let covers := ((targetInWindowCoordinates latest window.anchor c.desiredOffsetFromBottom).bind
      window.visibleRows).isSome
    (false, covers, if covers then { c with window := some window } else c)
  | some pages =>
    let pages := if same then pages else pages.discardUnpinned
    let (inserted, pages) := pages.insert layout window reserved nestedBytes
    let c := { c with pages := some pages }
    (!inserted, c.visibleRows.isSome, c)

/-- Installs a response at its anchor and asks again if the target is not covered. -/
def place (latest : TerminalHistoryWindowAnchor) (desired : Nat) (same : Bool)
    (window : CachedViewportWindow Row) (reserved nestedBytes : Nat) :
    ViewportCacheInstall × ViewportCache Row :=
  let desired := min desired latest.maxOffsetFromBottom
  let c := { c with latestAnchor := some latest, desiredOffsetFromBottom := desired }
  let (capacityRejected, covers, c) := c.keepWindow layout latest same window reserved nestedBytes
  if !covers ∧ !capacityRejected ∧ (c.pages.isNone ∨ desired > 0) then
    let (request, c) := c.ask latest desired
    (⟨capacityRejected, covers, request⟩, c)
  else (⟨capacityRejected, covers, none⟩, c)

def installAccountedWindow (window : CachedViewportWindow Row) (reserved nestedBytes : Nat) :
    Except (CachedViewportWindow Row) ViewportCacheInstall × ViewportCache Row :=
  match c.pendingQuery with
  | none => (.error window, c)
  | some pending =>
    if !window.isValidFor pending then (.error window, c)
    else
      let c := { c with pendingQuery := none }
      let previous := c.latestAnchor.getD window.anchor
      match c.resolveResponse pending window previous with
      | none =>
        let (install, c) := c.followLatestAfterStaleResponse previous
        (.ok install, c)
      | some (latest, desired) =>
        -- a live prefetch overtaken by newer output stays dirty until the next miss
        if c.pages.isNone ∧ desired = 0 ∧ window.anchor.revision < latest.revision then
          (.ok ⟨false, false, none⟩, c)
        else
          let (install, c) := c.place layout latest desired (sameIdentity previous window.anchor)
            window reserved nestedBytes
          (.ok install, c)

def installWindow (window : CachedViewportWindow Row) (reserved : Nat) :
    Except (CachedViewportWindow Row) ViewportCacheInstall × ViewportCache Row :=
  if c.pages.isSome then (.error window, c) else c.installAccountedWindow layout window reserved 0

/-! ### Presentation and reset -/

def commitVisiblePresentation : Option ViewportSliceIdentity × ViewportCache Row :=
  if c.visibleRows.isNone then (none, c)
  else
    let c := { c with presentedOffsetFromBottom := some c.desiredOffsetFromBottom }
    (c.presentedSliceIdentity, c)

def invalidate : ViewportCache Row :=
  { c.dropRows with
    latestAnchor := none
    desiredOffsetFromBottom := 0
    presentedOffsetFromBottom := none
    pendingQuery := none }

def invalidateRows : ViewportCache Row := { c.dropRows with presentedOffsetFromBottom := none }

end ViewportCache

/-! ## Runs -/

inductive CacheOp (Row : Type) where
  | observe (anchor : TerminalHistoryWindowAnchor)
  | setTarget (target : Nat)
  | prefetch (offset : Nat) (older : Bool) (screens : Nat)
  | install (window : CachedViewportWindow Row) (reserved : Nat)
  | installAccounted (window : CachedViewportWindow Row) (reserved nestedBytes : Nat)
  | defer
  | commitVisible
  | captureLive (rows : List Row) (reserved nestedBytes : Nat)
  | captureLiveAt (anchor : TerminalHistoryWindowAnchor) (rows : List Row)
      (reserved nestedBytes : Nat)
  | pinVisible
  | unpin (page : Nat)
  | invalidate
  | invalidateRows

namespace ViewportCache

variable {Row : Type} (layout : Layout) (c : ViewportCache Row)

def apply : CacheOp Row → ViewportCache Row
  | .observe anchor => (c.observeAnchor anchor).2
  | .setTarget target => (c.setTarget target).2
  | .prefetch offset older screens => (c.prefetchToward offset older screens).2
  | .install window reserved => (c.installWindow layout window reserved).2
  | .installAccounted window reserved nestedBytes =>
    (c.installAccountedWindow layout window reserved nestedBytes).2
  | .defer => c.deferPendingRequest
  | .commitVisible => c.commitVisiblePresentation.2
  | .captureLive rows reserved nestedBytes => (c.captureLive layout rows reserved nestedBytes).2
  | .captureLiveAt anchor rows reserved nestedBytes =>
    (c.captureLiveAt layout anchor rows reserved nestedBytes).2
  | .pinVisible => c.pinVisibleWindow.2
  | .unpin page => { c with pages := c.pages.map (·.unpin page) }
  | .invalidate => c.invalidate
  | .invalidateRows => c.invalidateRows

def issued : CacheOp Row → Option TerminalHistoryWindowQuery
  | .setTarget target => (c.setTarget target).1.request
  | .prefetch offset older screens => (c.prefetchToward offset older screens).1
  | .install window reserved =>
    (c.installWindow layout window reserved).1.toOption.bind (·.request)
  | .installAccounted window reserved nestedBytes =>
    (c.installAccountedWindow layout window reserved nestedBytes).1.toOption.bind (·.request)
  | _ => none

end ViewportCache

end Voytty.Core
