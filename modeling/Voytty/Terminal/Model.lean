import Voytty.Terminal.Ingress

/-!
# The host terminal model

`terminal/src/model.rs`: the engine behind its filter, with revisions, history
epochs and synchronized output. `ingest` works in rounds; a round ends at a
presentation boundary or with the bytes. Every function that can fail returns
the model it leaves behind beside the outcome, since a failed round keeps what
it did before it failed.
-/

namespace Voytty.Terminal

open Voytty.Lib

/-- Baseline for one merged delta. -/
structure TerminalCheckpoint where
  revision : Nat
  projection : ProjectedScreen
  deriving DecidableEq

/-- How long a batch may be held, in milliseconds. -/
def synchronizedOutputLimit : Nat := 150

/-- The frozen view of a batch of synchronized output. -/
structure SynchronizedOutput where
  checkpoint : TerminalCheckpoint
  scrollMetrics : Option TerminalScrollMetrics
  deadline : Nat
  deriving DecidableEq

inductive TerminalError where
  | invalidColors
  | invalidSize (size : TerminalSize)
  | allocationOverflow (size : TerminalSize) (scrollbackRows : Nat)
  | revisionOverflow
  | replyOverflow
  deriving DecidableEq, Repr

structure TerminalUpdate where
  revision : Nat
  replies : List UInt8 := []
  events : List TerminalSideEvent := []
  hostEffects : TerminalHostEffects := {}

structure TerminalModel (R : Type) where
  engine : AlacrittyEngine R
  ingress : TerminalIngressPolicy
  revision : Nat
  scrollbackRows : Nat
  historyEpoch : Nat
  retainedHistoryRows : Nat
  synchronized : Option SynchronizedOutput

/-- Sizes are nonzero and the grid's cells countable in 64 bits. -/
def validateAllocation (size : TerminalSize) (scrollbackRows : Nat) : Except TerminalError Unit :=
  if size.rows = 0 ∨ size.columns = 0 then .error (.invalidSize size)
  else if size.rows * size.columns * 2 + scrollbackRows * size.columns < 2 ^ 64 ∧
      scrollbackRows ≤ 2 ^ 31 - 1 then .ok ()
  else .error (.allocationOverflow size scrollbackRows)

variable {R : Type} (em : Emulator R)

namespace TerminalModel

variable (t : TerminalModel R)

def new (size : TerminalSize) (scrollbackRows : Nat) : Except TerminalError (TerminalModel R) :=
  match validateAllocation size scrollbackRows with
  | .error e => .error e
  | .ok () => .ok
    { engine := .new em size scrollbackRows
      ingress := {}
      revision := 0
      scrollbackRows := scrollbackRows
      historyEpoch := 0
      retainedHistoryRows := 0
      synchronized := none }

def size : TerminalSize := t.engine.size

def publishedRevision : Nat :=
  match t.synchronized with
  | some held => held.checkpoint.revision
  | none => t.revision

def presentationDeadline : Option Nat := t.synchronized.map (·.deadline)

def finishSynchronizedOutput : Bool × TerminalModel R :=
  (t.synchronized.isSome,
    { t with ingress := { t.ingress with synchronizedOutput := false }, synchronized := none })

def expireSynchronizedOutput (now : Nat) : Bool × TerminalModel R :=
  if t.presentationDeadline.any (· ≤ now) then t.finishSynchronizedOutput else (false, t)

def nextRevision : Except TerminalError Nat :=
  match checkedNext t.revision with
  | some revision => .ok revision
  | none => .error .revisionOverflow

theorem nextRevision_ok {revision : Nat} (h : t.nextRevision = .ok revision) :
    revision = t.revision + 1 := by
  unfold nextRevision at h
  split at h
  · rename_i hnext
    rw [← Except.ok.inj h, checkedNext_some hnext]
  · cases h

theorem nextRevision_error {e : TerminalError} (h : t.nextRevision = .error e) :
    e = .revisionOverflow := by
  unfold nextRevision at h
  split at h <;> cases h
  rfl

def refreshHistoryEpochAfterIngest : TerminalModel R :=
  if t.engine.activeScreen ≠ .main then t else
  let retained := t.engine.term.historySize
  let reachedCapacity : Bool := t.scrollbackRows > 0 && retained == t.scrollbackRows &&
    t.retainedHistoryRows ≤ retained
  { t with
    historyEpoch :=
      if retained < t.retainedHistoryRows ∨ reachedCapacity then t.revision else t.historyEpoch
    retainedHistoryRows := retained }

def commitMetadata : TerminalModel R :=
  let t := { t with engine := { t.engine with colors := t.engine.colors.commit t.revision } }
  if t.engine.gridInput then t.refreshHistoryEpochAfterIngest else t

/-! ## Published views -/

def checkpoint : TerminalCheckpoint :=
  match t.synchronized with
  | some held => held.checkpoint
  | none => ⟨t.revision, project t.engine⟩

def liveScrollMetrics : Option TerminalScrollMetrics :=
  match t.synchronized with
  | some held => held.scrollMetrics
  | none =>
    if t.engine.activeScreen = .main then
      some
        { epoch := t.historyEpoch
          revision := t.revision
          offsetFromBottom := 0
          maxOffsetFromBottom := t.retainedHistoryRows
          viewportRows := t.size.rows }
    else none

def snapshot : TerminalSurfaceSnapshot :=
  let checkpoint := t.checkpoint
  ⟨checkpoint.revision, checkpoint.projection.toSurface t.liveScrollMetrics⟩

def rowPatches (before after : List ProjectedRow) : List TerminalSurfaceRowPatch :=
  (diff ProjectedRow.toSurfaceRow before after).map fun p => ⟨saturateU16 p.1, p.2⟩

def updateFromProjection (checkpoint : Option TerminalCheckpoint) (latest : ProjectedScreen) :
    TerminalSurfaceDeltaResult :=
  let snapshot : TerminalSurfaceSnapshot :=
    ⟨t.publishedRevision, latest.toSurface t.liveScrollMetrics⟩
  match checkpoint with
  | none => .resync snapshot
  | some checkpoint =>
    if checkpoint.revision ≥ t.publishedRevision ∨
        checkpoint.projection.version ≠ checkpointFormatVersion ∨
        checkpoint.projection.size ≠ latest.size ∨
        checkpoint.projection.activeScreen ≠ latest.activeScreen then
      .resync snapshot
    else
      .delta
        { applicationTitle := latest.applicationTitle
          colors := latest.colors
          fromRevision := checkpoint.revision
          toRevision := t.publishedRevision
          size := latest.size
          activeScreen := latest.activeScreen
          rowPatches := rowPatches checkpoint.projection.rows latest.rows
          cursor := latest.cursor
          modes := latest.modes
          scrollMetrics := t.liveScrollMetrics }

/-- One update and its exact next baseline. -/
def capture (checkpoint : Option TerminalCheckpoint) :
    TerminalSurfaceDeltaResult × TerminalCheckpoint :=
  let next := t.checkpoint
  (t.updateFromProjection checkpoint next.projection, next)

end TerminalModel

/-! ## Ingestion -/

/-- A call of `ingest` under way: the model, the collected output, the models shown to the
observer and how often the clock was read. -/
structure Ingest (R : Type) where
  model : TerminalModel R
  output : UpdateCollector := {}
  observed : List (TerminalModel R) := []
  tick : Nat := 0

namespace Ingest

variable (clock : Nat → Nat) (g : Ingest R)

def publish : Ingest R := { g with observed := g.observed ++ [g.model] }

def setModel (model : TerminalModel R) : Ingest R := { g with model }

def expire : Ingest R :=
  let (released, model) := g.model.expireSynchronizedOutput (clock g.tick)
  let g := { g with model := model, tick := g.tick + 1 }
  if released then g.publish else g

/-- Starts a batch: the view is frozen, and siblings of the mode get a revision of their own. -/
def freeze (modes : List Nat) : Except TerminalError Unit × Ingest R :=
  let g := g.publish
  let held : SynchronizedOutput :=
    ⟨g.model.checkpoint, g.model.liveScrollMetrics, clock g.tick + synchronizedOutputLimit⟩
  let g := { g with model := { g.model with synchronized := some held }, tick := g.tick + 1 }
  if modes.isEmpty then (.ok (), g)
  else
    match g.model.nextRevision with
    | .error e => (.error e, g)
    | .ok revision => (.ok (), g.setModel { g.model with revision })

def applySiblings (enabled : Bool) (modes : List Nat) : Ingest R :=
  let engine := applyPrivateModes em modes enabled { g.model.engine with gridInput := false }
  let (events, engine) := engine.takeEvents
  let output := { g.output with events := events.foldl EventBuffer.push g.output.events }
  { g with model := { g.model with engine }.commitMetadata, output := output }

def applyBoundary (boundary : Option PresentationBoundary) : Except TerminalError Unit × Ingest R :=
  match boundary with
  | none => (.ok (), g)
  | some .reset => (.ok (), (g.setModel g.model.finishSynchronizedOutput.2).publish)
  | some (.synchronizedOutput enabled modes) =>
    match if enabled ∧ g.model.synchronized.isNone then g.freeze clock modes else (.ok (), g) with
    | (.error e, g) => (.error e, g)
    | (.ok (), g) =>
      let g := g.applySiblings em enabled modes
      if enabled then (.ok (), g)
      else (.ok (), (g.setModel g.model.finishSynchronizedOutput.2).publish)

def install (revision : Nat) (m : Machine R) : Ingest R :=
  { g with
    model := { g.model with engine := m.engine, ingress := m.policy, revision }
    output := m.output }

def takeBoundary : Ingest R :=
  g.setModel { g.model with ingress := { g.model.ingress with boundary := none } }

def round (bytes : List UInt8) : Except TerminalError (List UInt8) × Ingest R :=
  let g := g.expire clock
  match g.model.nextRevision with
  | .error e => (.error e, g)
  | .ok revision =>
    let m : Machine R := ⟨g.model.ingress, { g.model.engine with gridInput := false }, g.output⟩
    match Machine.processUntilBoundary em bytes m with
    | (.error .replyOverflow, m) => (.error .replyOverflow, g.install revision m)
    | (.ok rest, m) =>
      let g := g.install revision m
      let g := (g.setModel g.model.commitMetadata).takeBoundary
      match g.applyBoundary em clock m.policy.boundary with
      | (.error e, g) => (.error e, g)
      | (.ok (), g) => (.ok rest, g)

/-- Rounds until the bytes are used; each round uses a byte. -/
def rounds : Nat → List UInt8 → Ingest R → Except TerminalError Unit × Ingest R
  | _, [], g => (.ok (), g)
  | 0, _ :: _, g => (.ok (), g)
  | fuel + 1, bytes, g =>
    match g.round em clock bytes with
    | (.error e, g) => (.error e, g)
    | (.ok rest, g) => rounds fuel rest g

/-- A round that succeeds uses at least a byte. -/
theorem round_length {bytes rest : List UInt8} {g' : Ingest R} (hne : bytes ≠ [])
    (h : g.round em clock bytes = (.ok rest, g')) : rest.length < bytes.length := by
  unfold round at h
  dsimp only at h
  split at h
  · cases h
  split at h
  · cases h
  rename_i hm
  split at h
  · cases h
  · obtain ⟨hrest, -⟩ := Prod.mk.inj h
    obtain rfl := Except.ok.inj hrest
    exact Machine.processUntilBoundary_length em hne hm

/-- The fuel `ingestObserving` gives is enough: more changes nothing. -/
theorem rounds_fuel {fuel fuel' : Nat} {bytes : List UInt8} (h : bytes.length ≤ fuel)
    (h' : bytes.length ≤ fuel') (g : Ingest R) :
    rounds em clock fuel bytes g = rounds em clock fuel' bytes g := by
  induction fuel generalizing fuel' bytes g with
  | zero =>
    obtain rfl := List.length_eq_zero_iff.mp (Nat.le_zero.mp h)
    simp only [rounds]
  | succ fuel ih =>
    cases bytes with
    | nil => simp only [rounds]
    | cons b bytes =>
      obtain ⟨fuel', rfl⟩ : ∃ n, fuel' = n + 1 := ⟨fuel' - 1, by simp at h'; omega⟩
      simp only [rounds]
      split
      · rfl
      · rename_i rest g' hr
        have hlt := round_length em clock g (by simp) hr
        exact ih (by omega) (by omega) g'

end Ingest

namespace TerminalModel

variable (clock : Nat → Nat) (t : TerminalModel R)

/-- One ordered chunk of output; `clock` gives the successive readings of the clock. -/
def ingestObserving (bytes : List UInt8) : Except TerminalError TerminalUpdate × Ingest R :=
  if bytes.isEmpty then (.ok { revision := t.revision }, { model := t })
  else
    match Ingest.rounds em clock bytes.length bytes { model := t } with
    | (.error e, g) => (.error e, g)
    | (.ok (), g) =>
      let g := if g.model.synchronized.isNone then g.publish else g
      (.ok
        { revision := g.model.revision
          replies := g.output.replies
          events := g.output.events.finish
          hostEffects := g.output.hostEffects }, g)

def ingest (bytes : List UInt8) : Except TerminalError TerminalUpdate × TerminalModel R :=
  let (result, g) := t.ingestObserving em clock bytes
  (result, g.model)

/-! ## Other commands -/

/-- Installs the controller's observed colours. -/
def updateBaseColors (base : TerminalColorProfile) :
    Except TerminalError TerminalUpdate × TerminalModel R :=
  if !base.isValid then (.error .invalidColors, t)
  else if t.engine.colors.base = base then (.ok { revision := t.revision }, t)
  else
    match t.nextRevision with
    | .error e => (.error e, t)
    | .ok next =>
      let colors := { t.engine.colors with base := base }.commit next
      let t := { t with engine := { t.engine with colors }, revision := next }
      let replies := if colors.subscribed then encode colors.appearanceReply else []
      (.ok { revision := next, replies := replies }, t)

def preflightResize (size : TerminalSize) : Except TerminalError Nat :=
  match validateAllocation size t.scrollbackRows with
  | .error e => .error e
  | .ok () => t.nextRevision

/-- Resizes the viewport; the revision advances once and a batch ends. -/
def resize (size : TerminalSize) : Except TerminalError TerminalUpdate × TerminalModel R :=
  match t.preflightResize size with
  | .error e => (.error e, t)
  | .ok next =>
    let t := { t with engine := t.engine.resize em size }.finishSynchronizedOutput.2
    let t := { t with
      revision := next
      historyEpoch := next
      retainedHistoryRows :=
        if t.engine.activeScreen = .main then t.engine.term.historySize
        else t.retainedHistoryRows }
    (.ok { revision := next }, t)

end TerminalModel

end Voytty.Terminal
