import Voytty.Daemon.SessionRegistry
import Voytty.Terminal.Runs

/-!
# The session actor

The runtime of one session (`daemon/src/session.rs`) over its terminal
(`daemon/src/terminal_driver.rs`). Clients attach, acknowledge snapshots, take
updates and take over control; one attachment at a time is the controller.

The terminal's own threads go on between the accesses of a command, so a command
carries what they did before each one (`Meanwhile`). An attachment shares its
lifecycle, its detached flag and its final update with the client's handle; those
outlive the attachment and are named by their position. What the PTY answers is an
argument, and poisoned locks are left out.
-/

namespace Voytty.Daemon

open Voytty.Lib Voytty.Terminal

variable {R : Type}

/-! ## Errors -/

def invalidSession (detail : String) : DaemonError := ⟨.sessionNotFound, detail⟩

def principalMismatch : DaemonError :=
  ⟨.leaseLost, "takeover attachment belongs to a different principal"⟩

def notSynchronized (detail : String) : DaemonError := ⟨.notSynchronized, detail⟩

def leaseLost : DaemonError :=
  ⟨.leaseLost, "attachment does not own the current controller lease"⟩

def TerminalSize.text (size : TerminalSize) : String :=
  toString size.columns ++ "x" ++ toString size.rows

def terminalErrorText : TerminalError → String
  | .invalidColors => "invalid terminal colors"
  | .invalidSize size => "terminal size must be non-zero, got " ++ TerminalSize.text size
  | .allocationOverflow size scrollbackRows =>
    "terminal allocation dimensions overflow for " ++ TerminalSize.text size ++ " with " ++
      toString scrollbackRows ++ " scrollback rows"
  | .revisionOverflow => "terminal revision overflow"
  | .replyOverflow => "terminal reply output exceeded its bound"

def mapTerminalError (error : TerminalError) : DaemonError :=
  ⟨.resourceExhausted, terminalErrorText error⟩

/-! ## The terminal -/

/-- Host effects wait here for the one attachment they are meant for. -/
structure TerminalEffectBroker where
  target : Option AttachmentId := none
  pending : TerminalHostEffects := {}

namespace TerminalEffectBroker

/-- A new target does not see what was meant for the old one. -/
def setTarget (b : TerminalEffectBroker) (target : Option AttachmentId) : TerminalEffectBroker :=
  if b.target ≠ target then { target } else b

/-- Effects in the order `pop` gives them. -/
def drain (effects : TerminalHostEffects) : List TerminalHostEffect :=
  (effects.clipboard.map .clipboardWrite).toList ++ effects.notifications.map .notification

def publish (b : TerminalEffectBroker) (effects : TerminalHostEffects) : TerminalEffectBroker :=
  if b.target.isNone then b
  else { b with pending := (drain effects).foldl TerminalHostEffects.push b.pending }

def takeFor (b : TerminalEffectBroker) (id : AttachmentId) :
    Option TerminalHostEffect × TerminalEffectBroker :=
  if b.target = some id then (b.pending.pop.1, { b with pending := b.pending.pop.2 })
  else (none, b)

end TerminalEffectBroker

/-- `TerminalDriver` with the terminal it shares; a failure is kept as the error it maps to. The
commit lock, which keeps new colours and sizes out while an update is unsent, is not modelled:
runs without it include those with it. -/
structure TerminalDriver (R : Type) where
  model : TerminalModel R
  failure : Option DaemonError := none
  effects : TerminalEffectBroker := {}
  unsent : Option TerminalUpdate := none
  stopped : Bool := false

/-- What the terminal's own threads do: the model thread ingests a chunk and then sends its replies
and effects, and the reader can fail. -/
inductive DriverEvent where
  | ingest (clock : Nat → Nat) (bytes : List UInt8)
  | deliver (ptyError : Option DaemonError)
  | expire (now : Nat)
  | endOfFile
  | fail (error : DaemonError)

/-- The baseline a client holds. -/
structure TerminalAttachment where
  checkpoint : Option TerminalCheckpoint := none
  deriving DecidableEq

namespace TerminalDriver

variable (em : Emulator R) (d : TerminalDriver R)

def fail (error : DaemonError) : TerminalDriver R :=
  if d.failure.isNone then { d with failure := some error } else d

/-- The model thread takes no new work. -/
def busy : Bool := d.stopped || d.unsent.isSome

def deliver (ptyError : Option DaemonError) : TerminalDriver R :=
  match d.unsent with
  | none => d
  | some update =>
    match if update.replies.isEmpty then none else ptyError with
    | some e => { d with unsent := none, stopped := true }.fail e
    | none => { d with unsent := none, effects := d.effects.publish update.hostEffects }

def react : DriverEvent → TerminalDriver R
  | .ingest clock bytes =>
    if d.busy then d else
    match d.model.ingest em clock bytes with
    | (.ok update, model) => { d with model, unsent := some update }
    | (.error e, model) => { d with model, stopped := true }.fail (mapTerminalError e)
  | .deliver ptyError => d.deliver ptyError
  | .expire now =>
    if d.busy then d else { d with model := (d.model.expireSynchronizedOutput now).2 }
  | .endOfFile =>
    if d.busy then d else { d with model := d.model.finishSynchronizedOutput.2, stopped := true }
  | .fail error => d.fail error

def meet (events : List DriverEvent) : TerminalDriver R := events.foldl (react em) d

/-- The revision if the call changed the colours. A reply that cannot be written is a failure of
the terminal. -/
def updateBaseColors (base : TerminalColorProfile) (ptyError : Option DaemonError) :
    Except DaemonError (Option Nat) × TerminalDriver R :=
  match d.model.updateBaseColors base with
  | (.error e, _) => (.error (mapTerminalError e), d)
  | (.ok update, model) =>
    match if update.replies.isEmpty then none else ptyError with
    | some e => (.error e, { d with model }.fail e)
    | none =>
      (.ok (if update.revision ≠ d.model.revision then some update.revision else none),
        { d with model })

def resize (size : TerminalSize) (ptyError : Option DaemonError) :
    Except DaemonError Nat × TerminalDriver R :=
  match d.model.preflightResize size, ptyError with
  | .error e, _ => (.error (mapTerminalError e), d)
  | .ok _, some e => (.error e, d)
  | .ok _, none =>
    match d.model.resize em size with
    | (.error e, _) => (.error (mapTerminalError e), d)
    | (.ok update, model) => (.ok update.revision, { d with model })

def syncLatest (a : TerminalAttachment) :
    Except DaemonError TerminalSurfaceDeltaResult × TerminalAttachment :=
  match d.failure with
  | some e => (.error e, a)
  | none => (.ok (d.model.capture a.checkpoint).1, ⟨some (d.model.capture a.checkpoint).2⟩)

/-- Nothing while the client holds the published revision. -/
def syncChanged (a : TerminalAttachment) :
    Except DaemonError (Option TerminalSurfaceDeltaResult) × TerminalAttachment :=
  match d.failure with
  | some e => (.error e, a)
  | none =>
    if a.checkpoint.any (·.revision = d.model.publishedRevision) then (.ok none, a) else
    (.ok (some (d.model.capture a.checkpoint).1), ⟨some (d.model.capture a.checkpoint).2⟩)

def latestSnapshot : Except DaemonError TerminalSurfaceSnapshot :=
  match d.failure with
  | some e => .error e
  | none => .ok d.model.snapshot

def fullSync : Except DaemonError TerminalSurfaceSnapshot × TerminalAttachment :=
  match d.syncLatest {} with
  | (.error e, a) => (.error e, a)
  | (.ok (.resync snapshot), a) => (.ok snapshot, a)
  | (.ok (.delta _), a) => (.error
      ⟨.malformedFrame, "discarded attachment checkpoint did not produce a full snapshot"⟩, a)

end TerminalDriver

/-! ## Attachments -/

abbrev ResumeViewId := Nat

structure ControllerLease where
  attachmentId : AttachmentId
  generation : Nat
  deriving DecidableEq, Repr

structure ReplayOperationKey where
  replayKey : ReplayKey
  operationId : OperationId
  deriving DecidableEq, Repr

inductive SyncTarget where
  | active (generation : Nat)
  | preparedTakeover
  deriving DecidableEq, Repr

inductive AttachmentSync where
  | awaiting (revision : Nat) (target : SyncTarget)
  | active (generation : Nat)
  | preparedTakeover
  deriving DecidableEq, Repr

/-- What an attachment is, or will be once its snapshot is acknowledged. -/
def AttachmentSync.target : AttachmentSync → SyncTarget
  | .awaiting _ target => target
  | .active generation => .active generation
  | .preparedTakeover => .preparedTakeover

inductive SessionEndReason where
  | naturalExit (exitCode : Nat) (signal : Option String)
  | explicitClose
  | daemonStop
  | driverFailure
  deriving DecidableEq, Repr

inductive AttachmentLifecycle where
  | awaitingSnapshot (revision : Nat)
  | active (generation : Nat)
  | preparedTakeover
  | leaseLost (generation : Nat)
  | sessionEnded (reason : SessionEndReason)
  deriving DecidableEq, Repr

inductive AttachmentUpdate where
  | snapshot (s : TerminalSurfaceSnapshot)
  | delta (d : TerminalSurfaceDelta)
  deriving DecidableEq

def semanticUpdateValue : TerminalSurfaceDeltaResult → AttachmentUpdate
  | .delta d => .delta d
  | .resync s => .snapshot s

/-- The side of an attachment that its client holds. -/
structure AttachmentHandle where
  lifecycle : AttachmentLifecycle
  detached : Bool := false
  finalUpdate : Option (Except DaemonError (Option AttachmentUpdate)) := none

structure ActorAttachment where
  baseColors : TerminalColorProfile
  colorSequence : Nat := 0
  pendingColorSnapshot : Option TerminalSurfaceSnapshot := none
  principal : AttachmentPrincipal
  resumeViewId : Option ResumeViewId
  terminal : TerminalAttachment
  everActive : Bool := false
  preparedSnapshotApplied : Bool := false
  appliedSnapshotRevision : Option Nat := none
  sync : AttachmentSync
  handle : Nat
  deriving DecidableEq

def SyncTarget.lifecycle : SyncTarget → AttachmentLifecycle
  | .active generation => .active generation
  | .preparedTakeover => .preparedTakeover

def ActorAttachment.applied (a : ActorAttachment) (revision : Nat) : ActorAttachment :=
  let a := { a with pendingColorSnapshot := none, appliedSnapshotRevision := some revision }
  match a.sync.target with
  | .active generation => { a with everActive := true, sync := .active generation }
  | .preparedTakeover => { a with preparedSnapshotApplied := true, sync := .preparedTakeover }

/-- The attachment has acknowledged a snapshot while it waits to take over. -/
def ActorAttachment.takeoverReady (a : ActorAttachment) : Bool :=
  match a.sync with
  | .preparedTakeover => true
  | .awaiting _ .preparedTakeover => a.preparedSnapshotApplied
  | _ => false

/-- The attachment under its new lease; a snapshot on its way keeps it waiting. -/
def ActorAttachment.promoted (a : ActorAttachment) (generation : Nat) : ActorAttachment :=
  match a.sync with
  | .awaiting revision _ => { a with sync := .awaiting revision (.active generation) }
  | _ => { a with sync := .active generation, everActive := true }

structure RemoteResumeCheckpoint where
  principal : AttachmentPrincipal
  sessionId : SessionId
  viewId : ResumeViewId
  revision : Nat
  terminal : TerminalAttachment

structure RemoteResumeRequest where
  viewId : ResumeViewId
  knownRevision : Option Nat
  deriving DecidableEq, Repr

structure PreparedAttachment where
  attachmentId : AttachmentId
  handle : Nat
  snapshot : TerminalSurfaceSnapshot
  initialDelta : Option TerminalSurfaceDelta

structure SessionRuntime (R : Type) where
  driver : TerminalDriver R
  viewport : TerminalSize
  attachments : OrdMap AttachmentId ActorAttachment := ∅
  handles : List AttachmentHandle := []
  resume : Option RemoteResumeCheckpoint := none
  controller : Option ControllerLease := none
  controllerOperation : Option ReplayOperationKey := none
  nextGeneration : Nat := 0
  ended : Bool := false

structure ActorConfig where
  sessionId : SessionId
  limits : ResourceLimits := {}

/-- What happens around one command: the terminal's events before its first, second and third
access, what the PTY says, and the identities drawn. -/
structure Meanwhile where
  events : Nat → List DriverEvent := fun _ => []
  ptyError : Option DaemonError := none
  candidates : Nat → AttachmentId := id

/-! ## Control -/

namespace SessionRuntime

variable (em : Emulator R) (cfg : ActorConfig) (rt : SessionRuntime R) (env : Meanwhile)

def setDriver (driver : TerminalDriver R) : SessionRuntime R := { rt with driver }

/-- The terminal's events before the command's `n`th access. -/
def meet (n : Nat) : SessionRuntime R := rt.setDriver (rt.driver.meet em (env.events n))

def setAttachment (id : AttachmentId) (a : ActorAttachment) : SessionRuntime R :=
  { rt with attachments := rt.attachments.insert id a }

def setLifecycle (handle : Nat) (lifecycle : AttachmentLifecycle) : SessionRuntime R :=
  { rt with handles := rt.handles.modify handle fun h => { h with lifecycle } }

def markDetached (handle : Nat) : SessionRuntime R :=
  { rt with handles := rt.handles.modify handle fun h => { h with detached := true } }

/-- The controller, once it has been active under its lease. -/
def effectTarget : Option AttachmentId :=
  rt.controller.bind fun controller =>
    match rt.attachments[controller.attachmentId]? with
    | some a =>
      if a.everActive = true ∧ a.sync.target = .active controller.generation then
        some controller.attachmentId
      else none
    | none => none

def reconcileEffectTarget : SessionRuntime R :=
  rt.setDriver { rt.driver with effects := rt.driver.effects.setTarget rt.effectTarget }

def requireResizeController (id : AttachmentId) : Except DaemonError Nat :=
  match rt.attachments[id]? with
  | none => .error leaseLost
  | some a =>
    match a.sync.target with
    | .preparedTakeover =>
      .error (notSynchronized "snapshot must be applied before controller operations")
    | .active generation =>
      if rt.controller = some ⟨id, generation⟩ then .ok generation else .error leaseLost

def requireExistingVisualSyncController (id : AttachmentId) : Except DaemonError Nat :=
  match rt.attachments[id]? with
  | none => .error leaseLost
  | some a =>
    match a.sync, a.everActive with
    | .awaiting _ _, false =>
      .error (notSynchronized "snapshot must be applied before controller operations")
    | _, _ => rt.requireResizeController id

def removeAttachment (id : AttachmentId) : SessionRuntime R :=
  if rt.controller.any (·.attachmentId = id) then
    { rt with
      attachments := rt.attachments.erase id
      controller := none
      controllerOperation := none }
  else { rt with attachments := rt.attachments.erase id }

def removeAttachments (ids : List AttachmentId) : SessionRuntime R := ids.foldl removeAttachment rt

def isDetached (a : ActorAttachment) : Bool := rt.handles[a.handle]?.any (·.detached)

def reapDetached : SessionRuntime R :=
  let detached := (rt.attachments.toList.filter fun p => rt.isDetached p.2).map (·.1)
  if detached.isEmpty then rt else (rt.removeAttachments detached).reconcileEffectTarget

/-! ## Attaching -/

/-- A saved checkpoint is used once, by the view that left it. -/
def takeResumeTerminal (principal : AttachmentPrincipal) (request : Option RemoteResumeRequest) :
    Option TerminalAttachment :=
  request.bind fun request => rt.resume.bind fun candidate =>
    if candidate.principal = principal ∧ candidate.sessionId = cfg.sessionId ∧
        candidate.viewId = request.viewId ∧ request.knownRevision = some candidate.revision then
      some candidate.terminal
    else none

/-- Why an attachment is refused while there is a controller. -/
def occupied (principal : AttachmentPrincipal) (takeover : Bool)
    (resume : Option RemoteResumeRequest) : Option DaemonError :=
  match rt.controller with
  | none => none
  | some controller =>
    if takeover then
      if rt.attachments.toList.any (·.2.sync.target = .preparedTakeover) then
        some ⟨.sessionOccupied, "session already has one pending takeover"⟩
      else none
    else if resume.any fun request => rt.attachments[controller.attachmentId]?.any fun a =>
        a.principal = principal && a.resumeViewId = some request.viewId then
      -- the view's own transport has not noticed yet that it is gone
      some ⟨.transportUnavailable,
        "the previous transport for this remote view has not released control"⟩
    else some ⟨.sessionOccupied, "session already has a controller; use explicit takeover"⟩

def nextAttachmentId : Except DaemonError AttachmentId :=
  match ((List.range 16).map env.candidates).find? fun id => !rt.attachments.contains id with
  | some id => .ok id
  | none => .error (resourceError "unable to allocate a unique attachment identity")

/-- An attachment to a vacant session brings its colours, if a generation is left for it. -/
def observeColors (baseColors : TerminalColorProfile) :
    Except DaemonError Unit × SessionRuntime R :=
  if rt.controller.isSome then (.ok (), rt) else
  match checkedNext rt.nextGeneration with
  | none => (.error (resourceError "controller generation exhausted"), rt)
  | some _ =>
    match rt.driver.updateBaseColors baseColors env.ptyError with
    | (.error e, driver) => (.error e, rt.setDriver driver)
    | (.ok _, driver) => (.ok (), rt.setDriver driver)

/-- What a new attachment is shown: a snapshot, or a delta for a view that resumes. -/
structure InitialState where
  snapshot : TerminalSurfaceSnapshot
  delta : Option TerminalSurfaceDelta
  revision : Nat
  terminal : TerminalAttachment

def initialState (resumed : Option TerminalAttachment) :
    Except DaemonError InitialState × SessionRuntime R :=
  let rt := rt.meet em env 1
  match resumed.filter (·.checkpoint.isSome) with
  | some terminal =>
    match rt.driver.syncLatest terminal with
    | (.error e, _) => (.error e, rt)
    | (.ok (.resync snapshot), terminal) => (.ok ⟨snapshot, none, snapshot.revision, terminal⟩, rt)
    | (.ok (.delta delta), terminal) =>
      let rt := rt.meet em env 2
      match rt.driver.latestSnapshot with
      | .error e => (.error e, rt)
      | .ok snapshot => (.ok ⟨snapshot, some delta, delta.toRevision, terminal⟩, rt)
  | none =>
    match rt.driver.fullSync with
    | (.error e, _) => (.error e, rt)
    | (.ok snapshot, terminal) => (.ok ⟨snapshot, none, snapshot.revision, terminal⟩, rt)

def reserveLease (id : AttachmentId) : Except DaemonError SyncTarget × SessionRuntime R :=
  if rt.controller.isSome then (.ok .preparedTakeover, rt) else
  match checkedNext rt.nextGeneration with
  | none => (.error (resourceError "controller generation exhausted"), rt)
  | some generation =>
    (.ok (.active generation), { rt with
      nextGeneration := generation
      controller := some ⟨id, generation⟩
      controllerOperation := none })

/-- Adds an attachment that awaits its first snapshot, with a handle for its client. -/
def addAttachment (id : AttachmentId) (principal : AttachmentPrincipal)
    (resume : Option RemoteResumeRequest) (baseColors : TerminalColorProfile)
    (initial : InitialState) (target : SyncTarget) : SessionRuntime R :=
  { rt with
    attachments := rt.attachments.insert id
      { baseColors, principal
        resumeViewId := resume.map (·.viewId)
        terminal := initial.terminal
        sync := .awaiting initial.revision target
        handle := rt.handles.length }
    handles := rt.handles ++ [{ lifecycle := .awaitingSnapshot initial.revision }] }

def prepareAttach (principal : AttachmentPrincipal) (takeover : Bool)
    (resume : Option RemoteResumeRequest) (baseColors : TerminalColorProfile) :
    Except DaemonError PreparedAttachment × SessionRuntime R :=
  let rt := rt.reapDetached
  let resumed := rt.takeResumeTerminal cfg principal resume
  let rt := { rt with resume := none }
  match rt.occupied principal takeover resume with
  | some e => (.error e, rt)
  | none =>
    match rt.nextAttachmentId env with
    | .error e => (.error e, rt)
    | .ok id =>
      match (rt.meet em env 0).observeColors env baseColors with
      | (.error e, rt) => (.error e, rt)
      | (.ok (), rt) =>
        match rt.initialState em env resumed with
        | (.error e, rt) => (.error e, rt)
        | (.ok initial, rt) =>
          match rt.reserveLease id with
          | (.error e, rt) => (.error e, rt)
          | (.ok target, rt) =>
            (.ok ⟨id, rt.handles.length, initial.snapshot, initial.delta⟩,
              (rt.addAttachment id principal resume baseColors initial target).reconcileEffectTarget)

def detachForRemoteResume (id : AttachmentId) : Except DaemonError Bool × SessionRuntime R :=
  match rt.attachments[id]? with
  | none => (.error leaseLost, rt)
  | some a =>
    let wasController := rt.controller.any (·.attachmentId = id)
    let rt := (rt.markDetached a.handle).removeAttachment id
    let saved : Option RemoteResumeCheckpoint :=
      match wasController, a.sync, a.principal, a.resumeViewId, a.terminal.checkpoint with
      | true, .active _, .remoteEndpoint .., some viewId, some checkpoint =>
        some ⟨a.principal, cfg.sessionId, viewId, checkpoint.revision, a.terminal⟩
      | _, _, _, _, _ => none
    (.ok saved.isSome, { rt with resume := saved }.reconcileEffectTarget)

/-! ## Snapshots and updates -/

def raiseFence (id : AttachmentId) (a : ActorAttachment) (snapshot : TerminalSurfaceSnapshot)
    (terminal : TerminalAttachment) (target : SyncTarget) : SessionRuntime R :=
  (rt.setAttachment id { a with terminal, sync := .awaiting snapshot.revision target }).setLifecycle
    a.handle (.awaitingSnapshot snapshot.revision)

/-- Replaces whatever the client has by a full snapshot. -/
def resynchronize (id : AttachmentId) (a : ActorAttachment) :
    Except DaemonError TerminalSurfaceSnapshot × SessionRuntime R :=
  let rt := rt.meet em env 0
  let a := { a with pendingColorSnapshot := none }
  match rt.driver.fullSync with
  | (.error e, terminal) => (.error e, rt.setAttachment id { a with terminal })
  | (.ok snapshot, terminal) =>
    (.ok snapshot, (rt.raiseFence id a snapshot terminal a.sync.target).reconcileEffectTarget)

def snapshotApplied (id : AttachmentId) (revision : Nat) :
    Except DaemonError (Option TerminalSurfaceSnapshot) × SessionRuntime R :=
  match rt.attachments[id]? with
  | none => (.error leaseLost, rt)
  | some a =>
    match a.sync with
    | .awaiting expected target =>
      -- a repeated acknowledgement is not one of the newer snapshot
      if revision ≠ expected ∧ a.appliedSnapshotRevision = some revision then (.ok none, rt)
      else if revision ≠ expected then
        match rt.resynchronize em env id a with
        | (.error e, rt) => (.error e, rt)
        | (.ok snapshot, rt) => (.ok (some snapshot), rt)
      else
        (.ok none, ((rt.setAttachment id (a.applied revision)).reconcileEffectTarget
          ).setLifecycle a.handle target.lifecycle)
    | _ =>
      -- two snapshots of one revision are acknowledged twice
      if a.appliedSnapshotRevision = some revision then (.ok none, rt)
      else (.error (notSynchronized "attachment is not awaiting a snapshot"), rt)

def nextUpdate (id : AttachmentId) :
    Except DaemonError (Option AttachmentUpdate) × SessionRuntime R :=
  match rt.attachments[id]? with
  | none => (.error leaseLost, rt)
  | some a =>
    match a.pendingColorSnapshot, a.sync with
    | some snapshot, _ =>
      (.ok (some (.snapshot snapshot)), rt.setAttachment id { a with pendingColorSnapshot := none })
    | none, .awaiting _ _ => (.ok none, rt)
    | none, _ =>
      let rt := rt.meet em env 0
      match rt.driver.syncChanged a.terminal with
      | (.error e, _) => (.error e, rt)
      | (.ok none, _) => (.ok none, rt)
      | (.ok (some (.delta delta)), terminal) =>
        (.ok (some (.delta delta)), rt.setAttachment id { a with terminal })
      | (.ok (some (.resync snapshot)), terminal) =>
        (.ok (some (.snapshot snapshot)),
          (rt.raiseFence id a snapshot terminal a.sync.target).reconcileEffectTarget)

def finalTerminalUpdate (driver : TerminalDriver R) (a : ActorAttachment) :
    Except DaemonError (Option AttachmentUpdate) × ActorAttachment :=
  match driver.syncChanged a.terminal with
  | (.error e, terminal) => (.error e, { a with terminal })
  | (.ok update, terminal) => (.ok (update.map semanticUpdateValue), { a with terminal })

def finalUpdate (id : AttachmentId) :
    Except DaemonError (Option AttachmentUpdate) × SessionRuntime R :=
  match rt.attachments[id]? with
  | none => (.error leaseLost, rt)
  | some a =>
    let rt := rt.meet em env 0
    ((finalTerminalUpdate rt.driver a).1, rt.setAttachment id (finalTerminalUpdate rt.driver a).2)

def syncLatest (id : AttachmentId) :
    Except DaemonError TerminalSurfaceSnapshot × SessionRuntime R :=
  match rt.attachments[id]? with
  | none => (.error leaseLost, rt)
  | some a => rt.resynchronize em env id a

/-! ## Controller operations -/

def writeInput (id : AttachmentId) : Except DaemonError Unit :=
  match rt.requireExistingVisualSyncController id with
  | .error e => .error e
  | .ok _ =>
    match env.ptyError with
    | some e => .error e
    | none => .ok ()

def admitUpload (principal : AttachmentPrincipal) (id : AttachmentId) : Except DaemonError Nat :=
  match rt.requireExistingVisualSyncController id, rt.attachments[id]? with
  | .error e, _ => .error e
  | .ok _, none => .error leaseLost
  | .ok generation, some a =>
    if a.principal ≠ principal ∨ rt.isDetached a = true then .error principalMismatch
    else .ok generation

def updateColors (id : AttachmentId) (sequence : Nat) (baseColors : TerminalColorProfile) :
    Except DaemonError Unit × SessionRuntime R :=
  match rt.requireResizeController id, rt.attachments[id]? with
  | .error e, _ => (.error e, rt)
  | .ok _, none => (.error leaseLost, rt)
  | .ok _, some a =>
    if sequence = 0 ∨ sequence ≤ a.colorSequence then
      (.error (invalidSession "stale color observation sequence"), rt)
    else
      let rt := rt.meet em env 0
      match rt.driver.updateBaseColors baseColors env.ptyError with
      | (.error e, driver) => (.error e, rt.setDriver driver)
      | (.ok _, driver) => (.ok (), (rt.setDriver driver).setAttachment id
          { a with baseColors, colorSequence := sequence })

def validateViewport (limits : ResourceLimits) (size : TerminalSize) : Except DaemonError Unit :=
  if size.rows = 0 ∨ size.columns = 0 ∨ limits.maxViewportRows < size.rows ∨
      limits.maxViewportColumns < size.columns then
    .error (resourceError ("viewport " ++ TerminalSize.text size ++ " exceeds the " ++
      TerminalSize.text ⟨limits.maxViewportRows, limits.maxViewportColumns⟩ ++ " bound"))
  else .ok ()

def resize (id : AttachmentId) (size : TerminalSize) : Except DaemonError Nat × SessionRuntime R :=
  match validateViewport cfg.limits size, rt.requireResizeController id with
  | .error e, _ => (.error e, rt)
  | .ok (), .error e => (.error e, rt)
  | .ok (), .ok _ =>
    let rt := rt.meet em env 0
    match rt.driver.resize em size env.ptyError with
    | (.error e, driver) => (.error e, rt.setDriver driver)
    | (.ok revision, driver) => (.ok revision, { rt.setDriver driver with viewport := size })

/-! ## Takeover -/

/-- The lease changes hands: the old controller's attachment is gone. -/
def installController (id : AttachmentId) (generation : Nat) (key : ReplayOperationKey) :
    SessionRuntime R :=
  { rt with
    attachments :=
      match rt.controller with
      | some old => if old.attachmentId ≠ id then rt.attachments.erase old.attachmentId
        else rt.attachments
      | none => rt.attachments
    controller := some ⟨id, generation⟩
    controllerOperation := some key }

/-- The handle of the controller that a takeover by `id` displaces. -/
def displaced (id : AttachmentId) : Option Nat :=
  rt.controller.bind fun old =>
    if old.attachmentId ≠ id then rt.attachments[old.attachmentId]?.map (·.handle) else none

def notifyDisplaced (handle : Option Nat) (generation : Nat) : SessionRuntime R :=
  match handle with
  | some handle => rt.setLifecycle handle (.leaseLost generation)
  | none => rt

/-- The takeover of the attachment `a`, which is ready, once the colours are installed. -/
def commitTakeover (id : AttachmentId) (a : ActorAttachment) (generation : Nat)
    (key : ReplayOperationKey) (colorsChanged : Bool) : Except DaemonError Unit × SessionRuntime R :=
  let old := rt.displaced id
  let rt := rt.installController id generation key
  let promoted := a.promoted generation
  if colorsChanged then
    let rt := rt.meet em env 1
    match rt.driver.fullSync with
    | (.error e, terminal) =>
      (.error e, rt.setAttachment id { promoted with everActive := a.everActive, terminal })
    | (.ok snapshot, terminal) =>
      let a := { promoted with
        everActive := a.everActive
        pendingColorSnapshot := some snapshot }
      (.ok (), ((rt.raiseFence id a snapshot terminal (.active generation)).reconcileEffectTarget
        ).notifyDisplaced old generation)
  else
    let rt := ((rt.setAttachment id promoted).reconcileEffectTarget).notifyDisplaced old generation
    match a.sync with
    | .preparedTakeover => (.ok (), rt.setLifecycle a.handle (.active generation))
    | _ => (.ok (), rt)

def takeover (principal : AttachmentPrincipal) (id : AttachmentId) (key : ReplayOperationKey)
    (continuation : Bool) : Except DaemonError Unit × SessionRuntime R :=
  match rt.attachments[id]? with
  | none => (.error leaseLost, rt)
  | some a =>
    if a.principal ≠ principal then (.error principalMismatch, rt)
    else if rt.controller.any (·.attachmentId = id) then
      -- the attach already took a vacant lease, and the takeover has nothing left to do
      match rt.requireExistingVisualSyncController id with
      | .error e => (.error e, rt)
      | .ok _ =>
        (.ok (), if continuation then rt else { rt with controllerOperation := some key })
    else if a.takeoverReady = false then
      (.error (notSynchronized "takeover attachment has not applied its prepared snapshot"), rt)
    else if continuation = true ∧ rt.controller ≠ none ∧ rt.controllerOperation ≠ some key then
      (.error outcomeUnknown, rt)
    else
      match checkedNext rt.nextGeneration with
      | none => (.error (resourceError "controller generation exhausted"), rt)
      | some generation =>
        let rt := { rt with nextGeneration := generation }.meet em env 0
        match rt.driver.updateBaseColors a.baseColors env.ptyError with
        | (.error e, driver) => (.error e, rt.setDriver driver)
        | (.ok changed, driver) =>
          (rt.setDriver driver).commitTakeover em env id a generation key changed.isSome

/-! ## Remote principals -/

def isRemote (device : DeviceId) : AttachmentPrincipal → Bool
  | .remoteEndpoint deviceId _ => deviceId = device
  | .localSameUid .. => false

structure PrincipalDetachOutcome where
  attachmentsRemoved : Nat := 0
  controllerReleased : Bool := false
  deriving DecidableEq, Repr

def detachRemotePrincipal (device : DeviceId) : PrincipalDetachOutcome × SessionRuntime R :=
  let resumeRemoved := rt.resume.any fun resume => isRemote device resume.principal
  let removed : List (AttachmentId × ActorAttachment) :=
    rt.attachments.toList.filter fun p => isRemote device p.2.principal
  let outcome : PrincipalDetachOutcome :=
    { attachmentsRemoved := removed.length
      controllerReleased := rt.controller.any fun c => removed.any (·.1 = c.attachmentId) }
  let rt : SessionRuntime R := if resumeRemoved then { rt with resume := none } else rt
  let rt := (removed.map (·.2.handle)).foldl markDetached rt
  let rt := rt.removeAttachments (removed.map (·.1))
  (outcome, if removed.isEmpty && !resumeRemoved then rt else rt.reconcileEffectTarget)

def countRemoteAttachments (device : DeviceId) : Nat :=
  (rt.attachments.toList.filter fun p =>
    !rt.isDetached p.2 && isRemote device p.2.principal).length

/-! ## The end -/

/-- The session ends: the terminal is drained and every attachment keeps its final update. -/
def finishRuntime (reason : SessionEndReason) (drain : List DriverEvent) : SessionRuntime R :=
  let rt := { rt with resume := none, controller := none, controllerOperation := none }
  let rt := rt.setDriver { rt.driver with effects := rt.driver.effects.setTarget none }
  let rt := rt.setDriver (rt.driver.meet em drain)
  { rt with
    ended := true
    attachments := rt.attachments.map fun _ a => (finalTerminalUpdate rt.driver a).2
    handles := rt.attachments.toList.foldl (fun handles (p : AttachmentId × ActorAttachment) =>
      handles.modify p.2.handle fun h => { h with
        finalUpdate := some (finalTerminalUpdate rt.driver p.2).1
        lifecycle := .sessionEnded reason }) rt.handles }

end SessionRuntime

/-! ## The actor -/

inductive SessionCommand where
  | prepareAttach (principal : AttachmentPrincipal) (takeover : Bool)
      (resume : Option RemoteResumeRequest) (baseColors : TerminalColorProfile)
  | detachForRemoteResume (id : AttachmentId)
  | snapshotApplied (id : AttachmentId) (revision : Nat)
  | nextUpdate (id : AttachmentId)
  | finalUpdate (id : AttachmentId)
  | syncLatest (id : AttachmentId) (knownRevision : Nat)
  | validateHistoryController (id : AttachmentId)
  | admitUpload (principal : AttachmentPrincipal) (id : AttachmentId)
  | writeInput (id : AttachmentId) (bytes : List UInt8)
  | updateColors (id : AttachmentId) (sequence : Nat) (baseColors : TerminalColorProfile)
  | resize (id : AttachmentId) (size : TerminalSize)
  | takeover (principal : AttachmentPrincipal) (id : AttachmentId) (key : ReplayOperationKey)
      (continuation : Bool)
  | detachRemotePrincipal (device : DeviceId)
  | countRemoteAttachments (device : DeviceId)

inductive Reply where
  | done
  | prepared (attachment : PreparedAttachment)
  | saved (saved : Bool)
  | snapshot (snapshot : Option TerminalSurfaceSnapshot)
  | update (update : Option AttachmentUpdate)
  | generation (generation : Nat)
  | revision (revision : Nat)
  | detached (outcome : SessionRuntime.PrincipalDetachOutcome)
  | count (attachments : Nat)

namespace SessionRuntime

variable (em : Emulator R) (cfg : ActorConfig) (rt : SessionRuntime R) (env : Meanwhile)

def respond {α : Type} (reply : α → Reply) (r : Except DaemonError α × SessionRuntime R) :
    Except DaemonError Reply × SessionRuntime R :=
  (r.1.map reply, r.2)

def dispatch : SessionCommand → Except DaemonError Reply × SessionRuntime R
  | .prepareAttach principal takeover resume baseColors =>
    respond .prepared (rt.prepareAttach em cfg env principal takeover resume baseColors)
  | .detachForRemoteResume id => respond .saved (rt.detachForRemoteResume cfg id)
  | .snapshotApplied id revision => respond .snapshot (rt.snapshotApplied em env id revision)
  | .nextUpdate id => respond .update (rt.nextUpdate em env id)
  | .finalUpdate id => respond .update (rt.finalUpdate em env id)
  | .syncLatest id _ => respond (fun s => .snapshot (some s)) (rt.syncLatest em env id)
  | .validateHistoryController id =>
    respond (fun _ => .done) (rt.requireExistingVisualSyncController id, rt)
  | .admitUpload principal id => respond .generation (rt.admitUpload principal id, rt)
  | .writeInput id _ => respond (fun _ => .done) (rt.writeInput env id, rt)
  | .updateColors id sequence baseColors =>
    respond (fun _ => .done) (rt.updateColors em env id sequence baseColors)
  | .resize id size => respond .revision (rt.resize em cfg env id size)
  | .takeover principal id key continuation =>
    respond (fun _ => .done) (rt.takeover em env principal id key continuation)
  | .detachRemotePrincipal device =>
    (.ok (.detached (rt.detachRemotePrincipal device).1), (rt.detachRemotePrincipal device).2)
  | .countRemoteAttachments device => (.ok (.count (rt.countRemoteAttachments device)), rt)

end SessionRuntime

/-- What can happen to a session: the actor's loop, the terminal's threads and the clients'
handles. -/
inductive ActorEvent where
  | command (command : SessionCommand) (env : Meanwhile)
  | reapDetached
  | driver (events : List DriverEvent)
  | detach (handle : Nat)
  | takeHostEffect (id : AttachmentId)
  | takeFinalUpdate (handle : Nat)
  | finish (reason : SessionEndReason) (drain : List DriverEvent)

namespace SessionRuntime

variable (em : Emulator R) (cfg : ActorConfig) (rt : SessionRuntime R)

/-- One event. The actor does nothing any more once the session has ended. -/
def step : ActorEvent → SessionRuntime R
  | .command command env => if rt.ended then rt else (rt.dispatch em cfg env command).2
  | .reapDetached => if rt.ended then rt else rt.reapDetached
  | .driver events => if rt.ended then rt else rt.setDriver (rt.driver.meet em events)
  | .detach handle => rt.markDetached handle
  | .takeHostEffect id =>
    rt.setDriver { rt.driver with effects := (rt.driver.effects.takeFor id).2 }
  | .takeFinalUpdate handle =>
    { rt with handles := rt.handles.modify handle fun h => { h with finalUpdate := none } }
  | .finish reason drain => if rt.ended then rt else rt.finishRuntime em reason drain

def start (model : TerminalModel R) : SessionRuntime R :=
  { driver := { model }, viewport := model.size }

def run (model : TerminalModel R) (events : List ActorEvent) : SessionRuntime R :=
  events.foldl (step em cfg) (start model)

end SessionRuntime

end Voytty.Daemon
