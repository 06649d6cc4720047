import Voytty.Daemon.Replay
import Voytty.Lib.Owned

/-!
# The session registry

`RegistryInner` of `daemon/src/session.rs` and the threads that use it. A name is
reserved before its session exists; the creator then reserves an identity, starts
the actor, registers it provisionally and publishes it. The actor's worker ends
when it likes, and whichever of worker and creator comes second takes the actor
out of the registry.

Creation cells and actors are named by their position. A creation has one
ownership token, so its position is the token as well. Registry operations run
under the state lock and are one step each; `registry_owned` and `worker_done` are
written and read in steps of their own. Poisoned locks and panics are the `fails`
of a creator's step.
-/

namespace Voytty.Daemon

open Voytty.Lib

abbrev SessionId := Nat

abbrev SessionName := String

def defaultSessionName : SessionName := "main"

def isMain (name : SessionName) : Bool := name = defaultSessionName

/-! ## Errors -/

def shuttingDown : DaemonError := ⟨.cancelled, "session registry is shutting down"⟩

def sessionNotFound : DaemonError := ⟨.sessionNotFound, "session is not live"⟩

def sessionAlreadyExists (name : SessionName) : DaemonError :=
  ⟨.sessionAlreadyExists, "session SessionName(" ++ name.quote ++ ") already exists"⟩

def reservedMain : DaemonError :=
  ⟨.reservedSessionName, "main is reserved for the default create-if-missing session"⟩

def synchronizationError (name : String) : DaemonError :=
  ⟨.storeUnavailable, name ++ " lock is poisoned"⟩

/-! ## The registry -/

structure SessionActor where
  ptr : Nat
  id : SessionId
  deriving DecidableEq, Repr

structure SessionEntry where
  actor : SessionActor
  name : SessionName
  workingDirectory : String
  ownership : Nat
  deriving DecidableEq, Repr

inductive NameSlot where
  | starting (creation : Nat) (sessionId : Option SessionId)
  | live (sessionId : SessionId) (ownership : Nat)
  deriving DecidableEq, Repr

def NameSlot.ownership : NameSlot → Nat
  | .starting creation _ => creation
  | .live _ ownership => ownership

inductive NameReservation where
  | owner (creation : Nat)
  | waiting (creation : Nat)
  | existing (entry : SessionEntry)
  deriving DecidableEq, Repr

/-- `RegistryState` with the reservations, which are only locked inside it. -/
structure Registry where
  byId : OrdMap SessionId SessionEntry := ∅
  provisional : OrdMap SessionId SessionEntry := ∅
  cleanupOnly : List SessionEntry := []
  byName : OrdMap SessionName NameSlot := ∅
  accepting : Bool := true
  reservations : OrdMap SessionId Nat := ∅

namespace Registry

/-- `creation` is the cell made for the call. -/
def reserveName (r : Registry) (name : SessionName) (waitForStarting : Bool) (creation : Nat) :
    Except DaemonError NameReservation × Registry :=
  if !r.accepting then (.error shuttingDown, r) else
  match r.byName[name]? with
  | some (.live sessionId _) =>
    match r.byId[sessionId]? with
    | some entry => (.ok (.existing entry), r)
    | none => (.error sessionNotFound, r)
  | some (.starting current _) =>
    if waitForStarting then (.ok (.waiting current), r)
    else (.error (sessionAlreadyExists name), r)
  | none =>
    (.ok (.owner creation), { r with byName := r.byName.insert name (.starting creation none) })

/-- No session, reservation or cleanup owner has the identity. -/
def isFree (r : Registry) (candidate : SessionId) : Bool :=
  !r.byId.contains candidate && !r.provisional.contains candidate &&
    !r.cleanupOnly.any (·.actor.id = candidate) && !r.reservations.contains candidate

def reserveCreationSession (r : Registry) (name : SessionName) (creation : Nat) (cancelled : Bool)
    (maxLiveSessions : Nat) (candidates : Nat → SessionId) :
    Except DaemonError SessionId × Registry :=
  if ¬ (r.accepting = true ∧ cancelled = false ∧
      r.byName[name]? = some (.starting creation none)) then
    (.error ⟨.cancelled, "session creation reservation was cancelled"⟩, r)
  else if maxLiveSessions ≤ r.reservations.size then
    (.error (resourceError "live session limit reached"), r)
  else
    match ((List.range 16).map candidates).find? r.isFree with
    | none => (.error (resourceError "unable to allocate a unique session identity"), r)
    | some sessionId =>
      (.ok sessionId, { r with
        reservations := r.reservations.insert sessionId creation
        byName := r.byName.insert name (.starting creation (some sessionId)) })

def registerProvisional (r : Registry) (sessionId : SessionId) (entry : SessionEntry) :
    Except DaemonError Unit × Registry :=
  if r.byId.contains sessionId || r.provisional.contains sessionId ||
      r.cleanupOnly.any (·.actor.id = sessionId) then
    (.error (resourceError "duplicate provisional session identity"), r)
  else if r.byName[entry.name]? ≠ some (.starting entry.ownership (some sessionId)) then
    (.error (resourceError "provisional actor does not own its starting name slot"), r)
  else (.ok (), { r with provisional := r.provisional.insert sessionId entry })

def knows (r : Registry) (sessionId : SessionId) (actor : SessionActor) : Bool :=
  r.provisional[sessionId]?.any (·.actor.ptr = actor.ptr) ||
    r.byId[sessionId]?.any (·.actor.ptr = actor.ptr) ||
    r.cleanupOnly.any (·.actor.ptr = actor.ptr)

def retainProvisionalForCleanup (r : Registry) (sessionId : SessionId) (entry : SessionEntry) :
    Registry :=
  if r.knows sessionId entry.actor then r
  else if r.byName[entry.name]? = some (.starting entry.ownership (some sessionId)) ∧
      r.reservations[sessionId]? = some entry.ownership ∧
      r.byId.contains sessionId = false ∧ r.provisional.contains sessionId = false then
    { r with provisional := r.provisional.insert sessionId entry }
  else { r with cleanupOnly := r.cleanupOnly ++ [entry] }

def publishName (r : Registry) (name : SessionName) (creation : Nat) (cancelled : Bool)
    (sessionId : SessionId) (actor : SessionActor) : Bool × Registry :=
  if ¬ (r.accepting = true ∧ cancelled = false ∧
      r.byName[name]? = some (.starting creation (some sessionId))) then (false, r) else
  match r.provisional[sessionId]? with
  | none => (false, r)
  | some entry =>
    if entry.actor.ptr ≠ actor.ptr then (false, r) else
    (true, { r with
      provisional := r.provisional.erase sessionId
      byName := r.byName.insert name (.live sessionId entry.ownership)
      byId := r.byId.insert sessionId entry })

def rename (r : Registry) (sessionId : SessionId) (newName : SessionName) :
    Except DaemonError SessionEntry × Registry :=
  if !r.accepting then (.error shuttingDown, r) else
  match r.byId[sessionId]? with
  | none => (.error sessionNotFound, r)
  | some current =>
    if isMain current.name then (.error reservedMain, r)
    else if r.byName.contains newName then (.error (sessionAlreadyExists newName), r)
    else if r.byName[current.name]? ≠ some (.live sessionId current.ownership) then
      (.error (synchronizationError "session name ownership"), r)
    else
      let updated := { current with name := newName }
      (.ok updated, { r with
        byName := (r.byName.erase current.name).insert newName (.live sessionId current.ownership)
        byId := r.byId.insert sessionId updated })

/-- Takes back a creation that never had an actor the registry could see. -/
def releaseCreation (r : Registry) (name : SessionName) (creation : Nat)
    (sessionId : Option SessionId) : Registry :=
  { r with
    reservations :=
      match sessionId with
      | some id =>
        if r.reservations[id]? = some creation then r.reservations.erase id else r.reservations
      | none => r.reservations
    byName :=
      if r.byName[name]? = some (.starting creation sessionId) then r.byName.erase name
      else r.byName }

/-- Frees the name and the reservation of an entry that is being removed. -/
def freeOwned (r : Registry) (sessionId : SessionId) (entry : SessionEntry) : Registry :=
  { r with
    byName :=
      if r.byName[entry.name]? = some (.live sessionId entry.ownership) ∨
          r.byName[entry.name]? = some (.starting entry.ownership (some sessionId)) then
        r.byName.erase entry.name
      else r.byName
    reservations :=
      if r.reservations[sessionId]? = some entry.ownership then r.reservations.erase sessionId
      else r.reservations }

/-- Removes the actor from wherever it is held: live, provisional or for cleanup only. -/
def complete (r : Registry) (sessionId : SessionId) (actor : SessionActor) : Registry :=
  match r.byId[sessionId]?.filter (·.actor.ptr = actor.ptr) with
  | some entry => { r.freeOwned sessionId entry with byId := r.byId.erase sessionId }
  | none =>
    match r.provisional[sessionId]?.filter (·.actor.ptr = actor.ptr) with
    | some entry => { r.freeOwned sessionId entry with provisional := r.provisional.erase sessionId }
    | none =>
      match r.cleanupOnly.find? (·.actor.ptr = actor.ptr) with
      | some entry =>
        { r.freeOwned sessionId entry with
          cleanupOnly := r.cleanupOnly.eraseP (·.actor.ptr = actor.ptr) }
      | none => r

/-- Without approval, the names still in use refuse the shutdown; else the creations to cancel. -/
def beginShutdown (r : Registry) (approved : Bool) :
    Except (List String) (List Nat) × Registry :=
  let names := (r.byName.keys ++ (r.byId.values ++ r.provisional.values ++ r.cleanupOnly).map
    (·.name)).mergeSort.dedup
  if approved = false ∧ ¬ (names = [] ∧ r.reservations.isEmpty = true) then (.error names, r) else
  (.ok (r.byName.values.filterMap fun
    | .starting creation _ => some creation
    | .live .. => none), { r with accepting := false })

def resumeAfterFailedShutdown (r : Registry) : Registry := { r with accepting := true }

end Registry

/-! ## Creators and workers -/

/-- Where a worker is: it runs, stores `worker_done`, loads `registry_owned`, and then completes
the actor or leaves that to the creator. -/
inductive Worker where
  | running | loading | completing | finished
  deriving DecidableEq, Repr

structure Actor where
  id : SessionId
  registryOwned : Bool := false
  worker : Worker := .running
  deriving DecidableEq, Repr

def Actor.workerDone (actor : Actor) : Bool := actor.worker ≠ .running

/-- What a creator does once the actor is marked as registry owned. -/
inductive After where
  | publish | cleanup | finish
  deriving DecidableEq, Repr

inductive Stage where
  | reserved
  | identified (sessionId : SessionId)
  | started (entry : SessionEntry)
  | retaining (after : After) (entry : SessionEntry)
  | marking (after : After) (entry : SessionEntry)
  | loading (after : After) (entry : SessionEntry)
  | completing (after : After) (entry : SessionEntry)
  | publishing (entry : SessionEntry)
  | releasing (sessionId : Option SessionId)
  | finished (entry : Option SessionEntry)
  deriving DecidableEq, Repr

def After.stage : After → SessionEntry → Stage
  | .publish => .publishing
  | .cleanup => .retaining .finish
  | .finish => fun entry => .finished (some entry)

structure Creation where
  name : SessionName
  cancelled : Bool := false
  stage : Stage := .reserved
  deriving DecidableEq, Repr

/-- What a step of a creator meets: whether it fails, the identities drawn and the directory its
shell starts in. -/
structure CreatorInput where
  fails : Bool := false
  candidates : Nat → SessionId := id
  workingDirectory : String := ""

inductive RegistryEvent where
  | reserveName (name : SessionName) (waitForStarting : Bool)
  | creator (creation : Nat) (input : CreatorInput)
  | worker (ptr : Nat)
  | rename (sessionId : SessionId) (newName : SessionName)
  | beginShutdown (approved : Bool)
  | cancel (creation : Nat)
  | resumeAfterFailedShutdown

structure Sessions where
  registry : Registry := {}
  creations : List Creation := []
  actors : List Actor := []

namespace Sessions

def setStage (s : Sessions) (k : Nat) (stage : Stage) : Sessions :=
  { s with creations := s.creations.modify k fun c => { c with stage } }

def setRegistry (s : Sessions) (registry : Registry) : Sessions := { s with registry }

def setActors (s : Sessions) (actors : List Actor) : Sessions := { s with actors }

/-- The next step of `create_reserved` and `CreationOwner` for one creation. -/
def creator (maxLiveSessions : Nat) (s : Sessions) (k : Nat) (input : CreatorInput) : Sessions :=
  match s.creations[k]? with
  | none => s
  | some c =>
    match c.stage with
    | .reserved =>
      if input.fails then s.setStage k (.releasing none) else
      match s.registry.reserveCreationSession c.name k c.cancelled maxLiveSessions
        input.candidates with
      | (.ok sessionId, r) => (s.setRegistry r).setStage k (.identified sessionId)
      | (.error _, r) => (s.setRegistry r).setStage k (.releasing none)
    | .identified sessionId =>
      if input.fails then s.setStage k (.releasing (some sessionId)) else
      (s.setActors (s.actors ++ [⟨sessionId, false, .running⟩])).setStage k
        (.started ⟨⟨s.actors.length, sessionId⟩, c.name, input.workingDirectory, k⟩)
    | .started entry =>
      if input.fails then s.setStage k (.retaining .cleanup entry) else
      match s.registry.registerProvisional entry.actor.id entry with
      | (.ok (), r) => (s.setRegistry r).setStage k (.marking .publish entry)
      | (.error _, r) => (s.setRegistry r).setStage k (.retaining .cleanup entry)
    | .retaining after entry =>
      (s.setRegistry (s.registry.retainProvisionalForCleanup entry.actor.id entry)).setStage k
        (.marking after entry)
    | .marking after entry =>
      (s.setActors (s.actors.modify entry.actor.ptr fun a => { a with registryOwned := true })).setStage
        k (.loading after entry)
    | .loading after entry =>
      if s.actors[entry.actor.ptr]?.any Actor.workerDone then s.setStage k (.completing after entry)
      else s.setStage k (after.stage entry)
    | .completing after entry =>
      (s.setRegistry (s.registry.complete entry.actor.id entry.actor)).setStage k
        (after.stage entry)
    | .publishing entry =>
      if input.fails then s.setStage k (.retaining .finish entry) else
      match s.registry.publishName c.name k c.cancelled entry.actor.id entry.actor with
      | (true, r) => (s.setRegistry r).setStage k (.finished (some entry))
      | (false, r) => (s.setRegistry r).setStage k (.retaining .finish entry)
    | .releasing sessionId =>
      (s.setRegistry (s.registry.releaseCreation c.name k sessionId)).setStage k (.finished none)
    | .finished _ => s

def setWorker (s : Sessions) (ptr : Nat) (worker : Worker) : Sessions :=
  s.setActors (s.actors.modify ptr fun a => { a with worker })

def worker (s : Sessions) (ptr : Nat) : Sessions :=
  match s.actors[ptr]? with
  | none => s
  | some actor =>
    match actor.worker with
    | .running => s.setWorker ptr .loading
    | .loading => s.setWorker ptr (if actor.registryOwned then .completing else .finished)
    | .completing =>
      (s.setRegistry (s.registry.complete actor.id ⟨ptr, actor.id⟩)).setWorker ptr .finished
    | .finished => s

def step (maxLiveSessions : Nat) (s : Sessions) : RegistryEvent → Sessions
  | .reserveName name waitForStarting =>
    match s.registry.reserveName name waitForStarting s.creations.length with
    | (.ok (.owner _), r) => { s with registry := r, creations := s.creations ++ [{ name }] }
    | (_, r) => s.setRegistry r
  | .creator k input => s.creator maxLiveSessions k input
  | .worker ptr => s.worker ptr
  | .rename sessionId newName => s.setRegistry (s.registry.rename sessionId newName).2
  | .beginShutdown approved => s.setRegistry (s.registry.beginShutdown approved).2
  | .cancel k => { s with creations := s.creations.modify k fun c => { c with cancelled := true } }
  | .resumeAfterFailedShutdown => s.setRegistry s.registry.resumeAfterFailedShutdown

def run (maxLiveSessions : Nat) (events : List RegistryEvent) : Sessions :=
  events.foldl (step maxLiveSessions) {}

end Sessions

end Voytty.Daemon
