import Voytty.Core.Domain
import Voytty.Lib.OrdMap

/-!
# Operation replay

The replay registry of `daemon/src/session.rs`. A principal is issued numbered
leases; within a lease every operation has a sequence number. The first
registration of a sequence is granted execution and gets a cell for its result;
later ones join the cell while it is retained. Results are forgotten oldest
first, leases by retirement of a principal's completed prefix.

Cells live in a list and are named by their position. A scan for a lease to
retire runs beside completions, so every completeness check it makes is an
argument: what that check saw.
-/

namespace Voytty.Daemon

open Voytty.Lib

def operationResultsPerEpoch : Nat := 128

def maxActiveOperationEpochs : Nat := 64

def maxReplayPrincipals : Nat := 64

def outcomeUnknown : DaemonError :=
  ⟨.operationOutcomeUnknown, "operation result belongs to a retired epoch or evicted sequence"⟩

def resourceError (detail : String) : DaemonError := ⟨.resourceExhausted, detail⟩

structure ReplayPrincipal where
  deviceId : DeviceId
  authorizationGeneration : Nat
  deriving DecidableEq, Repr

instance : LinearOrder ReplayPrincipal :=
  LinearOrder.lift' (fun p => toLex (p.deviceId, p.authorizationGeneration)) fun p q h => by
    cases p; cases q; simpa using h

/-- Local views of one daemon share a principal. -/
def ReplayPrincipal.fromAttachment : AttachmentPrincipal → ReplayPrincipal
  | .localSameUid ownDeviceId _ => ⟨ownDeviceId, 0⟩
  | .remoteEndpoint deviceId authGeneration => ⟨deviceId, authGeneration⟩

structure ReplayKey where
  principal : ReplayPrincipal
  leaseOrdinal : Nat
  deriving DecidableEq, Repr

instance : LinearOrder ReplayKey :=
  LinearOrder.lift' (fun k => toLex (k.principal, k.leaseOrdinal)) fun k l h => by
    cases k; cases l; simpa using h

def ReplayKey.new (principal : AttachmentPrincipal) (leaseOrdinal : Nat) : ReplayKey :=
  ⟨.fromAttachment principal, leaseOrdinal⟩

/-! ## Cells -/

/-- One execution: what it was asked to do and, once it ended, its result. -/
structure OperationCell (F Res : Type) where
  fingerprint : F
  result : Option Res := none
  deriving DecidableEq, Repr

variable {F Res : Type}

def OperationCell.complete (cell : OperationCell F Res) (result : Res) : OperationCell F Res :=
  if cell.result.isNone then { cell with result := some result } else cell

/-- Every cell made so far, by position. -/
abbrev Cells (F Res : Type) := List (OperationCell F Res)

def Cells.isComplete (cells : Cells F Res) (cell : Nat) : Bool :=
  cells[cell]?.any fun c => c.result.isSome

/-! ## One lease -/

inductive ReplayRegistration where
  | execute (cell : Nat)
  | join (cell : Nat)
  deriving DecidableEq, Repr

def ReplayRegistration.cell : ReplayRegistration → Nat
  | .execute cell => cell
  | .join cell => cell

/-- The retained operations of a lease; sequences below `lowWater` are forgotten. -/
structure ReplayEpoch where
  lowWater : Nat := 0
  operations : OrdMap Nat Nat := ∅

namespace ReplayEpoch

/-- Drops the oldest results while the window is full; one in flight stops it. The fuel bounds
the retained operations. -/
def makeRoom (cells : Cells F Res) : Nat → ReplayEpoch → Except DaemonError Unit × ReplayEpoch
  | 0, epoch => (.ok (), epoch)
  | fuel + 1, epoch =>
    if epoch.operations.size < operationResultsPerEpoch then (.ok (), epoch) else
    match OrdMap.first epoch.operations with
    | none => (.ok (), epoch)
    | some (oldest, cell) =>
      if cells.isComplete cell then
        makeRoom cells fuel
          { lowWater := max epoch.lowWater (saturatingSucc oldest)
            operations := epoch.operations.erase oldest }
      else (.error (resourceError "operation replay window is full of in-flight operations"), epoch)

def add (epoch : ReplayEpoch) (sequence cell : Nat) : ReplayEpoch :=
  { epoch with operations := epoch.operations.insert sequence cell }

def register [DecidableEq F] (epoch : ReplayEpoch) (cells : Cells F Res) (sequence : Nat)
    (fingerprint : F) : Except DaemonError ReplayRegistration × ReplayEpoch × Cells F Res :=
  match epoch.operations[sequence]? with
  | some cell =>
    if cells[cell]?.all fun c => c.fingerprint = fingerprint then (.ok (.join cell), epoch, cells)
    else (.error outcomeUnknown, epoch, cells)
  | none =>
    if sequence = 0 ∨ sequence < epoch.lowWater then (.error outcomeUnknown, epoch, cells) else
    match epoch.makeRoom cells (epoch.operations.size + 1) with
    | (.error e, epoch) => (.error e, epoch, cells)
    | (.ok (), epoch) =>
      (.ok (.execute cells.length), epoch.add sequence cells.length, cells ++ [{ fingerprint }])

end ReplayEpoch

structure ReplayEpochEntry where
  epoch : ReplayEpoch
  lastAccess : Nat

/-! ## The registry -/

structure ReplayRegistry where
  incarnation : DaemonIncarnation
  epochs : OrdMap ReplayKey ReplayEpochEntry := ∅
  retiredThrough : OrdMap ReplayPrincipal Nat := ∅
  issuedThrough : OrdMap ReplayPrincipal Nat := ∅
  accessClock : Nat := 0

namespace ReplayRegistry

def setAccesses (epochs : OrdMap ReplayKey ReplayEpochEntry) (order : List (ReplayKey × Nat)) :
    OrdMap ReplayKey ReplayEpochEntry :=
  order.foldl (fun epochs p => epochs.modify p.1 fun entry => { entry with lastAccess := p.2 })
    epochs

/-- Renumbers the accesses by their order when the clock would wrap. -/
def renumber (r : ReplayRegistry) : ReplayRegistry :=
  let order := r.epochs.toList.mergeSort fun p q => p.2.lastAccess ≤ q.2.lastAccess
  { r with
    epochs := setAccesses r.epochs (order.zipIdx.map fun p => (p.1.1, p.2))
    accessClock := r.epochs.size }

def nextAccess (r : ReplayRegistry) : Nat × ReplayRegistry :=
  let r := if r.accessClock = 2 ^ 64 - 1 then r.renumber else r
  (r.accessClock + 1, { r with accessClock := r.accessClock + 1 })

/-- Whether the check of every lease of the principal up to `key` saw it complete. -/
def prefixComplete (r : ReplayRegistry) (seen : ReplayKey → Bool) (key : ReplayKey) : Bool :=
  r.epochs.toList.all fun p =>
    !(p.1.principal = key.principal && p.1.leaseOrdinal ≤ key.leaseOrdinal) || seen p.1

/-- One lease of the scan: it replaces a candidate that was used later. -/
def considerCandidate (r : ReplayRegistry) (seen : ReplayKey → ReplayKey → Bool)
    (candidate : Option (ReplayKey × Nat)) (p : ReplayKey × ReplayEpochEntry) :
    Option (ReplayKey × Nat) :=
  if r.prefixComplete (seen p.1) p.1 && candidate.all fun c => p.2.lastAccess < c.2 then
    some (p.1, p.2.lastAccess)
  else candidate

/-- The least recently used lease whose prefix was seen complete. -/
def retirementCandidate (r : ReplayRegistry) (seen : ReplayKey → ReplayKey → Bool) :
    Option (ReplayKey × Nat) :=
  r.epochs.toList.foldl (r.considerCandidate seen) none

/-- Retires one principal's completed prefix; `seen key active` is what the check of `active`
saw while `key` was considered. -/
def retireOne (r : ReplayRegistry) (seen : ReplayKey → ReplayKey → Bool) :
    Except DaemonError ReplayRegistry :=
  match r.retirementCandidate seen with
  | none => .error (resourceError "operation replay registry is full of in-flight epochs")
  | some (key, _) =>
    let floor := max (r.retiredThrough[key.principal]?.getD 0) key.leaseOrdinal
    .ok { r with
      retiredThrough := r.retiredThrough.insert key.principal floor
      epochs := r.epochs.filter fun k _ => k.principal ≠ key.principal ∨ floor < k.leaseOrdinal }

/-- Retires until a lease fits; each retirement removes one. -/
def makeRoom (seen : Nat → ReplayKey → ReplayKey → Bool) :
    Nat → ReplayRegistry → Except DaemonError Unit × ReplayRegistry
  | 0, r => (.ok (), r)
  | fuel + 1, r =>
    if r.epochs.size < maxActiveOperationEpochs then (.ok (), r) else
    match r.retireOne (seen fuel) with
    | .error e => (.error e, r)
    | .ok r => makeRoom seen fuel r

def issue (r : ReplayRegistry) (attachmentPrincipal : AttachmentPrincipal)
    (seen : Nat → ReplayKey → ReplayKey → Bool) :
    Except DaemonError OperationLease × ReplayRegistry :=
  let principal := ReplayPrincipal.fromAttachment attachmentPrincipal
  if r.issuedThrough[principal]? = none ∧ r.issuedThrough.size ≥ maxReplayPrincipals then
    (.error (resourceError "too many operation replay principals"), r)
  else
    match checkedNext (r.issuedThrough[principal]?.getD 0) with
    | none => (.error (resourceError "operation lease ordinal exhausted"), r)
    | some ordinal =>
      match makeRoom seen (r.epochs.size + 1) r with
      | (.error e, r) => (.error e, r)
      | (.ok (), r) =>
        let (lastAccess, r) := r.nextAccess
        (.ok ⟨r.incarnation, ordinal⟩, { r with
          epochs := r.epochs.insert ⟨principal, ordinal⟩ ⟨{}, lastAccess⟩
          issuedThrough := r.issuedThrough.insert principal ordinal })

def setEntry (r : ReplayRegistry) (key : ReplayKey) (entry : ReplayEpochEntry) : ReplayRegistry :=
  { r with epochs := r.epochs.insert key entry }

def register [DecidableEq F] (r : ReplayRegistry) (cells : Cells F Res) (key : ReplayKey)
    (operationId : OperationId) (fingerprint : F) :
    Except DaemonError ReplayRegistration × ReplayRegistry × Cells F Res :=
  -- an older daemon's token must not influence this daemon's state
  if operationId.lease.daemonIncarnation ≠ r.incarnation then (.error outcomeUnknown, r, cells)
  else if operationId.sequence = 0 ∨ operationId.lease.ordinal ≠ key.leaseOrdinal then
    (.error outcomeUnknown, r, cells)
  else if r.retiredThrough[key.principal]?.any (key.leaseOrdinal ≤ ·) then
    (.error outcomeUnknown, r, cells)
  else if r.issuedThrough[key.principal]?.all (· < key.leaseOrdinal) then
    (.error outcomeUnknown, r, cells)
  else
    let (access, r) := r.nextAccess
    match r.epochs[key]? with
    -- an issued lease that is missing was retired and is never made again
    | none => (.error outcomeUnknown, r, cells)
    | some entry =>
      let (result, epoch, cells) := entry.epoch.register cells operationId.sequence fingerprint
      (result, r.setEntry key ⟨epoch, access⟩, cells)

end ReplayRegistry

end Voytty.Daemon
