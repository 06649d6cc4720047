import Mathlib

/-!
# Domain values shared by the crates

Revisions are 64-bit counters that refuse to pass their ceiling; sizes are
16-bit. Both are natural numbers here, with the ceiling where the source
checks it. Random fixed-width identifiers are numbers too: only their equality
and order are used.
-/

namespace Voytty

/-- The next value of a 64-bit counter, `none` at its ceiling. -/
def checkedNext (n : Nat) : Option Nat := if n + 1 < 2 ^ 64 then some (n + 1) else none

theorem checkedNext_some {n m : Nat} (h : checkedNext n = some m) : m = n + 1 := by
  unfold checkedNext at h
  split at h
  · exact (Option.some.inj h).symm
  · cases h

def saturatingSucc (n : Nat) : Nat := min (n + 1) (2 ^ 64 - 1)

/-- `u16::try_from(n).unwrap_or(u16::MAX)`. -/
def saturateU16 (n : Nat) : Nat := min n 65535

theorem saturateU16_eq {n : Nat} (h : n ≤ 65535) : saturateU16 n = n := min_eq_left h

def checkedI64 (n : Int) : Option Int := if -2 ^ 63 ≤ n ∧ n < 2 ^ 63 then some n else none

theorem checkedI64_some {n m : Int} (h : checkedI64 n = some m) :
    m = n ∧ -2 ^ 63 ≤ n ∧ n < 2 ^ 63 := by
  unfold checkedI64 at h
  split at h
  · exact ⟨(Option.some.inj h).symm, ‹_›⟩
  · cases h

structure TerminalSize where
  rows : Nat
  columns : Nat
  deriving DecidableEq, Repr

structure ResourceLimits where
  maxViewportRows : Nat := 80
  maxViewportColumns : Nat := 240
  deriving DecidableEq, Repr

/-- A size a surface may have: nonzero and within the viewport bounds. -/
def TerminalSize.WithinLimits (size : TerminalSize) : Prop :=
  0 < size.rows ∧ 0 < size.columns ∧ size.rows ≤ ({} : ResourceLimits).maxViewportRows ∧
    size.columns ≤ ({} : ResourceLimits).maxViewportColumns

instance (size : TerminalSize) : Decidable size.WithinLimits :=
  inferInstanceAs (Decidable (_ ∧ _ ∧ _ ∧ _))

/-! ## Errors -/

inductive DomainErrorKind where
  | notSetup | alreadyConfiguredConflict | pathUnsafe | permissionMismatch | unsupportedPlatform
  | identityInvalid | identityStateMismatch | configSyntax | configVersion | configProfile
  | schemaTooNew | migrationFailed | storeUnavailable | daemonStopped | daemonAlreadyRunning
  | daemonStartTimeout | peerUidMismatch | deadlineExceeded | cancelled | wireMajorMismatch
  | unknownKind | frameTooLarge | controlPayloadTooLarge | malformedFrame
  | operationOutcomeUnknown | invalidSessionName | invalidWorkingDirectory
  | releaseManifestInvalid | releaseSignatureInvalid | releaseArtifactInvalid
  | releaseUnavailable | updateRejected | reservedSessionName | sessionAlreadyExists
  | sessionNotFound | sessionOccupied | notSynchronized | leaseLost | resourceExhausted
  | serviceNotImplemented | addressUnavailable | transportUnavailable | unauthorized
  | authorizationRevoked | pairTicketInvalid | pairTicketExpired | pairTicketConsumed
  | pairOutcomeUnknown | invalidDeviceAlias | deviceAliasConflict | invalidTargetSelector
  | outboundDirectionDenied | deviceNotFound | uploadTooLarge | uploadSourceInvalid
  | uploadStorageFailed | uploadOutcomeUnknown
  deriving DecidableEq, Repr

def DomainErrorKind.codes : List (DomainErrorKind × String) :=
  [(.notSetup, "not_setup"),
   (.alreadyConfiguredConflict, "already_configured_conflict"),
   (.pathUnsafe, "path_unsafe"),
   (.permissionMismatch, "permission_mismatch"),
   (.unsupportedPlatform, "unsupported_platform"),
   (.identityInvalid, "identity_invalid"),
   (.identityStateMismatch, "identity_state_mismatch"),
   (.configSyntax, "config_syntax"),
   (.configVersion, "config_version"),
   (.configProfile, "config_profile"),
   (.schemaTooNew, "schema_too_new"),
   (.migrationFailed, "migration_failed"),
   (.storeUnavailable, "store_unavailable"),
   (.daemonStopped, "daemon_stopped"),
   (.daemonAlreadyRunning, "daemon_already_running"),
   (.daemonStartTimeout, "daemon_start_timeout"),
   (.peerUidMismatch, "peer_uid_mismatch"),
   (.deadlineExceeded, "deadline_exceeded"),
   (.cancelled, "cancelled"),
   (.wireMajorMismatch, "wire_major_mismatch"),
   (.unknownKind, "unknown_kind"),
   (.frameTooLarge, "frame_too_large"),
   (.controlPayloadTooLarge, "control_payload_too_large"),
   (.malformedFrame, "malformed_frame"),
   (.operationOutcomeUnknown, "operation_outcome_unknown"),
   (.invalidSessionName, "invalid_session_name"),
   (.invalidWorkingDirectory, "invalid_working_directory"),
   (.releaseManifestInvalid, "release_manifest_invalid"),
   (.releaseSignatureInvalid, "release_signature_invalid"),
   (.releaseArtifactInvalid, "release_artifact_invalid"),
   (.releaseUnavailable, "release_unavailable"),
   (.updateRejected, "update_rejected"),
   (.reservedSessionName, "reserved_session_name"),
   (.sessionAlreadyExists, "session_already_exists"),
   (.sessionNotFound, "session_not_found"),
   (.sessionOccupied, "session_occupied"),
   (.notSynchronized, "not_synchronized"),
   (.leaseLost, "lease_lost"),
   (.resourceExhausted, "resource_exhausted"),
   (.serviceNotImplemented, "service_not_implemented"),
   (.addressUnavailable, "address_unavailable"),
   (.transportUnavailable, "transport_unavailable"),
   (.unauthorized, "unauthorized"),
   (.authorizationRevoked, "authorization_revoked"),
   (.pairTicketInvalid, "pair_ticket_invalid"),
   (.pairTicketExpired, "pair_ticket_expired"),
   (.pairTicketConsumed, "pair_ticket_consumed"),
   (.pairOutcomeUnknown, "pair_outcome_unknown"),
   (.invalidDeviceAlias, "invalid_device_alias"),
   (.deviceAliasConflict, "device_alias_conflict"),
   (.invalidTargetSelector, "invalid_target_selector"),
   (.outboundDirectionDenied, "outbound_direction_denied"),
   (.deviceNotFound, "device_not_found"),
   (.uploadTooLarge, "upload_too_large"),
   (.uploadSourceInvalid, "upload_source_invalid"),
   (.uploadStorageFailed, "upload_storage_failed"),
   (.uploadOutcomeUnknown, "upload_outcome_unknown")]

def DomainErrorKind.code (kind : DomainErrorKind) : String := (codes.lookup kind).getD ""

def DomainErrorKind.fromCode (code : String) : Option DomainErrorKind :=
  (codes.find? (·.2 = code)).map (·.1)

structure DaemonError where
  kind : DomainErrorKind
  detail : String
  deriving DecidableEq, Repr

theorem bind_ok {ε α β : Type} {x : Except ε α} {f : α → Except ε β} {b : β} :
    (x >>= f) = .ok b ↔ ∃ a, x = .ok a ∧ f a = .ok b := by
  cases x with
  | error e => simp [bind, Except.bind]
  | ok a => simp [bind, Except.bind]

/-! ## Principals and operations -/

abbrev DeviceId := Nat

abbrev AttachmentId := Nat

abbrev DaemonIncarnation := Nat

inductive AttachmentPrincipal where
  | remoteEndpoint (deviceId : DeviceId) (authGeneration : Nat)
  | localSameUid (ownDeviceId : DeviceId) (localViewId : AttachmentId)
  deriving DecidableEq, Repr

structure OperationLease where
  daemonIncarnation : DaemonIncarnation
  ordinal : Nat
  deriving DecidableEq, Repr

structure OperationId where
  lease : OperationLease
  sequence : Nat
  deriving DecidableEq, Repr

end Voytty
