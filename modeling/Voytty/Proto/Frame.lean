import Voytty.Core.Domain

/-!
# Frames

The stream format of `proto/src/lib.rs`: a varint length, then a `WireFrame`
message with a kind, a request id, a deadline and the payload of one concrete
message. `FrameDecoder` takes a stream in pieces of any size.

Protobuf messages and zlib streams are made and read by libraries: `Codec` is
what the decoder asks of them.
-/

namespace Voytty.Proto

def wireMajor : Nat := 2

def maxFrameBytes : Nat := 8 * 1024 * 1024

def maxControlPayloadBytes : Nat := 1024 * 1024

def maxLocalSessionTunnelDataBytes : Nat := 64 * 1024

def maxPairHelloFrameBytes : Nat := 16 * 1024

def uploadChunkBytes : Nat := 65536

def maxVarintBytes : Nat := 10

/-! ## Kinds -/

inductive WireKind where
  | localReadinessRequest | localReadinessResponse | localStatusRequest | localStatusResponse
  | localValidateSetupRequest | localValidateSetupResponse | localStopRequest | localStopResponse
  | localUpdatePreflightRequest | localUpdatePreflightResponse | serviceErrorResponse
  | localPairCreateRequest | localPairCreateResponse | localPairAcceptRequest
  | localPairAcceptResponse | localDeviceListRequest | localDeviceListResponse
  | localDeviceRenameRequest | localDeviceRenameResponse | localDeviceRevokeRequest
  | localDeviceRevokeResponse | localTargetResolveRequest | localTargetResolveResponse
  | localSessionUnaryRequest | localSessionTunnelOpenRequest | localSessionTunnelOpened
  | localSessionTunnelData | localSessionTunnelPath | localSessionTunnelHalfClose
  | localSessionTunnelClosed | localConnectionProgress | pairBegin | pairChallenge | pairProof
  | pairAccepted | connectionHello | connectionWelcome | sessionListRequest | sessionListResponse
  | sessionCreateRequest | sessionMutateResponse | sessionRenameRequest | sessionCloseRequest
  | sessionTakeoverRequest | sessionOperationLeaseRequest | sessionOperationLeaseResponse
  | terminalAttachRequest | terminalSemanticSnapshot | terminalSemanticDelta | terminalInput
  | terminalResize | terminalDetach | terminalSnapshotApplied | terminalSyncRequest
  | terminalSyncRequired | terminalLeaseLost | terminalSessionEnded | terminalTransportStateEvent
  | terminalConnectionStatusEvent | terminalHistoryWindowRequest
  | terminalSemanticHistoryWindowFrame | terminalClipboardWrite | terminalBaseColors
  | terminalNotification | terminalSurfaceFramesReceived | uploadBegin | uploadReady
  | uploadChunk | uploadProgress | uploadFinish | uploadCompleted | uploadCancel
  | uploadCancelled
  deriving DecidableEq, Repr

namespace WireKind

def toNat : WireKind → Nat
  | .localReadinessRequest => 1
  | .localReadinessResponse => 2
  | .localStatusRequest => 3
  | .localStatusResponse => 4
  | .localValidateSetupRequest => 5
  | .localValidateSetupResponse => 6
  | .localStopRequest => 7
  | .localStopResponse => 8
  | .localUpdatePreflightRequest => 9
  | .localUpdatePreflightResponse => 10
  | .serviceErrorResponse => 11
  | .localPairCreateRequest => 12
  | .localPairCreateResponse => 13
  | .localPairAcceptRequest => 14
  | .localPairAcceptResponse => 15
  | .localDeviceListRequest => 16
  | .localDeviceListResponse => 17
  | .localDeviceRenameRequest => 18
  | .localDeviceRenameResponse => 19
  | .localDeviceRevokeRequest => 20
  | .localDeviceRevokeResponse => 21
  | .localTargetResolveRequest => 22
  | .localTargetResolveResponse => 23
  | .localSessionUnaryRequest => 24
  | .localSessionTunnelOpenRequest => 25
  | .localSessionTunnelOpened => 26
  | .localSessionTunnelData => 27
  | .localSessionTunnelPath => 28
  | .localSessionTunnelHalfClose => 29
  | .localSessionTunnelClosed => 30
  | .localConnectionProgress => 31
  | .pairBegin => 100
  | .pairChallenge => 101
  | .pairProof => 102
  | .pairAccepted => 103
  | .connectionHello => 104
  | .connectionWelcome => 105
  | .sessionListRequest => 200
  | .sessionListResponse => 201
  | .sessionCreateRequest => 209
  | .sessionMutateResponse => 203
  | .sessionRenameRequest => 204
  | .sessionCloseRequest => 205
  | .sessionTakeoverRequest => 206
  | .sessionOperationLeaseRequest => 207
  | .sessionOperationLeaseResponse => 208
  | .terminalAttachRequest => 323
  | .terminalSemanticSnapshot => 301
  | .terminalSemanticDelta => 302
  | .terminalInput => 303
  | .terminalResize => 304
  | .terminalDetach => 305
  | .terminalSnapshotApplied => 306
  | .terminalSyncRequest => 307
  | .terminalSyncRequired => 308
  | .terminalLeaseLost => 309
  | .terminalSessionEnded => 310
  | .terminalTransportStateEvent => 311
  | .terminalConnectionStatusEvent => 314
  | .terminalHistoryWindowRequest => 317
  | .terminalSemanticHistoryWindowFrame => 318
  | .terminalClipboardWrite => 322
  | .terminalBaseColors => 324
  | .terminalNotification => 325
  | .terminalSurfaceFramesReceived => 326
  | .uploadBegin => 400
  | .uploadReady => 401
  | .uploadChunk => 402
  | .uploadProgress => 403
  | .uploadFinish => 404
  | .uploadCompleted => 405
  | .uploadCancel => 406
  | .uploadCancelled => 407

def debugName : WireKind → String
  | .localReadinessRequest => "LocalReadinessRequest"
  | .localReadinessResponse => "LocalReadinessResponse"
  | .localStatusRequest => "LocalStatusRequest"
  | .localStatusResponse => "LocalStatusResponse"
  | .localValidateSetupRequest => "LocalValidateSetupRequest"
  | .localValidateSetupResponse => "LocalValidateSetupResponse"
  | .localStopRequest => "LocalStopRequest"
  | .localStopResponse => "LocalStopResponse"
  | .localUpdatePreflightRequest => "LocalUpdatePreflightRequest"
  | .localUpdatePreflightResponse => "LocalUpdatePreflightResponse"
  | .serviceErrorResponse => "ServiceErrorResponse"
  | .localPairCreateRequest => "LocalPairCreateRequest"
  | .localPairCreateResponse => "LocalPairCreateResponse"
  | .localPairAcceptRequest => "LocalPairAcceptRequest"
  | .localPairAcceptResponse => "LocalPairAcceptResponse"
  | .localDeviceListRequest => "LocalDeviceListRequest"
  | .localDeviceListResponse => "LocalDeviceListResponse"
  | .localDeviceRenameRequest => "LocalDeviceRenameRequest"
  | .localDeviceRenameResponse => "LocalDeviceRenameResponse"
  | .localDeviceRevokeRequest => "LocalDeviceRevokeRequest"
  | .localDeviceRevokeResponse => "LocalDeviceRevokeResponse"
  | .localTargetResolveRequest => "LocalTargetResolveRequest"
  | .localTargetResolveResponse => "LocalTargetResolveResponse"
  | .localSessionUnaryRequest => "LocalSessionUnaryRequest"
  | .localSessionTunnelOpenRequest => "LocalSessionTunnelOpenRequest"
  | .localSessionTunnelOpened => "LocalSessionTunnelOpened"
  | .localSessionTunnelData => "LocalSessionTunnelData"
  | .localSessionTunnelPath => "LocalSessionTunnelPath"
  | .localSessionTunnelHalfClose => "LocalSessionTunnelHalfClose"
  | .localSessionTunnelClosed => "LocalSessionTunnelClosed"
  | .localConnectionProgress => "LocalConnectionProgress"
  | .pairBegin => "PairBegin"
  | .pairChallenge => "PairChallenge"
  | .pairProof => "PairProof"
  | .pairAccepted => "PairAccepted"
  | .connectionHello => "ConnectionHello"
  | .connectionWelcome => "ConnectionWelcome"
  | .sessionListRequest => "SessionListRequest"
  | .sessionListResponse => "SessionListResponse"
  | .sessionCreateRequest => "SessionCreateRequest"
  | .sessionMutateResponse => "SessionMutateResponse"
  | .sessionRenameRequest => "SessionRenameRequest"
  | .sessionCloseRequest => "SessionCloseRequest"
  | .sessionTakeoverRequest => "SessionTakeoverRequest"
  | .sessionOperationLeaseRequest => "SessionOperationLeaseRequest"
  | .sessionOperationLeaseResponse => "SessionOperationLeaseResponse"
  | .terminalAttachRequest => "TerminalAttachRequest"
  | .terminalSemanticSnapshot => "TerminalSemanticSnapshot"
  | .terminalSemanticDelta => "TerminalSemanticDelta"
  | .terminalInput => "TerminalInput"
  | .terminalResize => "TerminalResize"
  | .terminalDetach => "TerminalDetach"
  | .terminalSnapshotApplied => "TerminalSnapshotApplied"
  | .terminalSyncRequest => "TerminalSyncRequest"
  | .terminalSyncRequired => "TerminalSyncRequired"
  | .terminalLeaseLost => "TerminalLeaseLost"
  | .terminalSessionEnded => "TerminalSessionEnded"
  | .terminalTransportStateEvent => "TerminalTransportStateEvent"
  | .terminalConnectionStatusEvent => "TerminalConnectionStatusEvent"
  | .terminalHistoryWindowRequest => "TerminalHistoryWindowRequest"
  | .terminalSemanticHistoryWindowFrame => "TerminalSemanticHistoryWindowFrame"
  | .terminalClipboardWrite => "TerminalClipboardWrite"
  | .terminalBaseColors => "TerminalBaseColors"
  | .terminalNotification => "TerminalNotification"
  | .terminalSurfaceFramesReceived => "TerminalSurfaceFramesReceived"
  | .uploadBegin => "UploadBegin"
  | .uploadReady => "UploadReady"
  | .uploadChunk => "UploadChunk"
  | .uploadProgress => "UploadProgress"
  | .uploadFinish => "UploadFinish"
  | .uploadCompleted => "UploadCompleted"
  | .uploadCancel => "UploadCancel"
  | .uploadCancelled => "UploadCancelled"

def all : List WireKind :=
  [
    .localReadinessRequest, .localReadinessResponse, .localStatusRequest, .localStatusResponse,
    .localValidateSetupRequest, .localValidateSetupResponse, .localStopRequest,
    .localStopResponse, .localUpdatePreflightRequest, .localUpdatePreflightResponse,
    .serviceErrorResponse, .localPairCreateRequest, .localPairCreateResponse,
    .localPairAcceptRequest, .localPairAcceptResponse, .localDeviceListRequest,
    .localDeviceListResponse, .localDeviceRenameRequest, .localDeviceRenameResponse,
    .localDeviceRevokeRequest, .localDeviceRevokeResponse, .localTargetResolveRequest,
    .localTargetResolveResponse, .localSessionUnaryRequest, .localSessionTunnelOpenRequest,
    .localSessionTunnelOpened, .localSessionTunnelData, .localSessionTunnelPath,
    .localSessionTunnelHalfClose, .localSessionTunnelClosed, .localConnectionProgress,
    .pairBegin, .pairChallenge, .pairProof, .pairAccepted, .connectionHello, .connectionWelcome,
    .sessionListRequest, .sessionListResponse, .sessionCreateRequest, .sessionMutateResponse,
    .sessionRenameRequest, .sessionCloseRequest, .sessionTakeoverRequest,
    .sessionOperationLeaseRequest, .sessionOperationLeaseResponse, .terminalAttachRequest,
    .terminalSemanticSnapshot, .terminalSemanticDelta, .terminalInput, .terminalResize,
    .terminalDetach, .terminalSnapshotApplied, .terminalSyncRequest, .terminalSyncRequired,
    .terminalLeaseLost, .terminalSessionEnded, .terminalTransportStateEvent,
    .terminalConnectionStatusEvent, .terminalHistoryWindowRequest,
    .terminalSemanticHistoryWindowFrame, .terminalClipboardWrite, .terminalBaseColors,
    .terminalNotification, .terminalSurfaceFramesReceived, .uploadBegin, .uploadReady,
    .uploadChunk, .uploadProgress, .uploadFinish, .uploadCompleted, .uploadCancel,
    .uploadCancelled]

def tryFrom (n : Nat) : Option WireKind := all.find? (·.toNat = n)

def isTerminalSurface : WireKind → Bool
  | .terminalSemanticSnapshot | .terminalSemanticDelta | .terminalSemanticHistoryWindowFrame => true
  | _ => false

def isControl (kind : WireKind) : Bool := !kind.isTerminalSurface

def isPairHello : WireKind → Bool
  | .pairBegin | .pairChallenge | .pairProof | .pairAccepted | .connectionHello
  | .connectionWelcome => true
  | _ => false

def maxControlPayloadBytes (kind : WireKind) : Nat :=
  if kind = .localConnectionProgress then 64
  else if kind.isPairHello then maxPairHelloFrameBytes
  -- a field tag and a three-byte length
  else if kind = .localSessionTunnelData then maxLocalSessionTunnelDataBytes + 4
  else if kind = .uploadChunk then uploadChunkBytes + 64
  else Proto.maxControlPayloadBytes

end WireKind

/-! ## Errors -/

inductive ProtocolError where
  | malformedVarint
  | truncatedFrame
  | frameTooLarge (length : Nat)
  | controlPayloadTooLarge (length : Nat)
  | malformedProtobuf (error : String)
  | wireMajorMismatch (expected actual : Nat)
  | unknownKind (kind : Nat)
  | invalidPayloadEncoding
  | unexpectedKind (expected actual : WireKind)
  | invalidIdentifier (identifier : String) (expected actual : Nat)
  deriving DecidableEq, Repr

def ProtocolError.text : ProtocolError → String
  | .malformedVarint => "malformed frame length varint"
  | .truncatedFrame => "stream ended inside a frame"
  | .frameTooLarge length => s!"frame length {length} exceeds {maxFrameBytes} bytes"
  | .controlPayloadTooLarge length => s!"control payload length {length} exceeds its per-kind bound"
  | .malformedProtobuf error => s!"malformed protobuf: {error}"
  | .wireMajorMismatch expected actual => s!"wire major mismatch: local {expected}, peer {actual}"
  | .unknownKind kind => s!"unknown wire message kind {kind}"
  | .invalidPayloadEncoding => "invalid frame payload encoding"
  | .unexpectedKind expected actual => s!"expected {expected.debugName}, got {actual.debugName}"
  | .invalidIdentifier identifier expected actual =>
    s!"{identifier} must contain exactly {expected} bytes, got {actual}"

/-! ## Messages -/

structure WireFrame where
  wireMajor : Nat
  kind : Nat
  payload : List UInt8
  requestId : Nat
  deadlineMs : Nat
  payloadEncoding : Nat
  deriving DecidableEq, Repr

/-- The libraries' part. -/
structure Codec where
  wireFrame : List UInt8 → Except String WireFrame
  encodedLen : WireFrame → Nat
  /-- A zlib stream whose output may not exceed the bound. -/
  inflate : List UInt8 → Nat → Except ProtocolError (List UInt8)

structure DecodedFrame where
  kind : WireKind
  requestId : Nat
  deadlineMs : Nat
  payload : List UInt8
  deriving DecidableEq, Repr

def zlib : Nat := 1

/-- Expands a compressed payload; the expanded frame keeps the bound of a plain one. -/
def decodePayload (codec : Codec) (wire : WireFrame) (kind : WireKind) (maximumBodyBytes : Nat) :
    Except ProtocolError WireFrame :=
  if wire.payloadEncoding = 0 then .ok wire
  else if wire.payloadEncoding ≠ zlib ∨ !kind.isTerminalSurface then .error .invalidPayloadEncoding
  else
    match codec.inflate wire.payload maximumBodyBytes with
    | .error e => .error e
    | .ok payload =>
      let wire := { wire with payload, payloadEncoding := 0 }
      let length := codec.encodedLen wire
      if length > maximumBodyBytes then .error (.frameTooLarge length) else .ok wire

def validatePayloadLimit (kind : WireKind) (length : Nat) : Except ProtocolError Unit :=
  if kind.isControl ∧ length > kind.maxControlPayloadBytes then
    .error (.controlPayloadTooLarge length)
  else .ok ()

def decodeWireFrame (codec : Codec) (body : List UInt8) (maximumBodyBytes : Nat) :
    Except ProtocolError DecodedFrame :=
  match codec.wireFrame body with
  | .error e => .error (.malformedProtobuf e)
  | .ok wire =>
    if wire.wireMajor ≠ wireMajor then .error (.wireMajorMismatch wireMajor wire.wireMajor) else
    match WireKind.tryFrom wire.kind with
    | none => .error (.unknownKind wire.kind)
    | some kind =>
      match decodePayload codec wire kind maximumBodyBytes with
      | .error e => .error e
      | .ok wire =>
        match validatePayloadLimit kind wire.payload.length with
        | .error e => .error e
        | .ok () => .ok ⟨kind, wire.requestId, wire.deadlineMs, wire.payload⟩

/-! ## The decoder -/

/-- The value of a varint from its `index`th byte on; a final zero byte is not canonical. -/
def decodeVarintFrom : Nat → Nat → List UInt8 → Except ProtocolError Nat
  | _, _, [] => .error .malformedVarint
  | index, value, byte :: bytes =>
    if index = 9 ∧ 1 < byte.toNat then .error .malformedVarint
    else
      let value := value + (byte.toNat % 128) * 2 ^ (index * 7)
      if byte.toNat < 128 then
        if 0 < index ∧ byte = 0 then .error .malformedVarint else .ok value
      else decodeVarintFrom (index + 1) value bytes

def decodeVarint (bytes : List UInt8) : Except ProtocolError Nat := decodeVarintFrom 0 0 bytes

/-- Either a length is being collected, or the body of that length. -/
structure FrameDecoder where
  prefixBytes : List UInt8 := []
  body : List UInt8 := []
  expectedBody : Option Nat := none
  maximumBodyBytes : Nat := maxFrameBytes
  deriving DecidableEq, Repr

namespace FrameDecoder

variable (codec : Codec) (d : FrameDecoder)

def withMaximumBodyBytes (maximumBodyBytes : Nat) : FrameDecoder :=
  { maximumBodyBytes := min maximumBodyBytes maxFrameBytes }

def takePrefix (byte : UInt8) : Except ProtocolError FrameDecoder :=
  if d.prefixBytes.length = maxVarintBytes then .error .malformedVarint
  else
    let prefixBytes := d.prefixBytes ++ [byte]
    if byte.toNat < 128 then
      match decodeVarint prefixBytes with
      | .error e => .error e
      | .ok length =>
        if length > d.maximumBodyBytes then .error (.frameTooLarge length)
        else .ok { d with prefixBytes, body := [], expectedBody := some length }
    else if prefixBytes.length = maxVarintBytes then .error .malformedVarint
    else .ok { d with prefixBytes }

def takeBody (input : List UInt8) :
    Except ProtocolError (Option DecodedFrame × FrameDecoder × List UInt8) :=
  match d.expectedBody with
  | none => .ok (none, d, input)
  | some expected =>
    let needed := expected - d.body.length
    let taken := min needed input.length
    let body := d.body ++ input.take taken
    let input := input.drop taken
    if body.length = expected then
      match decodeWireFrame codec body d.maximumBodyBytes with
      | .error e => .error e
      | .ok frame =>
        .ok (some frame, { d with body := [], expectedBody := none, prefixBytes := [] }, input)
    else .ok (none, { d with body }, input)

def pass : List UInt8 → Except ProtocolError (Option DecodedFrame × FrameDecoder × List UInt8)
  | [] => .ok (none, d, [])
  | byte :: input =>
    if d.expectedBody.isNone then
      match d.takePrefix byte with
      | .error e => .error e
      | .ok d => d.takeBody codec input
    else d.takeBody codec (byte :: input)

/-- The loop; the fuel bounds its passes. -/
def feedLoop : Nat → FrameDecoder → List UInt8 → List DecodedFrame →
    Except ProtocolError (List DecodedFrame × FrameDecoder)
  | 0, d, _, frames => .ok (frames, d)
  | fuel + 1, d, input, frames =>
    if input.isEmpty then .ok (frames, d) else
    match d.pass codec input with
    | .error e => .error e
    | .ok (frame, d, input) => feedLoop fuel d input (frames ++ frame.toList)

/-- Every frame the bytes complete. A decoder that failed is not used again. -/
def feed (input : List UInt8) : Except ProtocolError (List DecodedFrame × FrameDecoder) :=
  feedLoop codec input.length d input []

def finish : Except ProtocolError Unit :=
  if d.prefixBytes = [] ∧ d.expectedBody = none then .ok () else .error .truncatedFrame

/-! ### Pieces of a stream -/

/-- A body being collected is not complete. -/
def Short (d : FrameDecoder) : Prop := ∀ expected, d.expectedBody = some expected →
  d.body.length < expected

def after (frames : List DecodedFrame) :
    Except ProtocolError (List DecodedFrame × FrameDecoder) →
      Except ProtocolError (List DecodedFrame × FrameDecoder)
  | .error e => .error e
  | .ok (more, d) => .ok (frames ++ more, d)

@[simp] theorem after_nil (out) : after [] out = out := by
  cases out <;> rfl

@[simp] theorem after_after (frames more : List DecodedFrame) (out) :
    after frames (after more out) = after (frames ++ more) out := by
  cases out <;> simp [after]

theorem after_ok {frames all : List DecodedFrame} {out} {d : FrameDecoder}
    (h : after frames out = .ok (all, d)) : ∃ more, out = .ok (more, d) := by
  cases out with
  | error e => cases h
  | ok out => exact ⟨out.1, by cases h; rfl⟩

def feedBytes : FrameDecoder → List UInt8 → Except ProtocolError (List DecodedFrame × FrameDecoder)
  | d, [] => .ok ([], d)
  | d, byte :: bytes =>
    match d.pass codec [byte] with
    | .error e => .error e
    | .ok (frame, d, _) => after frame.toList (feedBytes d bytes)

variable {codec} {d}

variable {d' : FrameDecoder} {byte : UInt8} {expected : Nat} {input rest : List UInt8}

theorem takePrefix_ok (h : d.takePrefix byte = .ok d') : d.prefixBytes.length ≠ maxVarintBytes ∧
    (128 ≤ byte.toNat ∧ d' = { d with prefixBytes := d.prefixBytes ++ [byte] } ∨
      byte.toNat < 128 ∧ ∃ length ≤ d.maximumBodyBytes,
        decodeVarint (d.prefixBytes ++ [byte]) = .ok length ∧
        d' = { d with
          prefixBytes := d.prefixBytes ++ [byte], body := [], expectedBody := some length }) := by
  unfold takePrefix at h
  split at h
  · cases h
  rename_i hroom
  refine ⟨hroom, ?_⟩
  dsimp only at h
  split at h
  · rename_i hlast
    split at h
    · cases h
    rename_i length hlength
    split at h
    · cases h
    rename_i hmax
    obtain rfl := Except.ok.inj h
    exact .inr ⟨hlast, length, not_lt.mp hmax, hlength, rfl⟩
  · rename_i hlast
    split at h
    · cases h
    obtain rfl := Except.ok.inj h
    exact .inl ⟨not_lt.mp hlast, rfl⟩

theorem takeBody_short (he : d.expectedBody = some expected)
    (h : d.body.length + input.length < expected) :
    d.takeBody codec input = .ok (none, { d with body := d.body ++ input }, []) := by
  have htaken : min (expected - d.body.length) input.length = input.length := by omega
  unfold takeBody
  simp only [he, htaken, List.take_length, List.drop_length]
  rw [if_neg (by simp; omega)]

theorem takeBody_full (input rest : List UInt8) (he : d.expectedBody = some expected)
    (h : d.body.length + input.length = expected) :
    d.takeBody codec (input ++ rest) =
      match decodeWireFrame codec (d.body ++ input) d.maximumBodyBytes with
      | .error e => .error e
      | .ok frame =>
        .ok (some frame, { d with body := [], expectedBody := none, prefixBytes := [] }, rest) := by
  have htaken : min (expected - d.body.length) (input ++ rest).length = input.length := by
    simp
    omega
  unfold takeBody
  simp only [he, htaken, List.take_left, List.drop_left]
  rw [if_pos (by simpa using h)]

theorem pass_body (he : d.expectedBody = some expected) :
    d.pass codec (byte :: input) = d.takeBody codec (byte :: input) := by
  simp [pass, he]

theorem feedBytes_short (he : d.expectedBody = some expected)
    (h : d.body.length + input.length < expected) :
    d.feedBytes codec input = .ok ([], { d with body := d.body ++ input }) := by
  induction input generalizing d with
  | nil => simp [feedBytes]
  | cons byte input ih =>
    simp only [List.length_cons] at h
    rw [feedBytes, pass_body he, takeBody_short he (by simp; omega)]
    dsimp only
    rw [ih (by exact he) (by simp; omega)]
    simp

theorem feedBytes_full (he : d.expectedBody = some expected) (hs : d.body.length < expected)
    (h : d.body.length + input.length = expected) :
    d.feedBytes codec (input ++ rest) =
      match decodeWireFrame codec (d.body ++ input) d.maximumBodyBytes with
      | .error e => .error e
      | .ok frame => after [frame]
        (feedBytes codec { d with body := [], expectedBody := none, prefixBytes := [] } rest) := by
  induction input generalizing d with
  | nil => simp at h; omega
  | cons byte input ih =>
    simp only [List.length_cons] at h
    rw [List.cons_append, feedBytes, pass_body he]
    by_cases hlast : input = []
    · subst hlast
      have hfull : d.takeBody codec [byte] = _ := takeBody_full [byte] [] he (by simpa using h)
      rw [hfull]
      cases decodeWireFrame codec (d.body ++ [byte]) d.maximumBodyBytes with
      | error e => rfl
      | ok frame => rfl
    · have hpos := List.length_pos_iff.mpr hlast
      rw [takeBody_short he (by simp; omega)]
      dsimp only
      rw [ih (by exact he) (by simp; omega) (by simp; omega)]
      simp only [List.append_assoc, List.singleton_append, Option.toList_none, after_nil]

/-- The loop takes runs of body bytes, which is the same as taking each. -/
theorem takeBody_bytes (hs : d.Short) (he : d.expectedBody = some expected) (input : List UInt8) :
    d.feedBytes codec input =
      match d.takeBody codec input with
      | .error e => .error e
      | .ok (frame, d, rest) => after frame.toList (d.feedBytes codec rest) := by
  have hopen := hs expected he
  by_cases hshort : d.body.length + input.length < expected
  · rw [takeBody_short he hshort, feedBytes_short he hshort]
    simp [feedBytes]
  · have hinput : input.take (expected - d.body.length) ++ input.drop (expected - d.body.length) =
        input := List.take_append_drop _ _
    have hlength : d.body.length + (input.take (expected - d.body.length)).length = expected := by
      simp
      omega
    rw [← hinput, takeBody_full _ _ he hlength, feedBytes_full he hopen hlength]
    cases decodeWireFrame codec (d.body ++ input.take (expected - d.body.length))
      d.maximumBodyBytes with
    | error e => rfl
    | ok frame => rfl

theorem takeBody_ok {frame : Option DecodedFrame} (he : d.expectedBody = some expected)
    (h : d.takeBody codec input = .ok (frame, d', rest)) (hfit : d.body.length ≤ expected) :
    ∃ taken, input = taken ++ rest ∧
      (d.body.length + taken.length = expected ∧
          d' = { d with body := [], expectedBody := none, prefixBytes := [] } ∨
        d.body.length + taken.length < expected ∧ d' = { d with body := d.body ++ taken } ∧
          rest = []) := by
  rcases Nat.lt_or_ge (d.body.length + input.length) expected with hshort | hfull
  · rw [takeBody_short he hshort] at h
    obtain ⟨-, rfl, rfl⟩ := by simpa using h
    exact ⟨input, by simp, .inr ⟨hshort, rfl, rfl⟩⟩
  · have hlength : d.body.length + (input.take (expected - d.body.length)).length = expected := by
      simp
      omega
    rw [← List.take_append_drop (expected - d.body.length) input, takeBody_full _ _ he hlength] at h
    split at h
    · cases h
    · obtain ⟨-, rfl, rfl⟩ := by simpa using h
      exact ⟨_, (List.take_append_drop _ _).symm, .inl ⟨hlength, rfl⟩⟩

theorem pass_bytes (hs : d.Short) (byte : UInt8) (input : List UInt8) :
    d.feedBytes codec (byte :: input) =
      match d.pass codec (byte :: input) with
      | .error e => .error e
      | .ok (frame, d, rest) => after frame.toList (d.feedBytes codec rest) := by
  cases he : d.expectedBody with
  | some expected => rw [pass_body he, takeBody_bytes hs he]
  | none =>
    simp only [feedBytes, pass, he, Option.isNone_none, if_true]
    cases hp : d.takePrefix byte with
    | error e => rfl
    | ok d₁ =>
      dsimp only
      obtain ⟨-, ⟨-, hd⟩ | ⟨-, expected, -, -, hd⟩⟩ := takePrefix_ok hp
      · simp [takeBody, hd, he]
      · have hsome : d₁.expectedBody = some expected := by rw [hd]
        have hbody : d₁.body = [] := by rw [hd]
        by_cases hzero : expected = 0
        · -- an empty body is complete with its length
          have hfull : ∀ rest, d₁.takeBody codec rest = _ := fun rest =>
            takeBody_full [] rest hsome (by simp [hbody, hzero])
          rw [hfull [], hfull input]
          cases decodeWireFrame codec (d₁.body ++ []) d₁.maximumBodyBytes with
          | error e => rfl
          | ok frame => rfl
        · have hopen : d₁.body.length < expected := by
            rw [hbody]
            exact Nat.pos_of_ne_zero hzero
          rw [takeBody_short hsome (by simpa using hopen)]
          simp only [List.append_nil, Option.toList_none, after_nil]
          refine takeBody_bytes (fun e h => ?_) hsome input
          obtain rfl := Option.some.inj (hsome.symm.trans h)
          exact hopen

theorem takeBody_shortens {frame : Option DecodedFrame} (he : d.expectedBody = some expected)
    (hfit : d.body.length ≤ expected) (h : d.takeBody codec input = .ok (frame, d', rest)) :
    d'.Short ∧ rest.length ≤ input.length ∧
      (d.body.length < expected → input ≠ [] → rest.length < input.length) := by
  obtain ⟨taken, rfl, ⟨hend, rfl⟩ | ⟨hopen, rfl, rfl⟩⟩ := takeBody_ok he h hfit
  · refine ⟨fun _ h => (nomatch h), by simp, fun hs _ => ?_⟩
    rw [List.length_append]
    omega
  · refine ⟨fun e h => ?_, Nat.zero_le _, fun _ hne => List.length_pos_iff.mpr hne⟩
    obtain rfl : expected = e := Option.some.inj (he.symm.trans h)
    simpa using hopen

theorem pass_ok (hs : d.Short) {frame : Option DecodedFrame}
    (h : d.pass codec (byte :: input) = .ok (frame, d', rest)) :
    d'.Short ∧ rest.length < (byte :: input).length := by
  cases he : d.expectedBody with
  | some expected =>
    rw [pass_body he] at h
    obtain ⟨hshort, -, hlt⟩ := takeBody_shortens he (hs expected he).le h
    exact ⟨hshort, hlt (hs expected he) (by simp)⟩
  | none =>
    simp only [pass, he, Option.isNone_none, if_true] at h
    cases hp : d.takePrefix byte with
    | error e => rw [hp] at h; cases h
    | ok d₁ =>
      rw [hp] at h
      dsimp only at h
      obtain ⟨-, ⟨-, rfl⟩ | ⟨-, expected, -, -, rfl⟩⟩ := takePrefix_ok hp
      · simp only [takeBody, he, Except.ok.injEq, Prod.mk.injEq] at h
        obtain ⟨-, rfl, rfl⟩ := h
        exact ⟨nofun, by simp⟩
      · obtain ⟨hshort, hle, -⟩ := takeBody_shortens rfl (Nat.zero_le _) h
        exact ⟨hshort, by simpa using Nat.lt_succ_of_le hle⟩

theorem feedLoop_bytes {fuel : Nat} (hs : d.Short) (hfuel : input.length ≤ fuel)
    (frames : List DecodedFrame) :
    feedLoop codec fuel d input frames = after frames (d.feedBytes codec input) := by
  induction fuel generalizing d input frames with
  | zero =>
    obtain rfl := List.length_eq_zero_iff.mp (Nat.le_zero.mp hfuel)
    simp [feedLoop, feedBytes, after]
  | succ fuel ih =>
    cases input with
    | nil => simp [feedLoop, feedBytes, after]
    | cons byte input =>
      rw [pass_bytes hs, feedLoop]
      simp only [List.isEmpty_cons, Bool.false_eq_true, if_false]
      cases hp : d.pass codec (byte :: input) with
      | error e => rfl
      | ok out =>
        obtain ⟨frame, d', rest⟩ := out
        obtain ⟨hshort, hlt⟩ := pass_ok hs hp
        dsimp only
        rw [ih hshort (by simp at hlt hfuel; omega), after_after]

theorem feed_bytes (hs : d.Short) (input : List UInt8) :
    d.feed codec input = d.feedBytes codec input := by
  rw [feed, feedLoop_bytes hs (le_refl _), after_nil]

theorem feedBytes_append (first second : List UInt8) :
    d.feedBytes codec (first ++ second) =
      match d.feedBytes codec first with
      | .error e => .error e
      | .ok (frames, d) => after frames (d.feedBytes codec second) := by
  induction first generalizing d with
  | nil => simp [feedBytes]
  | cons byte first ih =>
    simp only [List.cons_append, feedBytes]
    cases d.pass codec [byte] with
    | error e => rfl
    | ok out =>
      obtain ⟨frame, d', rest⟩ := out
      dsimp only
      rw [ih]
      cases d'.feedBytes codec first with
      | error e => rfl
      | ok out => exact after_after _ _ _

theorem feedBytes_keeps {P : FrameDecoder → List UInt8 → Prop} {stream : List UInt8}
    {frames : List DecodedFrame}
    (hstep : ∀ d stream byte frame d' rest, P d stream →
      d.pass codec [byte] = .ok (frame, d', rest) → P d' (stream ++ [byte]))
    (hp : P d stream) (h : d.feedBytes codec input = .ok (frames, d')) : P d' (stream ++ input) := by
  induction input generalizing d stream frames with
  | nil =>
    simp only [feedBytes, Except.ok.injEq, Prod.mk.injEq] at h
    obtain ⟨-, rfl⟩ := h
    simpa using hp
  | cons byte input ih =>
    simp only [feedBytes] at h
    cases hpass : d.pass codec [byte] with
    | error e => rw [hpass] at h; cases h
    | ok out =>
      obtain ⟨frame, d₁, rest⟩ := out
      rw [hpass] at h
      obtain ⟨more, hrest⟩ := after_ok h
      simpa using ih (hstep _ _ _ _ _ _ hp hpass) hrest

theorem feedBytes_shortened {frames : List DecodedFrame} (hs : d.Short)
    (h : d.feedBytes codec input = .ok (frames, d')) : d'.Short :=
  @feedBytes_keeps codec d d' input (fun d _ => d.Short) [] frames
    (fun _ _ _ _ _ _ hs hpass => (pass_ok hs hpass).1) hs h

/-- A stream gives the same frames in whatever pieces it comes. -/
theorem feed_append (hs : d.Short) (first second : List UInt8) :
    d.feed codec (first ++ second) =
      match d.feed codec first with
      | .error e => .error e
      | .ok (frames, d) => after frames (d.feed codec second) := by
  rw [feed_bytes hs, feed_bytes hs, feedBytes_append]
  cases h : d.feedBytes codec first with
  | error e => rfl
  | ok out =>
    obtain ⟨frames, d'⟩ := out
    dsimp only
    rw [feed_bytes (feedBytes_shortened hs h)]

end FrameDecoder

end Voytty.Proto
