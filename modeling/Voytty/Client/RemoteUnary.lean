import Voytty.Proto.Frame

/-!
# Remote unary requests

The client of `client/src/remote_unary.rs`: one request and one response on a
service stream of their own. A request that failed after it was written may
have been carried out, so it is sent again, with the same bytes and under the
same deadline, when its kind allows that; at most once.

What the transport does with an attempt is a `StreamOutcome`. Time enters as
the deadline each attempt is given.
-/

namespace Voytty.Client

open Voytty.Proto

abbrev ClientError := DaemonError

/-! ## Errors -/

def protocolErrorKind : ProtocolError → DomainErrorKind
  | .wireMajorMismatch _ _ => .wireMajorMismatch
  | .unknownKind _ => .unknownKind
  | .frameTooLarge _ => .frameTooLarge
  | .controlPayloadTooLarge _ => .controlPayloadTooLarge
  | .malformedVarint | .truncatedFrame | .malformedProtobuf _ | .unexpectedKind _ _
  | .invalidIdentifier _ _ _ | .invalidPayloadEncoding => .malformedFrame

def protocolError (error : ProtocolError) : ClientError := ⟨protocolErrorKind error, error.text⟩

def malformed (detail : String) : ClientError := ⟨.malformedFrame, detail⟩

def transportUnavailable (detail : String) : ClientError := ⟨.transportUnavailable, detail⟩

def remoteSessionFailureDetail : String := "remote Session request failed"

/-- The client's own report that a mutation may have happened. -/
def outcomeUnknown : ClientError :=
  ⟨.operationOutcomeUnknown,
    "remote Session mutation may have committed but no complete response was received"⟩

/-- Where an attempt failed: before anything was submitted, or after. -/
inductive RemoteAttemptError where
  | preWrite (error : ClientError)
  | postWrite (error : ClientError)
  deriving DecidableEq, Repr

/-! ## Messages -/

inductive Target where
  | localDaemon (value : Bool)
  | device (id : List UInt8)
  deriving DecidableEq, Repr

/-- Reading and writing the concrete messages. -/
structure UnaryCodec extends Codec where
  /-- The target of a request of this kind. -/
  requestTarget : WireKind → List UInt8 → Except String (Option Target)
  serviceError : List UInt8 → Except String (String × String)
  encodeServiceError : String → String → List UInt8
  /-- The typed payload of an expected response. -/
  validatePayload : WireKind → List UInt8 → Except ClientError Unit

def deviceIdFromBytes (bytes : List UInt8) : Except ProtocolError DeviceId :=
  if bytes.length = 32 then .ok (bytes.foldl (fun n b => n * 256 + b.toNat) 0)
  else .error (.invalidIdentifier "DeviceId" 32 bytes.length)

def decodeExactFrame (codec : Codec) (bytes : List UInt8) : Except ClientError DecodedFrame :=
  match ({} : FrameDecoder).feed codec bytes with
  | .error e => .error (protocolError e)
  | .ok (frames, decoder) =>
    match decoder.finish with
    | .error e => .error (protocolError e)
    | .ok () =>
      match frames with
      | [frame] => .ok frame
      | _ => .error (malformed "remote Session envelope must contain exactly one complete frame")

def requireExactRemoteTarget (target : Option Target) (expected : DeviceId) :
    Except ClientError Unit :=
  match target with
  | some (.device device) =>
    match deviceIdFromBytes device with
    | .error e => .error (protocolError e)
    | .ok actual =>
      if actual ≠ expected then
        .error (malformed "remote Session envelope target differs from its inner request target")
      else .ok ()
  | _ => .error (malformed "remote Session request omitted its exact device target")

/-! ## The contract of a request -/

inductive RetryClass where
  | safe
  | statefulControl
  | mutation
  deriving DecidableEq, Repr

structure RequestContract where
  requestId : Nat
  responseKind : WireKind
  retryClass : RetryClass
  operationBudget : Nat
  deriving DecidableEq, Repr

/-- In milliseconds, as every duration here. -/
def defaultDeadline : Nat := 5000

def unaryKind : WireKind → Option (WireKind × RetryClass)
  | .sessionListRequest => some (.sessionListResponse, .safe)
  | .sessionOperationLeaseRequest => some (.sessionOperationLeaseResponse, .statefulControl)
  | .sessionCreateRequest => some (.sessionMutateResponse, .mutation)
  | .sessionRenameRequest => some (.sessionMutateResponse, .mutation)
  | .sessionCloseRequest => some (.sessionMutateResponse, .mutation)
  | .sessionTakeoverRequest => some (.sessionMutateResponse, .mutation)
  | _ => none

namespace RequestContract

def inspect (codec : UnaryCodec) (request : List UInt8) (target : DeviceId) :
    Except ClientError RequestContract :=
  match decodeExactFrame codec.toCodec request with
  | .error e => .error e
  | .ok frame =>
    match unaryKind frame.kind with
    | none =>
      .error (malformed "local remote-Session envelope contains a non-unary Session kind")
    | some (responseKind, retryClass) =>
      match codec.requestTarget frame.kind frame.payload with
      | .error e => .error (protocolError (.malformedProtobuf e))
      | .ok wireTarget =>
        match requireExactRemoteTarget wireTarget target with
        | .error e => .error e
        | .ok () => .ok
          { requestId := frame.requestId
            responseKind := responseKind
            retryClass := retryClass
            operationBudget :=
              if frame.deadlineMs = 0 then defaultDeadline else min frame.deadlineMs defaultDeadline }

def requireRequestId (contract : RequestContract) (requestId : Nat) : Except ClientError Unit :=
  if contract.requestId = requestId then .ok ()
  else .error (malformed
    "local forwarding envelope request_id differs from its inner Session request")

end RequestContract

/-! ## Responses -/

inductive SessionUnaryResponseStatus where
  | expected
  | serviceError (error : ClientError)

/-- The peer's error, without its text. -/
def decodeSessionServiceError (codec : UnaryCodec) (frame : DecodedFrame) :
    Except ClientError ClientError :=
  match codec.serviceError frame.payload with
  | .error e => .error (protocolError (.malformedProtobuf e))
  | .ok (code, _) =>
    match DomainErrorKind.fromCode code with
    | none => .error (malformed "remote Session response used an unknown domain error code")
    | some kind => .ok ⟨kind, remoteSessionFailureDetail⟩

def contentFreeServiceErrorFrame (codec : UnaryCodec) (frame : DecodedFrame) (error : ClientError) :
    DecodedFrame :=
  { kind := .serviceErrorResponse
    requestId := frame.requestId
    deadlineMs := 0
    payload := codec.encodeServiceError error.kind.code error.detail }

def validateSessionUnaryResponse (codec : UnaryCodec) (frame : DecodedFrame)
    (expectedRequestId : Nat) (expectedKind : WireKind) :
    Except ClientError SessionUnaryResponseStatus :=
  if frame.requestId ≠ expectedRequestId then
    .error (malformed "remote Session response request_id does not match its request")
  else if frame.kind = .serviceErrorResponse then
    (decodeSessionServiceError codec frame).map .serviceError
  else if frame.kind ≠ expectedKind then
    .error (malformed (s!"remote Session response kind {frame.kind.debugName} " ++
      s!"does not match expected {expectedKind.debugName}"))
  else (codec.validatePayload expectedKind frame.payload).map fun _ => .expected

def RequestContract.validateResponse (contract : RequestContract) (codec : UnaryCodec)
    (response : DecodedFrame) : Except ClientError DecodedFrame :=
  match validateSessionUnaryResponse codec response contract.requestId contract.responseKind with
  | .error e => .error e
  | .ok .expected => .ok response
  | .ok (.serviceError error) => .ok (contentFreeServiceErrorFrame codec response error)

inductive ReadEnd where
  | eof
  | failed
  | late (error : ClientError)
  deriving DecidableEq, Repr

def readExactResponse (codec : Codec) (ending : ReadEnd) :
    FrameDecoder → Option DecodedFrame → List (List UInt8) → Except RemoteAttemptError DecodedFrame
  | decoder, completed, [] =>
    match ending with
    | .failed => .error (.postWrite (transportUnavailable "remote Session response read failed"))
    | .late error => .error (.postWrite error)
    | .eof =>
      match decoder.finish with
      | .error e => .error (.postWrite (protocolError e))
      | .ok () =>
        match completed with
        | some frame => .ok frame
        | none => .error (.postWrite
            (transportUnavailable "remote Session stream ended without a response"))
  | decoder, completed, chunk :: chunks =>
    match decoder.feed codec chunk with
    | .error e => .error (.postWrite (protocolError e))
    | .ok (frames, decoder) =>
      if frames.length > 1 ∨ completed.isSome ∧ frames ≠ [] then
        .error (.postWrite (malformed "remote Session stream returned more than one response"))
      else readExactResponse codec ending decoder (frames.head?.or completed) chunks

/-! ## Attempts -/

inductive StreamOutcome where
  | unopened (error : ClientError)
  /-- the write failed or timed out, or the stream could not be finished -/
  | interrupted (error : ClientError)
  /-- the connection acknowledged nothing within the window -/
  | unacknowledged
  | read (chunks : List (List UInt8)) (ending : ReadEnd)
  deriving DecidableEq, Repr

def exchange (codec : Codec) : StreamOutcome → Except RemoteAttemptError DecodedFrame
  | .unopened error => .error (.preWrite error)
  | .interrupted error => .error (.postWrite error)
  | .unacknowledged =>
    .error (.postWrite (transportUnavailable "remote Session request was not acknowledged"))
  | .read chunks ending => readExactResponse codec ending {} none chunks

def exchangeAndValidate (codec : UnaryCodec) (contract : RequestContract) (outcome : StreamOutcome) :
    Except RemoteAttemptError DecodedFrame :=
  match exchange codec.toCodec outcome with
  | .error e => .error e
  | .ok response =>
    match contract.validateResponse codec response with
    | .error e => .error (.postWrite e)
    | .ok response => .ok response

structure Attempt where
  request : List UInt8
  deadline : Nat
  retryFollows : Bool
  outcome : StreamOutcome
  deriving DecidableEq, Repr

/-- What the transport does: its demand, the connection set up, and the two exchanges. -/
structure Transport where
  demand : Except ClientError Unit := .ok ()
  prepare : Except ClientError Unit := .ok ()
  now : Nat := 0
  first : StreamOutcome
  second : StreamOutcome

/-- The result, with the attempts made for it. -/
def executeValidated (codec : UnaryCodec) (transport : Transport) (request : List UInt8)
    (deadline : Nat) (contract : RequestContract) :
    Except ClientError DecodedFrame × List Attempt :=
  match transport.demand with
  | .error e => (.error e, [])
  | .ok () =>
    match transport.prepare with
    | .error e => (.error e, [])
    | .ok () =>
      let deadline := min deadline (transport.now + contract.operationBudget)
      let retryFollows := contract.retryClass ≠ .statefulControl
      let first : Attempt := ⟨request, deadline, retryFollows, transport.first⟩
      match exchangeAndValidate codec contract first.outcome with
      | .ok response => (.ok response, [first])
      | .error (.preWrite error) => (.error error, [first])
      | .error (.postWrite firstError) =>
        match contract.retryClass with
        | .statefulControl => (.error firstError, [first])
        | .safe | .mutation =>
          let second : Attempt := ⟨request, deadline, false, transport.second⟩
          match exchangeAndValidate codec contract second.outcome with
          | .ok response => (.ok response, [first, second])
          | .error (.preWrite error) | .error (.postWrite error) =>
            (.error (if contract.retryClass = .mutation then outcomeUnknown else error),
              [first, second])

def executePreencoded (codec : UnaryCodec) (transport : Transport) (target : DeviceId)
    (requestId : Nat) (request : List UInt8) (deadline : Nat) :
    Except ClientError DecodedFrame × List Attempt :=
  match RequestContract.inspect codec request target with
  | .error e => (.error e, [])
  | .ok contract =>
    match contract.requireRequestId requestId with
    | .error e => (.error e, [])
    | .ok () => executeValidated codec transport request deadline contract

end Voytty.Client
